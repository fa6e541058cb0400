import ExOs.Library.Runs
import ExOs.Ipc.Pipe

/-!
# Runs of a pipe

What one section may do to the pipe is said once, in `Mossa`: whoever is
registered on a side that has to wait is woken or still has to wait.  From it
come the laws of every run.
-/

namespace ExOs.Ipc

open ExOs.Library List Function Attese

variable {a : Attese} {lato : Lato} {letti scritti : List UInt8} {n q : Nat}
  {r : Pipe × List Nat × Esito}

namespace Attese

theorem mem_pid (real : q ≠ 0) (there : a.cE q = true) : q ∈ a.pid := by
  rw [pid]
  rcases cE_iff.mp there with same | later
  · rw [if_neg (same ▸ real), same]
    exact mem_cons_self
  · split
    · exact later
    · exact mem_cons_of_mem a.uno later

end Attese

namespace Pipe

structure Sana (p : Pipe) : Prop where
  attLettori : p.attLettori.Sane
  attScrittori : p.attScrittori.Sane
  entro : p.quanti ≤ pipeDim

theorem Sana.attese {p : Pipe} (sana : p.Sana) (lato : Lato) : (p.att lato).Sane := by
  cases lato with
  | lettura => exact sana.attLettori
  | scrittura => exact sana.attScrittori

/-- `pid` is registered on a side that has to wait. -/
def Attende (p : Pipe) (lato : Lato) (pid : Nat) : Prop :=
  p.usata = true ∧ (p.att lato).cE pid = true ∧ p.pronta lato = false

/-- A section that wakes `svegliati`. -/
structure Mossa (p p' : Pipe) (svegliati : List Nat) : Prop where
  sana : p'.Sana
  aspettano : ∀ lato q, q ≠ 0 → q ∉ svegliati → p.Attende lato q → p'.Attende lato q

variable {p : Pipe}

theorem Mossa.ferma (sana : p.Sana) : Mossa p p [] := ⟨sana, fun _ _ _ _ waits => waits⟩

theorem pronta_lettura : p.pronta .lettura = false ↔ p.quanti = 0 ∧ p.scrittori ≠ 0 := by
  simp [pronta, pollGuarda]

theorem pronta_scrittura : p.pronta .scrittura = false ↔ pipeDim ≤ p.quanti ∧ p.lettori ≠ 0 := by
  simp [pronta, pollGuarda]

@[simp] theorem att_conAtt (p : Pipe) (lato : Lato) (a : Attese) (other : Lato) :
    (p.conAtt lato a).att other = if other = lato then a else p.att other := by
  cases lato <;> cases other <;> rfl

@[simp] theorem pronta_conAtt (p : Pipe) (lato : Lato) (a : Attese) (other : Lato) :
    (p.conAtt lato a).pronta other = p.pronta other := by
  cases lato <;> cases other <;> rfl

@[simp] theorem usata_conAtt (p : Pipe) (lato : Lato) (a : Attese) :
    (p.conAtt lato a).usata = p.usata := by
  cases lato <;> rfl

@[simp] theorem contenuto_conAtt (p : Pipe) (lato : Lato) (a : Attese) :
    (p.conAtt lato a).contenuto = p.contenuto := by
  cases lato <;> rfl

theorem Sana.conAtt (sana : p.Sana) (sane : a.Sane) {cambiati : List Nat}
    (kept : ∀ q, q ≠ 0 → q ∉ cambiati → (p.att lato).cE q = true → a.cE q = true) :
    Mossa p (p.conAtt lato a) cambiati where
  sana := by
    cases lato with
    | lettura => exact ⟨sane, sana.attScrittori, sana.entro⟩
    | scrittura => exact ⟨sana.attLettori, sane, sana.entro⟩
  aspettano := by
    rintro other q real unchanged ⟨used, there, waits⟩
    refine ⟨by rw [usata_conAtt]; exact used, ?_, by rw [pronta_conAtt]; exact waits⟩
    rw [att_conAtt]
    split
    · next same =>
      rw [same] at there
      exact kept q real unchanged there
    · exact there

/-- What a section of the call of `pid` does. -/
structure Sezione (p : Pipe) (pid : Nat) (chiamata : Chiamata) (r : Pipe × List Nat × Esito) :
    Prop where
  mossa : Mossa p r.1 r.2.1
  usata : r.1.usata = p.usata
  flusso : r.2.2.presi ++ r.1.contenuto = p.contenuto ++ chiamata.messi r.2.2
  dorme : r.2.2 = .dorme false → chiamata.chiede = true →
    ∃ lato, chiamata.lato = some lato ∧ r.1.Attende lato pid

variable {pid : Nat} {chiamata : Chiamata}

variable (sana : p.Sana) {nonblocca : Bool}

include sana

theorem Sezione.ferma {esito : Esito} (awake : esito ≠ .dorme false)
    (takes : esito.presi = []) (puts : chiamata.messi esito = []) :
    Sezione p pid chiamata (p, [], esito) where
  mossa := Mossa.ferma sana
  usata := rfl
  flusso := by rw [takes, puts, append_nil, nil_append]
  dorme := fun sleeps => absurd sleeps awake

theorem Sana.aspetta (real : pid ≠ 0) (used : p.usata = true)
    (waits : p.pronta lato = false) (side : chiamata.lato = some lato) :
    Sezione p pid chiamata (p.aspetta lato pid) := by
  rw [Pipe.aspetta]
  cases done : (p.att lato).metti pid with
  | none => exact Sezione.ferma sana (by simp) rfl (by cases chiamata <;> rfl)
  | some a =>
    obtain ⟨sane, members⟩ := (sana.attese lato).metti real done
    refine ⟨sana.conAtt sane ?_, usata_conAtt p lato a, ?_, fun _ _ => ⟨lato, side, ?_, ?_, ?_⟩⟩
    · intro q nz _ there
      exact members q nz (.inr there)
    · have puts : chiamata.messi (.dorme false) = [] := by cases chiamata <;> rfl
      rw [puts, append_nil]
      exact contenuto_conAtt p lato a
    · rw [usata_conAtt]
      exact used
    · rw [att_conAtt, if_pos rfl]
      exact members pid real (.inl rfl)
    · rw [pronta_conAtt]
      exact waits

theorem Sana.leggi (real : pid ≠ 0) (k n : Nat) (nonblocca : Bool) :
    Sezione p pid (.leggi k nonblocca) (p.leggi pid n nonblocca) := by
  rw [Pipe.leggi]
  split
  · exact Sezione.ferma sana (by simp) rfl rfl
  rename_i unused
  split
  · refine ⟨⟨⟨sana.attLettori, sveglia_sane,
      Nat.le_trans (Nat.sub_le _ _) sana.entro⟩, ?_⟩, rfl, ?_, fun sleeps => by simp at sleeps⟩
    · rintro lato q nz unwoken ⟨_, there, waits⟩
      cases lato with
      | lettura =>
        have empty := (pronta_lettura.mp waits).1
        omega
      | scrittura => exact absurd (mem_pid nz there) unwoken
    · exact (ring_take_append (Nat.min_le_right n p.quanti)).trans (append_nil _).symm
  rename_i given
  split
  · exact Sezione.ferma sana (by simp) rfl rfl
  rename_i finished
  split
  · exact Sezione.ferma sana (by simp) rfl rfl
  · exact sana.aspetta real (by simpa using unused)
      (pronta_lettura.mpr ⟨Nat.eq_zero_of_not_pos given, finished⟩) rfl

theorem Sana.scrivi (real : pid ≠ 0) (dati : List UInt8) (nonblocca : Bool) :
    Sezione p pid (.scrivi dati nonblocca) (p.scrivi pid (dati.take pipeTranche) nonblocca) := by
  rw [Pipe.scrivi]
  split
  · exact Sezione.ferma sana (by simp) rfl rfl
  rename_i unused
  split
  · exact Sezione.ferma sana (by simp) rfl rfl
  rename_i nobody
  split
  · refine ⟨⟨⟨sveglia_sane, sana.attScrittori, ?_⟩, ?_⟩, rfl, ?_,
      fun sleeps => by simp at sleeps⟩
    · dsimp only
      omega
    · rintro lato q nz unwoken ⟨_, there, waits⟩
      cases lato with
      | lettura => exact absurd (mem_pid nz there) unwoken
      | scrittura =>
        have full := (pronta_scrittura.mp waits).1
        omega
    · generalize isMessi : min (dati.take pipeTranche).length (pipeDim - p.quanti) = messi
      have short : messi ≤ pipeTranche := by
        rw [length_take] at isMessi
        omega
      have precise : ((dati.take pipeTranche).take messi).length = messi := by
        rw [length_take]
        omega
      have written : ring pipeDim (ringWrite pipeDim p.buf (p.testa + p.quanti)
            ((dati.take pipeTranche).take messi)) p.testa
            (p.quanti + ((dati.take pipeTranche).take messi).length) =
          p.contenuto ++ (dati.take pipeTranche).take messi :=
        ring_write p.buf p.quanti (by omega)
      rw [precise, take_take, Nat.min_eq_left short, ← ringWrite_mod] at written
      dsimp only
      rw [take_take, Nat.min_eq_left short]
      exact written
  rename_i room
  split
  · exact Sezione.ferma sana (by simp) rfl rfl
  · exact sana.aspetta real (by simpa using unused)
      (pronta_scrittura.mpr ⟨Nat.le_of_not_lt room, nobody⟩) rfl

theorem Sana.poll (lato : Lato) (chiesto : Bool) (real : pid ≠ 0) (scaduto : Bool) :
    Sezione p pid (.poll lato chiesto) (p.poll lato chiesto pid scaduto) := by
  rw [Pipe.poll]
  split
  · exact Sezione.ferma sana (by simp) rfl rfl
  rename_i ready
  cases chiesto with
  | false => exact ⟨Mossa.ferma sana, rfl, (append_nil _).symm, nofun⟩
  | true =>
    simp only [Bool.or_eq_true, Bool.not_eq_true', not_or, Bool.not_eq_true,
      Bool.not_eq_false] at ready
    have asks : Sezione p pid (.poll lato true) (p.aspetta lato pid) :=
      sana.aspetta real ready.1.1 ready.1.2 rfl
    rw [Pipe.aspetta] at asks
    cases done : (p.att lato).metti pid with
    | none => exact Sezione.ferma sana (by simp) rfl rfl
    | some a =>
      rw [done] at asks
      exact asks

omit sana

theorem Mossa.libera {p' : Pipe} {svegliati : List Nat} (mossa : Mossa p p' svegliati) :
    Mossa p p'.liberaSeOrfana svegliati := by
  rw [liberaSeOrfana]
  split
  · next orphan =>
    refine ⟨⟨nessuno_sane, nessuno_sane, Nat.zero_le _⟩, ?_⟩
    intro lato q real unwoken waits
    have still := (mossa.aspettano lato q real unwoken waits).2.2
    cases lato with
    | lettura => exact absurd orphan.2 (pronta_lettura.mp still).2
    | scrittura => exact absurd orphan.1 (pronta_scrittura.mp still).2
  · exact mossa

include sana

theorem Sana.conta {lettori scrittori : Nat}
    (readers : p.lettori ≠ 0 → lettori ≠ 0) (writers : p.scrittori ≠ 0 → scrittori ≠ 0) :
    Mossa p { p with lettori := lettori, scrittori := scrittori } [] := by
  refine ⟨{ sana with }, ?_⟩
  rintro lato q _ _ ⟨used, there, waits⟩
  cases lato with
  | lettura =>
    exact ⟨used, there, pronta_lettura.mpr ((pronta_lettura.mp waits).imp_right writers)⟩
  | scrittura =>
    exact ⟨used, there, pronta_scrittura.mpr ((pronta_scrittura.mp waits).imp_right readers)⟩

theorem Sana.apriLettore : Mossa p p.apriLettore [] := by
  rw [Pipe.apriLettore]
  split
  · exact sana.conta (fun _ => Nat.succ_ne_zero _) id
  · exact Mossa.ferma sana

theorem Sana.apriScrittore : Mossa p p.apriScrittore [] := by
  rw [Pipe.apriScrittore]
  split
  · exact sana.conta id fun _ => Nat.succ_ne_zero _
  · exact Mossa.ferma sana

theorem Sana.chiudiLettore : Mossa p p.chiudiLettore.1 p.chiudiLettore.2 := by
  rw [Pipe.chiudiLettore]
  split
  · dsimp only
    split
    · refine Mossa.libera ⟨⟨sana.attLettori, sveglia_sane, sana.entro⟩, ?_⟩
      rintro lato q nz unwoken ⟨used, there, waits⟩
      cases lato with
      | lettura => exact ⟨used, there, waits⟩
      | scrittura => exact absurd (mem_pid nz there) unwoken
    · next others => exact Mossa.libera (sana.conta (fun _ => others) id)
  · exact Mossa.ferma sana

theorem Sana.chiudiScrittore : Mossa p p.chiudiScrittore.1 p.chiudiScrittore.2 := by
  rw [Pipe.chiudiScrittore]
  split
  · dsimp only
    split
    · refine Mossa.libera ⟨⟨sveglia_sane, sana.attScrittori, sana.entro⟩, ?_⟩
      rintro lato q nz unwoken ⟨used, there, waits⟩
      cases lato with
      | lettura => exact absurd (mem_pid nz there) unwoken
      | scrittura => exact ⟨used, there, waits⟩
    · next others => exact Mossa.libera (sana.conta id fun _ => others)
  · exact Mossa.ferma sana

omit sana

theorem leggi_fine (ne : n ≠ 0)
    (ended : (p.leggi pid n nonblocca).2.2 = .letti []) : p.quanti = 0 ∧ p.scrittori = 0 := by
  rw [leggi] at ended
  split at ended
  · simp at ended
  split at ended
  · next full =>
    have nothing : ring pipeDim p.buf p.testa (min n p.quanti) = [] := by injection ended
    have zero := congrArg List.length nothing
    rw [length_ring, length_nil] at zero
    omega
  · next empty =>
    split at ended
    · next finished => exact ⟨Nat.eq_zero_of_not_pos empty, finished⟩
    split at ended
    · simp at ended
    · rw [aspetta] at ended
      split at ended <;> simp at ended

theorem scrivi_epipe {appoggio : List UInt8}
    (refused : (p.scrivi pid appoggio nonblocca).2.2 = .errore .epipe) : p.lettori = 0 := by
  rw [scrivi] at refused
  split at refused
  · simp at refused
  split at refused
  · next nobody => exact nobody
  split at refused
  · simp at refused
  split at refused
  · simp at refused
  · rw [aspetta] at refused
    split at refused <;> simp at refused

end Pipe

/-! ## The system -/

namespace Tubo

open Pipe

structure Sano (c : Tubo) : Prop where
  pipe : c.pipe.Sana
  flusso : c.pipe.usata = true → c.letti ++ c.pipe.contenuto = c.scritti
  dorme : ∀ q, (c.proc q).fase = .dorme false → (c.proc q).chiamata.chiede = true →
    ∃ lato, (c.proc q).chiamata.lato = some lato ∧ c.pipe.Attende lato q
  zero : (c.proc 0).chiamata = .nessuna ∧ (c.proc 0).fase = .sezione

variable {c c' : Tubo} {svegliati : List Nat} {p : Processo}

theorem svegliato_fase : p.svegliato.fase ≠ .dorme false := by
  rw [Processo.svegliato]
  split
  · simp
  · next awake => exact awake false

theorem sveglia_dorme (asleep : ((c.sveglia svegliati).proc q).fase = .dorme false) :
    q ∉ svegliati ∧ (c.sveglia svegliati).proc q = c.proc q := by
  by_cases woken : q ∈ svegliati
  · have isProc : (c.sveglia svegliati).proc q = (c.proc q).svegliato := if_pos woken
    rw [isProc] at asleep
    exact absurd asleep svegliato_fase
  · exact ⟨woken, if_neg woken⟩

theorem svegliato_sezione (awake : p.fase = .sezione) : p.svegliato = p := by
  rw [Processo.svegliato, awake]

variable {p' : Pipe} {pid : Nat} {esito : Esito} {memoria scaduto : Bool} {nonblocca : Bool}

theorem messi_errore {chiamata : Chiamata} {e : Errno} : chiamata.messi (.errore e) = [] := by
  cases chiamata <;> rfl

theorem flusso_libera {p : Pipe} (used : p'.usata = p.usata) (same : p'.contenuto = p.contenuto)
    (flusso : p.usata = true → letti ++ p.contenuto = scritti) :
    p'.liberaSeOrfana.usata = true → letti ++ p'.liberaSeOrfana.contenuto = scritti := by
  rw [liberaSeOrfana]
  split
  · exact fun stillUsed => by simp at stillUsed
  · rw [used, same]
    exact flusso

section

variable (sano : c.Sano) {io : Processo}

include sano

/-- A step that wakes `svegliati`: whoever sleeps after it slept before and was
not woken, or has just gone to sleep. -/
theorem Sano.passa (mossa : Mossa c.pipe c'.pipe svegliati)
    (flusso : c'.pipe.usata = true → c'.letti ++ c'.pipe.contenuto = c'.scritti)
    (sleeps : ∀ q, q ≠ 0 → (c'.proc q).fase = .dorme false → q ∉ svegliati ∧ c'.proc q = c.proc q ∨
        ((c'.proc q).chiamata.chiede = true →
          ∃ lato, (c'.proc q).chiamata.lato = some lato ∧ c'.pipe.Attende lato q))
    (zero : (c'.proc 0).chiamata = .nessuna ∧ (c'.proc 0).fase = .sezione) :
    c'.Sano where
  pipe := mossa.sana
  flusso := flusso
  dorme := by
    intro q asleep asks
    have real : q ≠ 0 := by
      intro isZero
      rw [isZero, zero.2] at asleep
      simp at asleep
    rcases sleeps q real asleep with ⟨unwoken, same⟩ | new
    · rw [same] at asleep asks ⊢
      obtain ⟨lato, side, waits⟩ := sano.dorme q asleep asks
      exact ⟨lato, side, mossa.aspettano lato q real unwoken waits⟩
    · exact new asks
  zero := zero

variable (real : pid = 0 → io.chiamata = .nessuna ∧ io.fase = .sezione)

include real

theorem Sano.aggiorna (mossa : Mossa c.pipe p' svegliati)
    (flusso : p'.usata = true → letti ++ p'.contenuto = scritti)
    (sleeps : io.fase = .dorme false → io.chiamata.chiede = true →
      ∃ lato, io.chiamata.lato = some lato ∧ p'.Attende lato pid) :
    (Tubo.sveglia { pipe := p', proc := update c.proc pid io, letti := letti, scritti := scritti }
      svegliati).Sano := by
  have fst : (update c.proc pid io 0).chiamata = .nessuna ∧
      (update c.proc pid io 0).fase = .sezione := by
    by_cases zero : pid = 0
    · rw [zero]
      exact real zero
    · rw [update_of_ne (Ne.symm zero)]
      exact sano.zero
  apply sano.passa mossa flusso
  · intro q _ asleep
    obtain ⟨unwoken, isProc⟩ := sveglia_dorme asleep
    rw [isProc] at asleep ⊢
    dsimp only at asleep ⊢
    by_cases mine : q = pid
    · have isIo : update c.proc pid io q = io := by rw [mine, update_self]
      rw [isIo] at asleep ⊢
      rw [mine]
      exact .inr (sleeps asleep)
    · rw [update_of_ne mine]
      exact .inl ⟨unwoken, rfl⟩
  · show (if 0 ∈ svegliati then _ else _ : Processo).chiamata = _ ∧
      (if 0 ∈ svegliati then _ else _ : Processo).fase = _
    rw [svegliato_sezione fst.2, ite_self]
    exact fst

theorem Sano.conProc (sleeps : io.fase = .dorme false → io.chiamata.chiede = true →
      ∃ lato, io.chiamata.lato = some lato ∧ c.pipe.Attende lato pid) :
    (c.conProc pid io).Sano := by
  exact sano.aggiorna real (Mossa.ferma sano.pipe) sano.flusso sleeps

omit real

theorem Sano.dopo (real : pid ≠ 0) (sezione : Sezione c.pipe pid (c.proc pid).chiamata r) :
    (c.dopo pid r).1.Sano := by
  obtain ⟨p', svegliati, esito⟩ := r
  have flusso : p'.usata = true → c.letti ++ esito.presi ++ p'.contenuto =
      c.scritti ++ (c.proc pid).chiamata.messi esito := by
    intro used
    rw [append_assoc, sezione.flusso, ← append_assoc, sano.flusso (sezione.usata.symm.trans used)]
  have silent : ∀ {chiamata : Chiamata}, (∀ n, esito ≠ .scritti n) → chiamata.messi esito = [] := by
    intro chiamata other
    cases chiamata <;> cases esito <;> simp_all [Chiamata.messi]
  have nz : ∀ {io : Processo}, pid = 0 → io.chiamata = .nessuna ∧ io.fase = .sezione :=
    fun zero => absurd zero real
  have returns : (({ c with pipe := p' }.ritorna pid esito).sveglia svegliati).Sano :=
    sano.aggiorna nz sezione.mossa flusso fun asleep => by simp [Processo.libero] at asleep
  cases esito with
  | dorme aTempo =>
    simp only [silent (by simp), Esito.presi, append_nil] at flusso
    apply sano.aggiorna nz sezione.mossa flusso
    intro asleep
    have isFase : Fase.dorme aTempo = .dorme false := asleep
    injection isFase with isFalse
    exact sezione.dorme (congrArg Esito.dorme isFalse)
  | cresce =>
    simp only [silent (by simp), Esito.presi, append_nil] at flusso
    exact sano.aggiorna nz sezione.mossa flusso fun asleep => by simp at asleep
  | _ => exact returns

theorem Sano.ritorna (pid : Nat) (takes : esito.presi = [])
    (puts : (c.proc pid).chiamata.messi esito = []) : (c.ritorna pid esito).Sano := by
  apply sano.aggiorna (fun _ => ⟨rfl, rfl⟩) (Mossa.ferma sano.pipe)
  · rw [takes, puts, append_nil, append_nil]
    exact sano.flusso
  · exact fun asleep => by simp [Processo.libero] at asleep

theorem Sano.conAtt (awake : (c.proc pid).fase ≠ .dorme false) (sane : a.Sane)
    (kept : ∀ q, q ≠ 0 → q ≠ pid → (c.pipe.att lato).cE q = true → a.cE q = true) :
    { c with pipe := c.pipe.conAtt lato a }.Sano := by
  have mossa : Mossa c.pipe (c.pipe.conAtt lato a) [pid] :=
    sano.pipe.conAtt sane fun q nz other there =>
      kept q nz (fun same => other (mem_singleton.mpr same)) there
  apply sano.passa mossa
  · rw [usata_conAtt, contenuto_conAtt]
    exact sano.flusso
  · intro q _ asleep
    refine .inl ⟨?_, rfl⟩
    intro mem
    rw [mem_singleton] at mem
    exact awake (mem ▸ asleep)
  · exact sano.zero

theorem Sano.avanza (pid : Nat) (memoria scaduto : Bool) :
    (c.avanza pid memoria scaduto).1.Sano := by
  by_cases zero : pid = 0
  · rw [zero, Tubo.avanza, sano.zero.1, sano.zero.2]
    exact sano
  have real : pid ≠ 0 := zero
  rw [Tubo.avanza]
  cases isFase : (c.proc pid).fase with
  | dorme aTempo => exact sano
  | sezione =>
    cases isChiamata : (c.proc pid).chiamata with
    | nessuna => exact sano
    | leggi n nonblocca =>
      dsimp only
      split
      · exact sano.ritorna pid rfl (by rw [isChiamata]; rfl)
      · exact sano.dopo real (isChiamata ▸ sano.pipe.leggi real n (min n pipeTranche) nonblocca)
    | scrivi dati nonblocca =>
      dsimp only
      split
      · exact sano.ritorna pid rfl (by rw [isChiamata]; rfl)
      · exact sano.dopo real (isChiamata ▸ sano.pipe.scrivi real dati nonblocca)
    | poll lato chiesto =>
      exact sano.dopo real (isChiamata ▸ sano.pipe.poll lato chiesto real scaduto)
  | sveglio =>
    have awake : (c.proc pid).fase ≠ .dorme false := by rw [isFase]; simp
    have goesOn : ∀ {d : Tubo}, d.Sano → d.proc = c.proc → (if (c.proc pid).interrotto = true then
          (d.ritorna pid (.errore .eintr), some (Esito.errore .eintr))
        else (d.conFase pid .sezione, none)).1.Sano := by
      intro d good same
      split
      · exact good.ritorna pid rfl messi_errore
      apply good.conProc
      · intro zero
        rw [zero]
        exact ⟨good.zero.1, rfl⟩
      · exact fun asleep => by simp at asleep
    cases isChiamata : (c.proc pid).chiamata with
    | poll lato chiesto =>
      obtain ⟨sane, members⟩ := (sano.pipe.attese lato).togli pid
      apply goesOn (sano.conAtt awake sane _) rfl
      exact fun q nz other there => members q nz ⟨other, there⟩
    | nessuna | leggi n nonblocca | scrivi dati nonblocca => exact goesOn sano rfl
  | misura =>
    cases isLato : (c.proc pid).chiamata.lato with
    | none => exact sano
    | some lato =>
      apply sano.conProc (fun zero => absurd zero real)
      exact fun asleep => by simp at asleep
  | alloca posti =>
    cases isLato : (c.proc pid).chiamata.lato with
    | none => exact sano
    | some lato =>
      dsimp only
      split
      · have awake : (c.proc pid).fase ≠ .dorme false := by rw [isFase]; simp
        have grown := sano.conAtt awake ((sano.pipe.attese lato).cresci posti)
          fun q _ _ there => (cE_cresci _ posti q).trans there
        apply grown.conProc (fun zero => absurd zero real)
        exact fun asleep => by simp at asleep
      · exact sano.ritorna pid rfl messi_errore

theorem Sano.conPipe (mossa : Mossa c.pipe p' svegliati)
    (flusso : p'.usata = true → c.letti ++ p'.contenuto = c.scritti) :
    ({ c with pipe := p' }.sveglia svegliati).Sano := by
  have same : update c.proc 0 (c.proc 0) = c.proc := update_eq_self 0 c.proc
  have awake : (c.proc 0).fase ≠ .dorme false := by
    rw [sano.zero.2]
    simp
  have changed := sano.aggiorna (fun _ : 0 = 0 => sano.zero) mossa flusso
    fun asleep => absurd asleep awake
  rw [same] at changed
  exact changed

theorem Sano.sveglia (svegliati : List Nat) : (c.sveglia svegliati).Sano :=
  sano.conPipe ⟨sano.pipe, fun _ _ _ _ waits => waits⟩ sano.flusso

theorem Sano.conPipe_nil (mossa : Mossa c.pipe p' [])
    (flusso : p'.usata = true → c.letti ++ p'.contenuto = c.scritti) :
    { c with pipe := p' }.Sano := by
  exact sano.conPipe mossa flusso

theorem Sano.flusso_chiudiLettore : c.pipe.chiudiLettore.1.usata = true →
      c.letti ++ c.pipe.chiudiLettore.1.contenuto = c.scritti := by
  rw [chiudiLettore]
  split
  · dsimp only
    split
    · exact flusso_libera rfl rfl sano.flusso
    · exact flusso_libera rfl rfl sano.flusso
  · exact sano.flusso

theorem Sano.flusso_chiudiScrittore : c.pipe.chiudiScrittore.1.usata = true →
      c.letti ++ c.pipe.chiudiScrittore.1.contenuto = c.scritti := by
  rw [chiudiScrittore]
  split
  · dsimp only
    split
    · exact flusso_libera rfl rfl sano.flusso
    · exact flusso_libera rfl rfl sano.flusso
  · exact sano.flusso

theorem Sano.crea (unused : c.pipe.usata = false) :
    { c with pipe := c.pipe.crea, letti := [], scritti := [] }.Sano where
  pipe := ⟨nessuno_sane, nessuno_sane, Nat.zero_le _⟩
  flusso := fun _ => ring_zero pipeDim c.pipe.buf 0
  dorme := by
    intro q asleep asks
    obtain ⟨_, _, used, _⟩ := sano.dorme q asleep asks
    rw [unused] at used
    exact absurd used (by simp)
  zero := sano.zero

theorem Sano.passo (evento : EventoPipe) : (c.passo evento).Sano := by
  cases evento with
  | chiama pid chiamata =>
    rw [Tubo.passo]
    split
    · split
      · exact sano
      · next nz =>
        apply sano.conProc (fun zero => absurd zero nz)
        exact fun asleep => by simp at asleep
    · exact sano
  | avanza pid memoria scaduto => exact sano.avanza pid memoria scaduto
  | sveglia pid => exact sano.sveglia [pid]
  | interrompi pid =>
    apply Sano.sveglia
    apply sano.conProc
    · intro zero
      rw [zero]
      exact sano.zero
    · exact sano.dorme pid
  | ripristina pid =>
    apply sano.conProc
    · intro zero
      rw [zero]
      exact sano.zero
    · exact sano.dorme pid
  | muore pid =>
    apply sano.conProc (fun _ => ⟨rfl, rfl⟩)
    exact fun asleep => by simp [Processo.libero] at asleep
  | crea =>
    rw [Tubo.passo]
    split
    · exact sano
    · next unused => exact sano.crea (by simpa using unused)
  | apriLettore =>
    apply sano.conPipe_nil sano.pipe.apriLettore
    rw [apriLettore]
    split <;> exact sano.flusso
  | apriScrittore =>
    apply sano.conPipe_nil sano.pipe.apriScrittore
    rw [apriScrittore]
    split <;> exact sano.flusso
  | chiudiLettore => exact sano.conPipe sano.pipe.chiudiLettore sano.flusso_chiudiLettore
  | chiudiScrittore => exact sano.conPipe sano.pipe.chiudiScrittore sano.flusso_chiudiScrittore

end

theorem Iniziale.sano (start : c.Iniziale) : c.Sano := by
  obtain ⟨unused, empty, noReaders, noWriters, free⟩ := start
  refine ⟨⟨?_, ?_, ?_⟩, ?_, ?_, free 0⟩
  · rw [noReaders]
    exact nessuno_sane
  · rw [noWriters]
    exact nessuno_sane
  · rw [empty]
    exact Nat.zero_le _
  · exact fun used => absurd (unused ▸ used) (by simp)
  · intro q asleep
    rw [(free q).2] at asleep
    exact absurd asleep (by simp)

def Corsa : Tubo → Prop := Reached Iniziale fun c evento c' => c' = c.passo evento

theorem Corsa.sano (corsa : Corsa c) : c.Sano := Reached.invariant Sano (fun _ => Iniziale.sano)
    (fun pre evento after good taken => by rw [taken]; exact good.passo evento) corsa

theorem dopo_esito (ret : (c.dopo pid r).2 = some esito) : r.2.2 = esito := by
  obtain ⟨p', svegliati, res⟩ := r
  cases res <;> simp_all [Tubo.dopo]

theorem avanza_esito
    (ret : (c.avanza pid memoria scaduto).2 = some esito) (noIntr : esito ≠ .errore .eintr)
    (noMem : esito ≠ .errore .enomem) : (c.proc pid).fase = .sezione := by
  rw [avanza] at ret
  cases isFase : (c.proc pid).fase with
  | sezione => rfl
  | dorme aTempo => simp [isFase] at ret
  | sveglio =>
    simp only [isFase] at ret
    split at ret
    · exact absurd (Option.some.inj ret).symm noIntr
    · simp at ret
  | misura =>
    simp only [isFase] at ret
    split at ret <;> simp at ret
  | alloca posti =>
    simp only [isFase] at ret
    split at ret
    · simp at ret
    · split at ret
      · simp at ret
      · exact absurd (Option.some.inj ret).symm noMem

theorem leggi_fine (reads : (c.proc pid).chiamata = .leggi n nonblocca) (ne : n ≠ 0)
    (ended : (c.avanza pid memoria scaduto).2 = some (.letti [])) :
    c.pipe.quanti = 0 ∧ c.pipe.scrittori = 0 := by
  have isFase := avanza_esito ended (by simp) (by simp)
  rw [avanza] at ended
  simp only [isFase, reads, if_neg ne] at ended
  apply Pipe.leggi_fine _ (dopo_esito ended)
  rw [pipeTranche]
  omega

theorem scrivi_epipe {dati : List UInt8} (writes : (c.proc pid).chiamata = .scrivi dati nonblocca)
    (refused : (c.avanza pid memoria scaduto).2 = some (.errore .epipe)) :
    c.pipe.lettori = 0 := by
  have isFase := avanza_esito refused (by simp) (by simp)
  rw [avanza] at refused
  simp only [isFase, writes] at refused
  split at refused
  · simp at refused
  · exact Pipe.scrivi_epipe (dopo_esito refused)

theorem Corsa.esegui (corsa : Corsa c) (eventi : List EventoPipe) :
    Corsa (eventi.foldl Tubo.passo c) := by
  induction eventi generalizing c with
  | nil => exact corsa
  | cons evento eventi ih =>
    exact ih (corsa.next rfl)

/-- A pipe of the table and processes that do not use it. -/
def riposo : Tubo where
  pipe :=
    { usata := false, testa := 0, quanti := 0, lettori := 0, scrittori := 0,
      attLettori := vuote, attScrittori := vuote, buf := fun _ => 0 }
  proc := fun _ => { chiamata := .nessuna, fase := .sezione, interrotto := false }
  letti := []
  scritti := []

theorem riposo_iniziale : riposo.Iniziale := ⟨rfl, rfl, rfl, rfl, fun _ => ⟨rfl, rfl⟩⟩

/-- In every run the bytes read and those in the ring are the bytes written; a
read of nothing has found an empty ring and no writer, and a broken pipe has no
reader. -/
theorem corsa_flusso (corsa : Corsa c) :
    (c.pipe.usata = true → c.letti ++ c.pipe.contenuto = c.scritti) ∧
      (∀ pid n nonblocca memoria scaduto, (c.proc pid).chiamata = .leggi n nonblocca →
        n ≠ 0 → (c.avanza pid memoria scaduto).2 = some (.letti []) →
          c.pipe.quanti = 0 ∧ c.pipe.scrittori = 0) ∧
      ∀ pid dati nonblocca memoria scaduto, (c.proc pid).chiamata = .scrivi dati nonblocca →
        (c.avanza pid memoria scaduto).2 = some (.errore .epipe) → c.pipe.lettori = 0 := by
  refine ⟨corsa.sano.flusso, ?_, ?_⟩
  · intro pid n nonblocca memoria scaduto reads ne ended
    exact leggi_fine reads ne ended
  · intro pid dati nonblocca memoria scaduto writes refused
    exact scrivi_epipe writes refused

/-- A reader that sleeps on the empty pipe, and the write that wakes it. -/
def lettoreSvegliato : Tubo :=
  [.crea, .chiama 2 (.leggi 1 false), .avanza 2 true false, .chiama 1 (.scrivi [65, 66] false),
    .avanza 1 true false, .avanza 2 true false, .avanza 2 true false].foldl Tubo.passo riposo

theorem corsa_flusso_lettoreSvegliato :
    lettoreSvegliato.letti = [65] ∧ lettoreSvegliato.scritti = [65, 66] ∧
      lettoreSvegliato.letti ++ lettoreSvegliato.pipe.contenuto = lettoreSvegliato.scritti :=
  ⟨by decide +kernel, by decide +kernel,
    (corsa_flusso (Corsa.esegui (Reached.start riposo_iniziale) _)).1 (by decide +kernel)⟩

end Tubo

end ExOs.Ipc
