import ExOs.Library.Runs
import ExOs.Ipc.PtyAttese

/-!
# Runs of a pseudo-terminal

A wake-up may be owed by a process inside `pty_chiudi`.  `Ammesso` leaves out
the steps of the source that end a wait without a wake-up.
-/

namespace ExOs.Ipc

open ExOs.Library List

namespace Terminale

open Pty

/-- A process has taken an end off the counters and is about to wake everyone. -/
def Dovuto (c : Terminale) : Prop := ∃ q, (c.proc q).fase = .chiude

def Nessuno (c : Terminale) (lato : LatoPty) : Prop :=
  ∀ q a, (c.proc q).fase = .dorme → (c.proc q).chiamata.attesa = some a → a.lato ≠ lato

structure Sano (c : Terminale) : Prop where
  pty : c.pty.Sana
  dorme : ∀ q, (c.proc q).fase = .dorme →
    ∃ a, (c.proc q).chiamata.attesa = some a ∧ c.pty.Registrato a.lato q ∧
      (c.pty.pronta a = false ∨ c.Dovuto)
  zero : (c.proc 0).chiamata = .nessuna ∧ (c.proc 0).fase = .sezione

variable {c c' : Terminale} {svegliati : List Nat} {salvi : List LatoPty}
  {ammesso : Terminale → EventoPty → Prop} {p : ProcessoPty}

theorem svegliato_dorme : p.svegliato.fase ≠ .dorme := by
  rw [ProcessoPty.svegliato]
  split
  · simp
  · simp
  · next awake _ => exact awake

theorem svegliato_chiude (closing : p.fase = .chiude) : p.svegliato.fase = .chiude := by
  rw [ProcessoPty.svegliato, closing]
  exact closing

theorem svegliato_sezione (awake : p.fase = .sezione) : p.svegliato = p := by
  rw [ProcessoPty.svegliato, awake]

variable {pid : Nat} {chiamata : ChiamataPty} {memoria scaduto : Bool} {u : Turno}

/-- `pid` is alone on the pair. -/
def Solo (c : Terminale) (pid : Nat) : Prop := ∀ q, q ≠ pid → (c.proc q).chiamata = .nessuna

/-- A step that ends no wait without a wake-up. -/
def Ammesso (c : Terminale) : EventoPty → Prop
  | .avanza pid _ _ =>
    match (c.proc pid).fase with
    | .sezione =>
      (∃ n l, (c.proc pid).chiamata = .leggiSlave n l) → c.pty.fineDati = true → c.Nessuno .ingresso
    | .chiuso => c.pty.masterAperti = 0 → c.pty.slaveAperti = 0 → c.Solo pid
    | .apre => c.Solo pid
    | _ => True
  | .scriviMaster _ => c.pty.fineDati = true → c.Nessuno .ingresso
  | .ioctl richiesta => ∀ lato, richiesta.tace c.pty lato → c.Nessuno lato
  | .ctl (.modo arg) =>
    c.pty.t.icanon = false → (c.pty.t.modo arg).icanon = true → c.Nessuno .ingresso
  | .muore pid => (c.proc pid).fase ≠ .chiude
  | _ => True

@[simp] theorem conProc_self : (c.conProc pid io).proc pid = io := by
  simp [conProc]

theorem conProc_other (c : Terminale) {q : Nat} (other : q ≠ pid) (io : ProcessoPty) :
    (c.conProc pid io).proc q = c.proc q := by
  simp [conProc, other]

theorem annota_pty {r : Ritorno} :
    (c.annota chiamata r).pty = c.pty ∧ (c.annota chiamata r).proc = c.proc := by
  cases chiamata <;> cases r <;> exact ⟨rfl, rfl⟩

theorem dopo_pty (c : Terminale) (pid : Nat) (u : Turno) : (c.dopo pid u).pty = u.pty := by
  rw [dopo]
  split
  · exact annota_pty.1
  · rfl

theorem dopo_proc {q : Nat} : (c.dopo pid u).proc q = if q = pid then u.processo (c.proc pid)
      else if q ∈ u.svegliati then (c.proc q).svegliato else c.proc q := by
  have isProc : (c.dopo pid u).proc = Function.update
        (fun q => if q ∈ u.svegliati then (c.proc q).svegliato else c.proc q) pid
        (u.processo (c.proc pid)) := by
    rw [dopo]
    split
    · exact annota_pty.2
    · rfl
  rw [isProc, Function.update_apply]

theorem processo_dorme {io : ProcessoPty} (asleep : (u.processo io).fase = .dorme) :
    u.esito = .dorme ∧ (u.processo io).chiamata = u.chiamata := by
  rw [Turno.processo] at asleep ⊢
  split at asleep <;> simp_all [ProcessoPty.libero]

theorem disregistra_proc : (c.disregistra pid).proc = c.proc := by
  rw [disregistra]
  split <;> rfl

theorem avvia_proc : ∃ io : ProcessoPty, io.fase = .sezione ∧ (c.avvia pid chiamata).pty = c.pty ∧
      (c.avvia pid chiamata).proc = (c.conProc pid io).proc := by
  cases chiamata <;> exact ⟨_, rfl, rfl, rfl⟩

theorem salvi_di (tace : LatoPty → Prop) (quiet : ∀ lato, tace lato → c.Nessuno lato) :
    ∃ salvi : List LatoPty, (∀ lato, tace lato → lato ∈ salvi) ∧
      ∀ lato ∈ salvi, c.Nessuno lato := by
  classical
  refine ⟨[.ingresso, .uscita, .spazio].filter fun lato => tace lato, ?_, ?_⟩
  · intro lato quietSide
    rw [mem_filter]
    exact ⟨by cases lato <;> simp, by simpa using quietSide⟩
  · intro lato mem
    rw [mem_filter] at mem
    exact quiet lato (by simpa using mem.2)

section

variable (sano : c.Sano)

include sano

theorem Sano.passa (mossa : Mossa c.pty c'.pty svegliati salvi)
    (quiet : (∀ lato ∈ salvi, c.Nessuno lato) ∨ c'.Dovuto)
    (due : c.Dovuto → c'.Dovuto ∨ ∀ lato, (c.pty.att lato).pid ⊆ svegliati)
    (sleeps : ∀ q, q ≠ 0 → (c'.proc q).fase = .dorme →
      q ∉ svegliati ∧ (c.proc q).fase = .dorme ∧ (c'.proc q).chiamata = (c.proc q).chiamata ∨
        ∃ a, (c'.proc q).chiamata.attesa = some a ∧ c'.pty.Registrato a.lato q ∧
          (c'.pty.pronta a = false ∨ c'.Dovuto))
    (zero : (c'.proc 0).chiamata = .nessuna ∧ (c'.proc 0).fase = .sezione) :
    c'.Sano where
  pty := mossa.sana
  dorme := by
    intro q asleep
    have real : q ≠ 0 := by
      intro isZero
      rw [isZero, zero.2] at asleep
      simp at asleep
    rcases sleeps q real asleep with ⟨unwoken, slept, sameCall⟩ | new
    · obtain ⟨a, isAttesa, there, waits⟩ := sano.dorme q slept
      refine ⟨a, by rw [sameCall]; exact isAttesa, mossa.registrati a.lato q real unwoken there, ?_⟩
      rcases waits with pre | owed
      · rcases quiet with nobody | owedNow
        · refine .inl (mossa.aspettano a q ?_ real unwoken there pre)
          exact fun mem => nobody a.lato mem q a slept isAttesa rfl
        · exact .inr owedNow
      · rcases due owed with owedNow | all
        · exact .inr owedNow
        · exact absurd (all a.lato (Attese.mem_pid real there.2)) unwoken
    · exact new
  zero := zero

theorem Sano.aggiorna (mossa : Mossa c.pty c'.pty svegliati salvi)
    (others : ∀ q, q ≠ pid → c'.proc q = if q ∈ svegliati then (c.proc q).svegliato else c.proc q)
    (quiet : (∀ lato ∈ salvi, c.Nessuno lato) ∨ c'.Dovuto) (due : (c.proc pid).fase = .chiude →
      (c'.proc pid).fase = .chiude ∨ ∀ lato, (c.pty.att lato).pid ⊆ svegliati)
    (sleeps : (c'.proc pid).fase = .dorme →
      ∃ a, (c'.proc pid).chiamata.attesa = some a ∧ c'.pty.Registrato a.lato pid ∧
        (c'.pty.pronta a = false ∨ c'.Dovuto))
    (zero : pid = 0 → (c'.proc pid).chiamata = .nessuna ∧ (c'.proc pid).fase = .sezione) :
    c'.Sano := by
  apply sano.passa mossa quiet
  · rintro ⟨q, closing⟩
    by_cases mine : q = pid
    · rw [mine] at closing
      exact (due closing).imp_left fun still => ⟨pid, still⟩
    refine .inl ⟨q, ?_⟩
    rw [others q mine]
    split
    · exact svegliato_chiude closing
    · exact closing
  · intro q _ asleep
    by_cases mine : q = pid
    · rw [mine] at asleep ⊢
      exact .inr (sleeps asleep)
    rw [others q mine] at asleep ⊢
    by_cases woken : q ∈ svegliati
    · rw [if_pos woken] at asleep
      exact absurd asleep svegliato_dorme
    · rw [if_neg woken] at asleep ⊢
      exact .inl ⟨woken, asleep, rfl⟩
  · by_cases mine : pid = 0
    · rw [← mine]
      exact zero mine
    · rw [others 0 (Ne.symm mine), svegliato_sezione sano.zero.2, ite_self]
      exact sano.zero

theorem Sano.conProc {io : ProcessoPty} (closing : (c.proc pid).fase = .chiude → io.fase = .chiude)
    (sleeps : io.fase = .dorme → ∃ a, io.chiamata.attesa = some a ∧ c.pty.Registrato a.lato pid ∧
        (c.pty.pronta a = false ∨ (c.conProc pid io).Dovuto))
    (zero : pid = 0 → io.chiamata = .nessuna ∧ io.fase = .sezione) :
    (c.conProc pid io).Sano := by
  have still : Mossa c.pty (c.conProc pid io).pty [] [] := Mossa.ferma sano.pty
  apply sano.aggiorna still
  · intro q other
    exact conProc_other c other io
  · exact .inl fun _ mem => absurd mem not_mem_nil
  · intro pre
    rw [conProc_self]
    exact .inl (closing pre)
  · rw [conProc_self]
    exact sleeps
  · rw [conProc_self]
    exact zero

theorem Sano.libera (notClosing : (c.proc pid).fase ≠ .chiude) : (c.libera pid).Sano :=
  sano.conProc (fun closing => absurd closing notClosing)
    (fun asleep => by simp [ProcessoPty.libero] at asleep) fun _ => ⟨rfl, rfl⟩

theorem Sano.conPty {p' : Pty} (mossa : Mossa c.pty p' svegliati salvi)
    (quiet : ∀ lato ∈ salvi, c.Nessuno lato) (isPty : c'.pty = p')
    (isProc : ∀ q, c'.proc q = if q ∈ svegliati then (c.proc q).svegliato else c.proc q) :
    c'.Sano := by
  have fst : c'.proc 0 = c.proc 0 := by rw [isProc, svegliato_sezione sano.zero.2, ite_self]
  have moved : Mossa c.pty c'.pty svegliati salvi := isPty ▸ mossa
  apply sano.aggiorna moved (fun q (_ : q ≠ 0) => isProc q) (.inl quiet)
  · intro closing
    rw [sano.zero.2] at closing
    simp at closing
  · intro asleep
    rw [fst, sano.zero.2] at asleep
    simp at asleep
  · rw [fst]
    exact fun _ => sano.zero

theorem Sano.conAtt (awake : (c.proc pid).fase ≠ .dorme)
    {lato : LatoPty} {a : Attese} (sane : a.Sane)
    (kept : ∀ q, q ≠ 0 → q ≠ pid → (c.pty.att lato).cE q = true → a.cE q = true) :
    { c with pty := c.pty.conAtt lato a }.Sano := by
  have mossa : Mossa c.pty (c.pty.conAtt lato a) [pid] [] :=
    sano.pty.conAtt sane fun q nz other there =>
      kept q nz (fun same => other (mem_singleton.mpr same)) there
  have moved : Mossa c.pty { c with pty := c.pty.conAtt lato a }.pty [pid] [] := mossa
  apply sano.passa moved (.inl fun _ member => absurd member not_mem_nil)
  · exact .inl
  · intro q _ asleep
    refine .inl ⟨?_, asleep, rfl⟩
    intro mem
    rw [mem_singleton] at mem
    exact awake (mem ▸ asleep)
  · exact sano.zero

theorem Sano.disregistra (awake : (c.proc pid).fase ≠ .dorme) : (c.disregistra pid).Sano := by
  rw [Terminale.disregistra]
  split
  · next master _ =>
    obtain ⟨sane, members⟩ := (sano.pty (if master then LatoPty.uscita else .ingresso)).togli pid
    apply sano.conAtt awake sane
    exact fun q notNull other there => members q notNull ⟨other, there⟩
  · exact sano

theorem Sano.interrompi (interrotti : List Nat) : (c.interrompi interrotti).Sano := by
  have isProc : ∀ q, (c.interrompi interrotti).proc q =
      if q ∈ interrotti then { (c.proc q).svegliato with interrotto := true } else c.proc q :=
    fun _ => rfl
  have still : Mossa c.pty (c.interrompi interrotti).pty [] [] := Mossa.ferma sano.pty
  apply sano.passa still (.inl fun _ mem => absurd mem not_mem_nil)
  · rintro ⟨q, closing⟩
    refine .inl ⟨q, ?_⟩
    rw [isProc]
    split
    · exact svegliato_chiude closing
    · exact closing
  · intro q _ asleep
    rw [isProc] at asleep ⊢
    split at asleep
    · exact absurd asleep svegliato_dorme
    · next untouched =>
      rw [if_neg untouched]
      exact .inl ⟨not_mem_nil, asleep, rfl⟩
  · rw [isProc, svegliato_sezione sano.zero.2]
    split <;> exact sano.zero

theorem Sano.effetto {e : Effetto}
    (mossa : Mossa c.pty e.pty e.svegliati salvi) (quiet : ∀ lato ∈ salvi, c.Nessuno lato) :
    (c.effetto e).Sano := by
  have woken : ({ c with pty := e.pty }.sveglia e.svegliati).Sano :=
    sano.conPty mossa quiet rfl fun _ => rfl
  exact woken.interrompi e.interrotti

theorem Sano.stesso (isPty : c'.pty = c.pty) (isProc : c'.proc = c.proc) : c'.Sano := by
  obtain ⟨sana, asleep, zero⟩ := sano
  refine ⟨isPty ▸ sana, ?_, isProc ▸ zero⟩
  intro q sleeps
  rw [isProc] at sleeps ⊢
  obtain ⟨a, isAttesa, there, waits⟩ := asleep q sleeps
  rw [isPty, Dovuto, isProc]
  exact ⟨a, isAttesa, there, waits⟩

section

variable (real : pid ≠ 0) {io : ProcessoPty} {fase : FasePty}

include real

theorem Sano.conFase (notClosing : (c.proc pid).fase ≠ .chiude) (awake : fase ≠ .dorme) :
    (c.conFase pid fase).Sano :=
  sano.conProc (fun closing => absurd closing notClosing) (fun asleep => absurd asleep awake)
    fun zero => absurd zero real

/-! ## Steps of a call -/

theorem Sano.dopo (notClosing : (c.proc pid).fase ≠ .chiude)
    (mossa : Mossa c.pty u.pty u.svegliati salvi) (quiet : ∀ lato ∈ salvi, c.Nessuno lato)
    (sleeps : Pty.Dorme u pid) : (c.dopo pid u).Sano := by
  have moved : Mossa c.pty (c.dopo pid u).pty u.svegliati salvi := by
    rw [dopo_pty]
    exact mossa
  apply sano.aggiorna moved
  · intro q other
    rw [dopo_proc, if_neg other]
  · exact .inl quiet
  · exact fun closing => absurd closing notClosing
  · rw [dopo_proc, if_pos rfl]
    intro asleep
    obtain ⟨isDorme, isChiamata⟩ := processo_dorme asleep
    obtain ⟨a, isAttesa, there, waits⟩ := sleeps isDorme
    rw [isChiamata, dopo_pty]
    exact ⟨a, isAttesa, there, .inl waits⟩
  · exact fun zero => absurd zero real

theorem Sano.turno (isFase : (c.proc pid).fase = .sezione) (scaduto : Bool) (chiamata : ChiamataPty)
    (quiet : (∃ n l, chiamata = .leggiSlave n l) → c.pty.fineDati = true → c.Nessuno .ingresso) :
    (c.dopo pid (c.pty.turno pid c.ticks scaduto chiamata)).Sano := by
  have notClosing : (c.proc pid).fase ≠ .chiude := by
    rw [isFase]
    simp
  have turns : ∀ salvi : List LatoPty, (∀ lato ∈ salvi, c.Nessuno lato) →
      ((∃ n l, chiamata = .leggiSlave n l) → c.pty.fineDati = true → .ingresso ∈ salvi) →
      (c.dopo pid (c.pty.turno pid c.ticks scaduto chiamata)).Sano := by
    intro salvi nobody covers
    obtain ⟨mossa, sleeps⟩ := sano.pty.turno real c.ticks scaduto chiamata covers
    exact sano.dopo real notClosing mossa nobody sleeps
  by_cases reads : (∃ n l, chiamata = .leggiSlave n l) ∧ c.pty.fineDati = true
  · apply turns [.ingresso]
    · intro lato mem
      rw [mem_singleton.mp mem]
      exact quiet reads.1 reads.2
    · exact fun _ _ => mem_singleton_self _
  · apply turns []
    · exact fun _ mem => absurd mem not_mem_nil
    · exact fun reading ended => absurd ⟨reading, ended⟩ reads

theorem Sano.sveglio (awake : ∀ q, q ≠ pid → (c.proc q).fase ≠ .dorme) (sana : c'.pty.Sana)
    (isProc : c'.proc = Function.update c.proc pid io) (isFase : io.fase ≠ .dorme) : c'.Sano where
  pty := sana
  dorme := by
    intro q asleep
    by_cases mine : q = pid
    · rw [isProc, mine, Function.update_self] at asleep
      exact absurd asleep isFase
    · rw [isProc, Function.update_of_ne mine] at asleep
      exact absurd asleep (awake q mine)
  zero := by
    rw [isProc, Function.update_of_ne (Ne.symm real)]
    exact sano.zero

theorem Sano.riapre (unused : c.pty.usata = false)
    (sana : c'.pty.Sana) (isProc : c'.proc = Function.update c.proc pid io)
    (isFase : io.fase ≠ .dorme) : c'.Sano := by
  refine sano.sveglio real (fun q _ asleep => ?_) sana isProc isFase
  obtain ⟨a, _, ⟨used, _⟩, _⟩ := sano.dorme q asleep
  rw [unused] at used
  exact absurd used (by simp)

theorem Sano.solo (alone : c.Solo pid)
    (sana : c'.pty.Sana) (isProc : c'.proc = Function.update c.proc pid io)
    (isFase : io.fase ≠ .dorme) : c'.Sano := by
  refine sano.sveglio real (fun q mine asleep => ?_) sana isProc isFase
  obtain ⟨a, isAttesa, _⟩ := sano.dorme q asleep
  rw [alone q mine] at isAttesa
  simp [ChiamataPty.attesa] at isAttesa

theorem Sano.muove {p' : Pty} (mossa : Mossa c.pty p' svegliati salvi)
    (quiet : (∀ lato ∈ salvi, c.Nessuno lato) ∨ fase = .chiude)
    (due : (c.proc pid).fase = .chiude → ∀ lato, (c.pty.att lato).pid ⊆ svegliati)
    (awake : fase ≠ .dorme) : (({ c with pty := p' }.sveglia svegliati).conFase pid fase).Sano := by
  have isFase : ((({ c with pty := p' }.sveglia svegliati).conFase pid fase).proc pid).fase =
      fase := by
    rw [Terminale.conFase, conProc_self]
  apply sano.aggiorna mossa
  · exact fun q other => conProc_other _ other _
  · exact quiet.imp_right fun closing => ⟨pid, isFase.trans closing⟩
  · exact fun closing => .inr (due closing)
  · exact fun asleep => absurd (isFase.symm.trans asleep) awake
  · exact fun zero => absurd zero real

/-! ## Runs -/

theorem Sano.avvia (free : (c.proc pid).fase = .sezione) (chiamata : ChiamataPty) :
    (c.avvia pid chiamata).Sano := by
  obtain ⟨io, isFase, isPty, isProc⟩ := avvia_proc
  have started : (c.conProc pid io).Sano := by
    apply sano.conProc
    · exact fun closing => by simp [free] at closing
    · exact fun asleep => by simp [isFase] at asleep
    · exact fun zero => absurd zero real
  exact started.stesso isPty isProc

end

theorem Sano.avanza (pid : Nat) (memoria scaduto : Bool)
    (admitted : c.Ammesso (.avanza pid memoria scaduto)) :
    (c.avanza pid memoria scaduto).1.Sano := by
  rw [Ammesso] at admitted
  by_cases zero : pid = 0
  · rw [zero, Terminale.avanza, sano.zero.1, sano.zero.2]
    exact sano
  have real : pid ≠ 0 := zero
  rw [Terminale.avanza]
  cases isFase : (c.proc pid).fase with
  | sezione =>
    rw [isFase] at admitted
    cases isChiamata : (c.proc pid).chiamata with
    | nessuna => exact sano
    | chiudi master =>
      dsimp only
      split
      · exact sano.muove real (sano.pty.lascia master) (.inr rfl)
          (fun closing => by simp [isFase] at closing) (by simp)
      · exact sano.libera (by simp [isFase])
    | apri ptmx =>
      dsimp only
      split
      · exact sano
      rename_i unused
      refine sano.riapre real (by simpa using unused) ?_ rfl (by simp)
      intro lato
      cases lato <;> exact Attese.nessuno_sane
    | leggiMaster n => exact sano.turno real isFase scaduto _ (by simp)
    | leggiSlave n l => exact sano.turno real isFase scaduto _ (isChiamata ▸ admitted)
    | scriviSlave id dati scritti | poll master => exact sano.turno real isFase scaduto _ (by simp)
  | sveglio =>
    have good := sano.disregistra (show (c.proc pid).fase ≠ .dorme by simp [isFase])
    have notClosing : ((c.disregistra pid).proc pid).fase ≠ .chiude := by
      rw [disregistra_proc, isFase]
      simp
    dsimp only
    split
    · exact good.libera notClosing
    · exact good.conFase real notClosing (by simp)
  | misura =>
    dsimp only
    split
    · exact sano
    · exact sano.conFase real (by simp [isFase]) (by simp)
  | alloca posti =>
    dsimp only
    split
    · exact sano
    rename_i side _
    split
    · have grown := sano.conAtt (show (c.proc pid).fase ≠ .dorme by simp [isFase])
        ((sano.pty side).cresci posti) fun q _ _ there => (Attese.cE_cresci _ posti q).trans there
      exact grown.conFase real (show (c.proc pid).fase ≠ .chiude by simp [isFase]) (by simp)
    · exact sano.libera (by simp [isFase])
  | chiude =>
    exact sano.muove real (Mossa.tutti (svegliaTutti_sana c.pty) (svegliaTutti_tutti c.pty))
      (.inl fun _ mem => absurd mem not_mem_nil) (fun _ => svegliaTutti_tutti c.pty)
      (by simp)
  | chiuso =>
    rw [isFase] at admitted
    dsimp only
    rw [azzeraSeOrfana]
    split
    · next orphan =>
      exact sano.solo real (admitted orphan.1 orphan.2) azzera_sana rfl
        (by simp [ProcessoPty.libero])
    · exact sano.libera (by simp [isFase])
  | apre =>
    rw [isFase] at admitted
    dsimp only
    split
    · exact sano.solo real admitted sano.pty.inizia rfl (by simp)
    · exact sano.solo real admitted sano.pty.inizia rfl (by simp [ProcessoPty.libero])
  | ptmx =>
    have isOpen : { c with pty := c.pty.apriPtmx }.Sano :=
      sano.conPty (sano.pty.apriPtmx : Mossa c.pty c.pty.apriPtmx [] [])
        (fun _ mem => absurd mem not_mem_nil) rfl fun _ => rfl
    exact isOpen.libera (show (c.proc pid).fase ≠ .chiude by simp [isFase])
  | _ => exact sano

theorem Sano.ripristina (pid : Nat) :
    (c.conProc pid { c.proc pid with interrotto := false }).Sano := by
  apply sano.conProc
  · exact id
  · intro asleep
    obtain ⟨a, isAttesa, there, waits⟩ := sano.dorme pid asleep
    refine ⟨a, isAttesa, there, waits.imp_right ?_⟩
    rintro ⟨q, closing⟩
    refine ⟨q, ?_⟩
    by_cases mine : q = pid
    · rw [mine, conProc_self]
      exact mine ▸ closing
    · rw [conProc_other c mine]
      exact closing
  · intro zero
    rw [zero]
    exact sano.zero

theorem Sano.passo {evento : EventoPty} (admitted : c.Ammesso evento) : (c.passo evento).Sano := by
  have nobody : ∀ lato ∈ ([] : List LatoPty), c.Nessuno lato := fun _ mem => absurd mem not_mem_nil
  cases evento with
  | chiama pid chiamata =>
    rw [Terminale.passo]
    split
    · next free =>
      split
      · exact sano
      · next nz => exact sano.avvia nz free chiamata
    · exact sano
  | avanza pid memoria scaduto => exact sano.avanza pid memoria scaduto admitted
  | scriviMaster dati =>
    rw [Terminale.passo]
    split
    · obtain ⟨salvi, covers, quiet⟩ := salvi_di
        (fun lato => lato = .ingresso ∧ c.pty.fineDati = true)
        fun lato both => both.1 ▸ admitted both.2
      have mossa := sano.pty.scriviMaster dati fun ended => covers .ingresso ⟨rfl, ended⟩
      exact (sano.effetto mossa quiet).stesso rfl rfl
    · exact sano
  | ioctl richiesta =>
    rw [Terminale.passo]
    split
    · obtain ⟨salvi, covers, quiet⟩ := salvi_di (richiesta.tace c.pty) admitted
      exact sano.effetto (sano.pty.ioctl richiesta covers) quiet
    · exact sano
  | ctl comando =>
    rw [Terminale.passo]
    split
    · obtain ⟨salvi, covers, quiet⟩ := salvi_di (c := c)
        (fun lato => lato = .ingresso ∧ ∃ arg, comando = .modo arg ∧ c.pty.t.icanon = false ∧
          (c.pty.t.modo arg).icanon = true)
        fun lato ⟨isIn, arg, isModo, raw, canonical⟩ => by
          rw [isModo] at admitted
          exact isIn ▸ admitted raw canonical
      refine sano.conPty (sano.pty.ctl comando ?_) quiet rfl fun _ => rfl
      intro arg isModo raw canonical
      exact covers .ingresso ⟨rfl, arg, isModo, raw, canonical⟩
    · exact sano
  | apriSlave =>
    exact sano.conPty sano.pty.apriSlave nobody rfl fun _ => rfl
  | apriRiferimento master =>
    exact sano.conPty (sano.pty.apriRiferimento master) nobody rfl fun _ => rfl
  | chiudiLocked master =>
    exact sano.conPty (sano.pty.chiudiLocked master) nobody rfl fun _ => rfl
  | sveglia pid => exact sano.conPty (Mossa.ferma sano.pty) nobody rfl fun _ => rfl
  | scade pid =>
    rw [Terminale.passo]
    split
    · next resting =>
      have nz : pid ≠ 0 := by
        intro zero
        rw [zero, sano.zero.2] at resting
        simp at resting
      exact sano.conFase nz (by rw [resting]; simp) (by simp)
    · exact sano
  | interrompi pid => exact sano.interrompi [pid]
  | ripristina pid => exact sano.ripristina pid
  | muore pid => exact sano.libera admitted
  | tick => exact sano.stesso rfl rfl

end

theorem Iniziale.sano (start : c.Iniziale) : c.Sano := by
  obtain ⟨_, noIn, noOut, noSpace, free, _⟩ := start
  refine ⟨?_, ?_, free 0⟩
  · intro lato
    cases lato with
    | ingresso =>
      show c.pty.attIn.Sane
      rw [noIn]
      exact Attese.nessuno_sane
    | uscita =>
      show c.pty.attOut.Sane
      rw [noOut]
      exact Attese.nessuno_sane
    | spazio =>
      show c.pty.attSpazio.Sane
      rw [noSpace]
      exact Attese.nessuno_sane
  · intro q asleep
    rw [(free q).2] at asleep
    simp at asleep

def Corsa (ammesso : Terminale → EventoPty → Prop) : Terminale → Prop :=
  Reached Iniziale fun c evento c' => ammesso c evento ∧ c' = c.passo evento

theorem Corsa.sano (corsa : Corsa Ammesso c) : c.Sano :=
  Reached.invariant Sano (fun _ => Iniziale.sano) (fun pre evento after good taken => by
      rw [taken.2]
      exact good.passo taken.1) corsa

theorem avanza_altri {q : Nat} (other : q ≠ pid) :
    (c.avanza pid memoria scaduto).1.proc q = c.proc q ∨
      (c.avanza pid memoria scaduto).1.proc q = (c.proc q).svegliato := by
  have turns : ∀ u : Turno, (c.dopo pid u).proc q = c.proc q ∨
      (c.dopo pid u).proc q = (c.proc q).svegliato := by
    intro u
    rw [dopo_proc, if_neg other]
    split
    · exact .inr rfl
    · exact .inl rfl
  have changes : ∀ (d : Terminale) (io : ProcessoPty), d.proc = c.proc →
      (d.conProc pid io).proc q = c.proc q ∨ (d.conProc pid io).proc q = (c.proc q).svegliato := by
    intro d io same
    rw [conProc_other d other, same]
    exact .inl rfl
  rw [avanza]
  cases isFase : (c.proc pid).fase with
  | sezione =>
    cases isChiamata : (c.proc pid).chiamata with
    | nessuna => exact .inl rfl
    | leggiMaster n | leggiSlave n l | scriviSlave id dati scritti | poll master => exact turns _
    | chiudi master =>
      dsimp only
      split
      · exact changes _ _ rfl
      · exact changes c _ rfl
    | apri ptmx =>
      dsimp only
      split
      · exact .inl rfl
      · exact changes _ _ rfl
  | sveglio =>
    dsimp only
    split
    · exact changes _ _ disregistra_proc
    · exact changes _ _ disregistra_proc
  | misura =>
    dsimp only
    split
    · exact .inl rfl
    · exact changes c _ rfl
  | alloca posti =>
    dsimp only
    split
    · exact .inl rfl
    · split
      · exact changes _ _ rfl
      · exact changes c _ rfl
  | chiude =>
    dsimp only
    rw [conFase, conProc_other _ other]
    by_cases woken : q ∈ c.pty.svegliaTutti.2
    · exact .inr (if_pos woken)
    · exact .inl (if_neg woken)
  | chiuso => exact changes _ _ rfl
  | apre =>
    dsimp only
    split
    · exact changes _ _ rfl
    · exact changes _ _ rfl
  | ptmx => exact changes _ _ rfl
  | _ => exact .inl rfl

/-- Only the processes in `pids` make calls. -/
def Fermi (c : Terminale) (pids : List Nat) : Prop :=
  ∀ q, q ∉ pids → (c.proc q).chiamata = .nessuna ∧ (c.proc q).fase = .sezione

variable {pids : List Nat}

variable (fermi : c.Fermi pids)

include fermi

theorem Fermi.chiama (mem : pid ∈ pids)
    (chiamata : ChiamataPty) : (c.passo (.chiama pid chiamata)).Fermi pids := by
  intro q out
  rw [passo]
  split
  · split
    · exact fermi q out
    obtain ⟨io, _, _, isProc⟩ := avvia_proc
    have other : q ≠ pid := fun same => out (same ▸ mem)
    rw [isProc, conProc_other c other]
    exact fermi q out
  · exact fermi q out

theorem Fermi.avanza (mem : pid ∈ pids)
    (memoria scaduto : Bool) : (c.passo (.avanza pid memoria scaduto)).Fermi pids := by
  intro q out
  have other : q ≠ pid := fun same => out (same ▸ mem)
  have resting := fermi q out
  have same : (c.avanza pid memoria scaduto).1.proc q = c.proc q := by
    rcases avanza_altri other with same | woken
    · exact same
    · rw [woken, svegliato_sezione resting.2]
  show ((c.avanza pid memoria scaduto).1.proc q).chiamata = .nessuna ∧
    ((c.avanza pid memoria scaduto).1.proc q).fase = .sezione
  rw [same]
  exact resting

theorem Fermi.ioctl (richiesta : Richiesta) : (c.passo (.ioctl richiesta)).Fermi pids := by
  intro q out
  have resting := fermi q out
  rw [passo]
  split
  · have unwoken : ({ c with pty := (c.pty.ioctl richiesta).pty }.sveglia
        (c.pty.ioctl richiesta).svegliati).proc q = c.proc q := by
      show (if q ∈ (c.pty.ioctl richiesta).svegliati then _ else _) = _
      rw [svegliato_sezione resting.2, ite_self]
    rw [effetto, interrompi]
    dsimp only
    rw [unwoken, svegliato_sezione resting.2]
    split <;> exact resting
  · exact resting

omit fermi

/-! ## The law and where it fails -/

theorem Corsa.poi (corsa : Corsa ammesso c)
    (evento : EventoPty) (admitted : ammesso c evento) : Corsa ammesso (c.passo evento) :=
  Reached.next corsa ⟨admitted, rfl⟩

theorem Corsa.esegui (corsa : Corsa ammesso c)
    (eventi : List EventoPty) (admitted : ∀ evento ∈ eventi, ∀ c, ammesso c evento) :
    Corsa ammesso (eventi.foldl passo c) := by
  induction eventi generalizing c with
  | nil => exact corsa
  | cons evento eventi ih =>
    exact ih (corsa.poi evento (admitted evento mem_cons_self c))
      fun later mem => admitted later (mem_cons_of_mem evento mem)

/-- A pair of the table and processes that do not use it. -/
def riposo : Terminale where
  pty :=
    { usata := false, ingresso := Anello.vuoto, uscita := Anello.vuoto, riga := [],
      t := PtyTermios.nessuno, pidFg := 0, masterAperti := 0, slaveAperti := 0,
      bloccato := false, slaveAtteso := false, attIn := Attese.vuote, attOut := Attese.vuote,
      attSpazio := Attese.vuote, fineDati := false }
  proc := fun _ => { chiamata := .nessuna, fase := .sezione, interrotto := false }
  ticks := 0
  lettiMaster := []
  lettiSlave := []
  battuti := []
  scritture := []
  prese := []
  inizio := 0

theorem riposo_iniziale : riposo.Iniziale :=
  ⟨rfl, rfl, rfl, rfl, fun _ => ⟨rfl, rfl⟩, rfl, rfl, rfl⟩

def aperto : Terminale :=
  ((riposo.passo (.chiama 2 (.apri false))).passo (.avanza 2 true false)).passo
    (.avanza 2 true false)

/-- One byte more than the ring has room for. -/
def troppi : ChiamataPty := .scriviSlave 0 (List.replicate 1025 65) 0

end Terminale

end ExOs.Ipc
