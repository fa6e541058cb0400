import ExOs.Ipc.Pty
import ExOs.Ipc.PipeRuns

/-!
# Who sleeps on a pseudo-terminal

Each call that sleeps waits for something of the pair, an `Attesa`.  `Mossa`
says what a section may do to whoever is registered: it is woken, or it is
still registered and still has to wait, the sides in `salvi` apart.
-/

namespace ExOs.Ipc

open ExOs.Library List

/-- What a sleeping call waits for. -/
inductive Attesa where
  | riga (l : Lettura)
  | uscita
  | posto (c : UInt8)
  | slave
deriving DecidableEq

def Attesa.lato : Attesa → LatoPty
  | .riga _ => .ingresso
  | .uscita => .uscita
  | .posto _ => .spazio
  | .slave => .ingresso

/-- How many bytes let a sleeping read of the slave go on. -/
def Lettura.soglia (l : Lettura) : Nat := if l.canonico ∨ l.decimi ≠ 0 then 1 else l.serve

/-- The room that a byte takes in the ring towards the master. -/
def PtyTermios.posti (t : PtyTermios) (c : UInt8) : Nat := if c = 10 ∧ t.onlcr then 2 else 1

def ChiamataPty.attesa : ChiamataPty → Option Attesa
  | .leggiMaster _ => some .uscita
  | .leggiSlave _ (some l) => some (.riga l)
  | .scriviSlave _ dati scritti => dati[scritti]?.map Attesa.posto
  | .poll true => some .uscita
  | .poll false => some .slave
  | _ => none

namespace Pty

def pronta (p : Pty) : Attesa → Bool
  | .riga l =>
    l.soglia ≤ p.ingresso.quanti || p.masterAperti == 0 || p.ingresso.quanti == 0 && p.fineDati
  | .uscita => p.prontoMaster
  | .posto c => p.uscita.quanti + p.t.posti c ≤ ptyDim || p.masterAperti == 0
  | .slave => p.prontoSlave

variable {p p' : Pty} {svegliati : List Nat} {salvi : List LatoPty} {chiamata : ChiamataPty}
  {l : Lettura} {a : Attesa} {c : UInt8} {ticks : UInt32} {lato : LatoPty} {quanti : Nat}

theorem pronta_riga : p.pronta (.riga l) = false ↔
      p.ingresso.quanti < l.soglia ∧ p.masterAperti ≠ 0 ∧
        (p.ingresso.quanti = 0 → p.fineDati = false) := by
  simp [pronta, and_assoc]

theorem pronta_uscita : p.pronta .uscita = false ↔
      p.uscita.quanti = 0 ∧ (p.slaveAperti = 0 → p.slaveAtteso = true) := by
  simp [pronta, prontoMaster]

theorem pronta_posto : p.pronta (.posto c) = false ↔
      ptyDim < p.uscita.quanti + p.t.posti c ∧ p.masterAperti ≠ 0 := by
  simp [pronta]

theorem pronta_slave : p.pronta .slave = false ↔ p.fineDati = false ∧ p.masterAperti ≠ 0 ∧
        (p.ingresso.quanti = 0 ∨ p.t.icanon = false ∧ 1 < p.t.vmin ∧ p.t.vtime = 0 ∧
            p.ingresso.quanti < p.t.vmin.toNat) := by
  simp only [pronta, prontoSlave]
  by_cases empty : p.ingresso.quanti = 0
  · simp [empty]
  · have pos : 0 < p.ingresso.quanti := Nat.pos_of_ne_zero empty
    simp [empty, pos, and_assoc]
    tauto

/-! ## Registration -/

def Sana (p : Pty) : Prop := ∀ lato, (p.att lato).Sane

def Registrato (p : Pty) (lato : LatoPty) (q : Nat) : Prop :=
  p.usata = true ∧ (p.att lato).cE q = true

/-- A section that wakes `svegliati`. -/
structure Mossa (p p' : Pty) (svegliati : List Nat) (salvi : List LatoPty) : Prop where
  sana : p'.Sana
  registrati : ∀ lato q, q ≠ 0 → q ∉ svegliati → p.Registrato lato q → p'.Registrato lato q
  aspettano : ∀ (a : Attesa) q, a.lato ∉ salvi → q ≠ 0 → q ∉ svegliati →
    p.Registrato a.lato q → p.pronta a = false → p'.pronta a = false

theorem Mossa.ferma (sana : p.Sana) : Mossa p p svegliati salvi :=
  ⟨sana, fun _ _ _ _ there => there, fun _ _ _ _ _ _ waits => waits⟩

theorem Mossa.trans {p'' : Pty} {altri : List Nat} (fst : Mossa p p' svegliati salvi)
    (snd : Mossa p' p'' altri salvi) : Mossa p p'' (svegliati ++ altri) salvi where
  sana := snd.sana
  registrati := by
    intro lato q real unwoken there
    rw [mem_append, not_or] at unwoken
    exact snd.registrati lato q real unwoken.2 (fst.registrati lato q real unwoken.1 there)
  aspettano := by
    intro a q out real unwoken there waits
    rw [mem_append, not_or] at unwoken
    exact snd.aspettano a q out real unwoken.2
      (fst.registrati a.lato q real unwoken.1 there)
      (fst.aspettano a q out real unwoken.1 there waits)

@[simp] theorem att_conAtt (p : Pty) (lato : LatoPty) (a : Attese) (other : LatoPty) :
    (p.conAtt lato a).att other = if other = lato then a else p.att other := by
  cases lato <;> cases other <;> rfl

@[simp] theorem pronta_conAtt (p : Pty) (lato : LatoPty) (a : Attese) (w : Attesa) :
    (p.conAtt lato a).pronta w = p.pronta w := by
  cases lato <;> cases w <;> rfl

@[simp] theorem usata_conAtt (p : Pty) (lato : LatoPty) (a : Attese) :
    (p.conAtt lato a).usata = p.usata := by
  cases lato <;> rfl

theorem Sana.conAtt (sana : p.Sana) {lato : LatoPty} {a : Attese} (sane : a.Sane)
    {cambiati : List Nat}
    (kept : ∀ q, q ≠ 0 → q ∉ cambiati → (p.att lato).cE q = true → a.cE q = true) :
    Mossa p (p.conAtt lato a) cambiati salvi where
  sana := by
    intro other
    rw [att_conAtt]
    split
    · exact sane
    · exact sana other
  registrati := by
    rintro other q real unchanged ⟨used, there⟩
    refine ⟨by rw [usata_conAtt]; exact used, ?_⟩
    rw [att_conAtt]
    split
    · next same =>
      rw [same] at there
      exact kept q real unchanged there
    · exact there
  aspettano := by
    intro w q _ _ _ _ waits
    rw [pronta_conAtt]
    exact waits

theorem Sana.cambia (sana : p.Sana) (used : p'.usata = p.usata)
    (lists : ∀ lato, p'.att lato = p.att lato ∨ (p'.att lato).Sane ∧ (p.att lato).pid ⊆ svegliati)
    (waits : ∀ a : Attesa, a.lato ∉ salvi → ¬(p.att a.lato).pid ⊆ svegliati →
      p.pronta a = false → p'.pronta a = false) :
    Mossa p p' svegliati salvi where
  sana := by
    intro lato
    rcases lists lato with same | ⟨sane, _⟩
    · rw [same]
      exact sana lato
    · exact sane
  registrati := by
    rintro lato q real unwoken ⟨isUsed, there⟩
    refine ⟨used ▸ isUsed, ?_⟩
    rcases lists lato with same | ⟨_, all⟩
    · rw [same]
      exact there
    · exact absurd (all (Attese.mem_pid real there)) unwoken
  aspettano := fun a q out real unwoken there pre =>
    waits a out (fun all => unwoken (all (Attese.mem_pid real there.2))) pre

theorem Sana.resta (sana : p.Sana) (used : p'.usata = p.usata) (lists : p'.att = p.att)
    (waits : ∀ a : Attesa, a.lato ∉ salvi → ¬(p.att a.lato).pid ⊆ svegliati →
      p.pronta a = false → p'.pronta a = false) : Mossa p p' svegliati salvi :=
  sana.cambia used (fun lato => .inl (congrFun lists lato)) waits

theorem Mossa.tutti (sana : p'.Sana) (all : ∀ lato, (p.att lato).pid ⊆ svegliati) :
    Mossa p p' svegliati salvi where
  sana := sana
  registrati := fun lato _ real unwoken there =>
    absurd (all lato (Attese.mem_pid real there.2)) unwoken
  aspettano := fun a _ _ real unwoken there _ =>
    absurd (all a.lato (Attese.mem_pid real there.2)) unwoken

/-- A call that goes to sleep on a side is registered and has to wait. -/
def Dorme (u : Turno) (pid : Nat) : Prop :=
  u.esito = .dorme → ∃ a, u.chiamata.attesa = some a ∧ u.pty.Registrato a.lato pid ∧
    u.pty.pronta a = false

variable {pid : Nat}

theorem Mossa.aspetta (mossa : Mossa p p' svegliati salvi) (real : pid ≠ 0) (used : p'.usata = true)
    (isAttesa : chiamata.attesa = some a) (waits : p'.pronta a = false) :
    Mossa p (p'.aspetta a.lato pid svegliati chiamata).pty
        (p'.aspetta a.lato pid svegliati chiamata).svegliati salvi ∧
      Dorme (p'.aspetta a.lato pid svegliati chiamata) pid := by
  rw [Pty.aspetta]
  cases done : (p'.att a.lato).metti pid with
  | none => exact ⟨mossa, fun sleeps => by simp at sleeps⟩
  | some list =>
    obtain ⟨sane, members⟩ := (mossa.sana a.lato).metti real done
    have registers : Mossa p' (p'.conAtt a.lato list) [] salvi :=
      mossa.sana.conAtt sane fun q nz _ there => members q nz (.inr there)
    refine ⟨?_, fun _ => ⟨a, isAttesa, ⟨?_, ?_⟩, ?_⟩⟩
    · have both := mossa.trans registers
      rw [append_nil] at both
      exact both
    · rw [usata_conAtt]
      exact used
    · rw [att_conAtt, if_pos rfl]
      exact members pid real (.inl rfl)
    · rw [pronta_conAtt]
      exact waits

theorem Sana.nulla (sana : p.Sana) {esito : EsitoPty} (awake : esito ≠ .dorme) :
    Mossa p (Turno.mk p [] chiamata esito).pty (Turno.mk p [] chiamata esito).svegliati salvi ∧
      Dorme ⟨p, [], chiamata, esito⟩ pid :=
  ⟨Mossa.ferma sana, fun sleeps => absurd sleeps awake⟩

theorem usata_of_not (used : ¬(!p.usata) = true) : p.usata = true := by simpa using used

theorem Sana.leggiMaster (sana : p.Sana) (real : pid ≠ 0) (n : Nat) :
    Mossa p (p.leggiMaster pid n).pty (p.leggiMaster pid n).svegliati salvi ∧
      Dorme (p.leggiMaster pid n) pid := by
  rw [Pty.leggiMaster]
  split
  · exact sana.nulla (by simp)
  rename_i used
  split
  · next pos =>
    refine ⟨sana.cambia rfl ?_ ?_, fun sleeps => by simp at sleeps⟩
    · intro lato
      cases lato with
      | ingresso | uscita => exact .inl rfl
      | spazio => exact .inr ⟨Attese.sveglia_sane, List.Subset.refl _⟩
    · intro a _ asleep waits
      cases a with
      | riga l | slave => exact waits
      | posto c => exact absurd (List.Subset.refl _) asleep
      | uscita =>
        have absent := (pronta_uscita.mp waits).1
        omega
  · next absent =>
    split
    · exact sana.nulla (by simp)
    rename_i isOpen
    apply (Mossa.ferma sana).aspetta real (usata_of_not used) (a := Attesa.uscita) rfl
    rw [pronta_uscita]
    refine ⟨Nat.eq_zero_of_not_pos absent, ?_⟩
    intro closed
    by_contra expected
    exact isOpen ⟨closed, by simpa using expected⟩

theorem quanti_metti {a : Anello} : a.quanti ≤ (a.metti c).quanti := by
  rw [Anello.metti]
  split
  · exact Nat.le_refl _
  · exact Nat.le_succ _

theorem versa_resto {onlcr : Bool} {dati : List UInt8} :
    ∀ a : Anello, a.quanti ≤ (versa onlcr a dati).1.quanti ∧ (versa onlcr a dati).2 <:+ dati ∧
      ∀ c resto, (versa onlcr a dati).2 = c :: resto →
        ptyDim < (versa onlcr a dati).1.quanti + if c = 10 ∧ onlcr then 2 else 1 := by
  induction dati with
  | nil => exact fun a => ⟨Nat.le_refl _, suffix_refl _, fun _ _ more => by simp [versa] at more⟩
  | cons c dati ih =>
    intro a
    rw [versa]
    split
    · next full =>
      refine ⟨Nat.le_refl _, suffix_refl _, ?_⟩
      intro next resto isNext
      split <;> dsimp only <;> omega
    split
    · next newline =>
      split
      · next tight =>
        refine ⟨Nat.le_refl _, suffix_refl _, ?_⟩
        intro next resto isNext
        injection isNext with isC
        rw [← isC, if_pos newline]
        dsimp only
        omega
      · obtain ⟨grows, isSuffix, stops⟩ := ih ((a.metti 13).metti c)
        refine ⟨?_, isSuffix.trans (suffix_cons c dati), stops⟩
        exact Nat.le_trans quanti_metti (Nat.le_trans quanti_metti grows)
    · obtain ⟨grows, isSuffix, stops⟩ := ih (a.metti c)
      exact ⟨Nat.le_trans quanti_metti grows, isSuffix.trans (suffix_cons c dati), stops⟩

theorem Sana.scriviSlave (sana : p.Sana) (real : pid ≠ 0) (id : Nat)
    (dati : List UInt8) (scritti : Nat) :
    Mossa p (p.scriviSlave pid id dati scritti).pty
        (p.scriviSlave pid id dati scritti).svegliati salvi ∧
      Dorme (p.scriviSlave pid id dati scritti) pid := by
  rw [Pty.scriviSlave]
  dsimp only
  split
  · exact sana.nulla (by simp)
  rename_i used
  split
  · exact sana.nulla (by simp)
  rename_i master
  obtain ⟨grows, isSuffix, stops⟩ := versa_resto p.uscita
  generalize versa p.t.onlcr p.uscita (dati.drop scritti) = r at grows isSuffix stops ⊢
  have woken : Mossa p { p with uscita := r.1, attOut := p.attOut.sveglia } p.attOut.pid salvi := by
    refine sana.cambia rfl ?_ ?_
    · intro lato
      cases lato with
      | ingresso => exact .inl rfl
      | uscita => exact .inr ⟨Attese.sveglia_sane, List.Subset.refl _⟩
      | spazio => exact .inl rfl
    · intro a _ asleep waits
      cases a with
      | riga l | slave => exact waits
      | uscita => exact absurd (List.Subset.refl _) asleep
      | posto c =>
        rw [pronta_posto] at waits ⊢
        exact ⟨Nat.lt_of_lt_of_le waits.1 (Nat.add_le_add_right grows _), waits.2⟩
  split
  · exact ⟨woken, fun sleeps => by simp at sleeps⟩
  rename_i more
  obtain ⟨c, resto, isResto⟩ := exists_cons_of_ne_nil more
  have isNext : dati[dati.length - r.2.length]? = some c := by
    obtain ⟨pre, isDati⟩ := isSuffix.trans (drop_suffix scritti dati)
    rw [← isDati, length_append, Nat.add_sub_cancel,
      List.getElem?_append_right (Nat.le_refl _), Nat.sub_self, isResto]
    rfl
  apply woken.aspetta real (usata_of_not used) (a := Attesa.posto c)
  · rw [ChiamataPty.attesa, isNext]
    rfl
  · rw [pronta_posto]
    exact ⟨stops c resto isResto, master⟩

theorem soglia_guarda : (l.guarda quanti ticks).1.soglia = l.soglia := by
  rw [Lettura.guarda]
  split
  · rfl
  split
  · rfl
  split
  · split
    · rfl
    · split <;> rfl
  split
  · rfl
  split
  · split <;> rfl
  · rfl

theorem guarda_aspetta
    (waits : (l.guarda quanti ticks).2 = .aspetta false) : quanti < l.soglia := by
  have timer : ∀ late : Prop, [Decidable late] →
      (if late then Lettura.Sguardo.prende else .aspetta true) ≠ .aspetta false := by
    intro late _
    split <;> simp
  rw [Lettura.guarda] at waits
  rw [Lettura.soglia]
  split at waits
  · next untimed =>
    have short : ¬(if l.canonico then 1 else l.serve) ≤ quanti := by
      intro enough
      rw [if_pos enough] at waits
      simp at waits
    split at short
    · next canonical =>
      rw [if_pos (.inl canonical)]
      omega
    rename_i canonical
    obtain ⟨_, noTime⟩ := untimed.resolve_left canonical
    rw [if_neg (by rintro (isCanonical | timed) <;> contradiction)]
    omega
  · next untimed =>
    split at waits
    · simp at waits
    split at waits
    · split at waits
      · simp at waits
      · exact absurd waits (timer _)
    split at waits
    · simp at waits
    split at waits
    · exact absurd waits (timer _)
    have ticking : l.decimi ≠ 0 := by
      intro noTime
      exact untimed (.inr ⟨by omega, noTime⟩)
    rw [if_pos (.inr ticking)]
    omega

variable (sana : p.Sana)

include sana

theorem Sana.prende (quiet : p.fineDati = true → LatoPty.ingresso ∈ salvi)
    {a : Anello} (less : a.quanti ≤ p.ingresso.quanti) (riga : List UInt8) :
    Mossa p { p with ingresso := a, riga := riga } [] salvi := by
  refine sana.resta rfl rfl ?_
  intro w out _ waits
  cases w with
  | uscita | posto c => exact waits
  | riga l =>
    rw [pronta_riga] at waits ⊢
    refine ⟨Nat.lt_of_le_of_lt less waits.1, waits.2.1, fun _ => ?_⟩
    by_contra ended
    exact out (quiet (by simpa using ended))
  | slave =>
    rw [pronta_slave] at waits ⊢
    obtain ⟨going, master, short⟩ := waits
    refine ⟨going, master, ?_⟩
    rcases short with empty | ⟨raw, many, noTime, few⟩
    · exact .inl (Nat.le_zero.mp (empty ▸ less))
    · exact .inr ⟨raw, many, noTime, Nat.lt_of_le_of_lt less few⟩

theorem Sana.leggiSlave (real : pid ≠ 0) (n : Nat) (l : Lettura)
    (ticks : UInt32) (quiet : p.fineDati = true → LatoPty.ingresso ∈ salvi) :
    Mossa p (p.leggiSlave pid n l ticks).pty (p.leggiSlave pid n l ticks).svegliati salvi ∧
      Dorme (p.leggiSlave pid n l ticks) pid := by
  have takes : Mossa p { p with ingresso := (p.ingresso.prendi (min n ptyDim)).1 } [] salvi :=
    sana.prende quiet (Nat.sub_le _ _) p.riga
  rw [Pty.leggiSlave]
  split
  · exact sana.nulla (by simp)
  rename_i used
  split
  · exact ⟨takes, fun sleeps => by simp at sleeps⟩
  rename_i aTempo looks
  split
  · refine ⟨?_, fun sleeps => by simp at sleeps⟩
    refine sana.resta rfl rfl ?_
    intro w _ _ waits
    cases w with
    | uscita | posto c => exact waits
    | riga l => exact pronta_riga.mpr ⟨(pronta_riga.mp waits).1,
        (pronta_riga.mp waits).2.1, fun _ => rfl⟩
    | slave => exact pronta_slave.mpr ⟨rfl, (pronta_slave.mp waits).2⟩
  · next going =>
    split
    · exact ⟨takes, fun sleeps => by simp at sleeps⟩
    rename_i left
    split
    · exact sana.nulla (by simp)
    rename_i untimed
    apply (Mossa.ferma sana).aspetta real (usata_of_not used)
      (a := Attesa.riga (l.guarda p.ingresso.quanti ticks).1) rfl
    rw [pronta_riga, soglia_guarda]
    rw [Bool.not_eq_true] at untimed
    rw [untimed] at looks
    refine ⟨guarda_aspetta looks, ?_, ?_⟩
    · intro gone
      by_cases empty : p.ingresso.quanti = 0
      · exact going ⟨empty, .inr gone⟩
      · exact left ⟨Nat.pos_of_ne_zero empty, gone⟩
    · intro empty
      by_contra ended
      exact going ⟨empty, .inl (by simpa using ended)⟩

theorem Sana.poll (real : pid ≠ 0) (master scaduto : Bool) :
    Mossa p (p.poll pid master scaduto).pty (p.poll pid master scaduto).svegliati salvi ∧
      Dorme (p.poll pid master scaduto) pid := by
  have asks : ∀ a : Attesa, (ChiamataPty.poll master).attesa = some a → p.usata = true →
      p.pronta a = false → ∀ list, (p.att a.lato).metti pid = some list →
      Mossa p (p.conAtt a.lato list) [] salvi ∧
        Dorme ⟨p.conAtt a.lato list, [], .poll master, .dorme⟩ pid := by
    intro a isAttesa used waits list done
    have still : Mossa p p [] salvi := Mossa.ferma sana
    have sleeps := still.aspetta real used isAttesa waits
    rw [Pty.aspetta, done] at sleeps
    exact sleeps
  rw [Pty.poll]
  by_cases ready :
      (!p.usata || (if master then p.prontoMaster else p.prontoSlave) || scaduto) = true
  · rw [if_pos ready]
    exact sana.nulla (by simp)
  rw [if_neg ready]
  simp only [Bool.or_eq_true, Bool.not_eq_true', not_or, Bool.not_eq_true,
    Bool.not_eq_false] at ready
  cases master with
  | true =>
    split
    case h_1 list done => exact asks .uscita rfl ready.1.1 ready.1.2 list done
    case h_2 => exact sana.nulla (by simp)
  | false =>
    split
    case h_1 list done => exact asks .slave rfl ready.1.1 ready.1.2 list done
    case h_2 => exact sana.nulla (by simp)

/-- Every section of a call; a read of the slave may take the last byte in front
of the end of the data. -/
theorem Sana.turno (real : pid ≠ 0) (ticks : UInt32) (scaduto : Bool) (chiamata : ChiamataPty)
    (quiet : (∃ n l, chiamata = .leggiSlave n l) → p.fineDati = true → LatoPty.ingresso ∈ salvi) :
    Mossa p (p.turno pid ticks scaduto chiamata).pty
        (p.turno pid ticks scaduto chiamata).svegliati salvi ∧
      Dorme (p.turno pid ticks scaduto chiamata) pid := by
  cases chiamata with
  | leggiMaster n =>
    rw [Pty.turno]
    split
    · exact sana.nulla (by simp)
    · exact sana.leggiMaster real n
  | leggiSlave n l =>
    cases l with
    | none =>
      rw [Pty.turno]
      split
      · exact sana.nulla (by simp)
      rw [prepara]
      split
      · exact sana.nulla (by simp)
      · exact sana.nulla (by simp)
    | some l => exact sana.leggiSlave real n l ticks (quiet ⟨n, some l, rfl⟩)
  | scriviSlave id dati scritti =>
    rw [Pty.turno]
    split
    · exact sana.nulla (by simp)
    · exact sana.scriviSlave real id dati scritti
  | poll master => exact sana.poll real master scaduto
  | _ => exact sana.nulla (by simp)

omit sana

/-! ## Typing, modes, ends -/

/-- What a typed byte may do to the pair: whoever waits for a line is left alone,
or woken by the end of the data. -/
structure Battuta (p p' : Pty) (svegliati : List Nat) : Prop where
  usata : p'.usata = p.usata
  modi : p'.t = p.t
  master : p'.masterAperti = p.masterAperti
  slave : p'.slaveAperti = p.slaveAperti
  atteso : p'.slaveAtteso = p.slaveAtteso
  attOut : p'.attOut = p.attOut
  attSpazio : p'.attSpazio = p.attSpazio
  uscita : p.uscita.quanti ≤ p'.uscita.quanti
  attIn : p'.attIn = p.attIn ∧ p'.fineDati = p.fineDati ∨ p'.attIn.Sane ∧ p.attIn.pid ⊆ svegliati

theorem Battuta.refl (p : Pty) (svegliati : List Nat) : Battuta p p svegliati :=
  ⟨rfl, rfl, rfl, rfl, rfl, rfl, rfl, Nat.le_refl _, .inl ⟨rfl, rfl⟩⟩

/-- What the edits of the line discipline keep: the echo, the line, the ring
towards the slave and the end of the data. -/
structure Stabile (P : Pty → List Nat → Prop) : Prop where
  eco : ∀ {q w}, P q w → ∀ c, P (q.eco c) w
  riga : ∀ {q w}, P q w → ∀ riga, P { q with riga := riga } w
  metti : ∀ {q w}, P q w → ∀ c, P { q with ingresso := q.ingresso.metti c } w
  svuota : ∀ {q w}, P q w → P { q with ingresso := q.ingresso.svuota } w
  fine : ∀ {q w}, P q w → P { q with fineDati := true, attIn := q.attIn.sveglia } (w ++ q.attIn.pid)

section

variable {P : Pty → List Nat → Prop} (stabile : Stabile P) {w : List Nat} {q : Pty}

include stabile

theorem Stabile.ecoStr (s : List UInt8) : ∀ {q : Pty}, P q w → P (q.ecoStr s) w := by
  induction s with
  | nil => exact id
  | cons c s ih => exact fun pre => ih (stabile.eco pre c)

theorem Stabile.cancella (pre : P q w) (mostra : Bool) : P (q.cancella mostra) w := by
  have shorter := stabile.riga pre q.riga.dropLast
  rw [Pty.cancella]
  split
  · exact stabile.ecoStr _ shorter
  · exact shorter

theorem Stabile.uccidi (n : Nat) : ∀ {q : Pty}, P q w → P (q.uccidi n) w := by
  induction n with
  | zero => exact id
  | succ n ih => exact fun pre => ih (stabile.cancella pre _)

theorem Stabile.consegnaRiga (pre : P q w) : P q.consegnaRiga w := by
  have entered : ∀ (riga : List UInt8) {q : Pty}, P q w →
      P { q with ingresso := riga.foldl Anello.metti q.ingresso } w := by
    intro riga
    induction riga with
    | nil => exact id
    | cons c riga ih => exact fun pre => ih (stabile.metti pre c)
  exact stabile.riga (entered q.riga pre) []

theorem Stabile.tasto (pre : P q w) (c : UInt8) :
    P (q.tasto c).pty (w ++ (q.tasto c).svegliati) := by
  have quiet : ∀ {p : Pty}, P p w → P p (w ++ []) := by
    rw [append_nil]
    exact id
  rw [Pty.tasto]
  split
  · have shown := stabile.ecoStr [94, 67, 10] pre
    dsimp only
    split
    · exact quiet shown
    · exact quiet (stabile.riga (stabile.svuota shown) [])
  split
  · exact quiet (stabile.eco (stabile.metti pre c) c)
  split
  · split
    · exact stabile.fine pre
    · exact quiet pre
  split
  · split
    · exact quiet pre
    · exact quiet (stabile.cancella pre _)
  split
  · exact quiet (stabile.uccidi _ pre)
  split
  · have closed : P
        (if q.riga.length < ptyRigaMax then { q with riga := q.riga ++ [10] } else q) w := by
      split
      · exact stabile.riga pre _
      · exact pre
    exact quiet (stabile.consegnaRiga (stabile.eco closed 10))
  split
  · exact quiet (stabile.eco (stabile.riga pre _) c)
  · exact quiet pre

theorem Stabile.batti (dati : List UInt8) : ∀ e : Effetto, P e.pty e.svegliati →
      P (dati.foldl batti e).pty (dati.foldl batti e).svegliati := by
  induction dati with
  | nil => exact fun _ pre => pre
  | cons c dati ih =>
    intro e pre
    apply ih (Pty.batti e c)
    show P (e.pty.disciplina c).pty (e.svegliati ++ (e.pty.disciplina c).svegliati)
    rw [disciplina]
    split
    · rw [append_nil]
      exact pre
    · exact stabile.tasto pre _

end

theorem Battuta.stabile (p : Pty) : Stabile (Battuta p) where
  eco := by
    intro q w pre c
    rw [Pty.eco]
    split
    · split
      · exact { pre with
          uscita := Nat.le_trans pre.uscita (Nat.le_trans quanti_metti quanti_metti) }
      · exact { pre with uscita := Nat.le_trans pre.uscita quanti_metti }
    · exact pre
  riga := fun pre _ => { pre with }
  metti := fun pre _ => { pre with }
  svuota := fun pre => { pre with }
  fine := by
    intro q w pre
    refine { pre with attIn := .inr ⟨Attese.sveglia_sane, ?_⟩ }
    rcases pre.attIn with ⟨kept, _⟩ | ⟨_, woken⟩
    · rw [← kept]
      exact subset_append_right _ _
    · exact List.Subset.trans woken (subset_append_left _ _)

theorem Mossa.svegliaSe {e : Effetto}
    (mossa : Mossa p e.pty e.svegliati (lato :: salvi)) {quando : Bool}
    (waits : quando = false → ∀ (a : Attesa) (q : Nat), a.lato = lato → lato ∉ salvi → q ≠ 0 →
      q ∉ e.svegliati → p.Registrato lato q → p.pronta a = false → e.pty.pronta a = false) :
    Mossa p (svegliaSe quando lato e).pty (svegliaSe quando lato e).svegliati salvi := by
  rw [Pty.svegliaSe]
  cases quando with
  | false =>
    refine ⟨mossa.sana, mossa.registrati, ?_⟩
    intro a q out real unwoken there pre
    by_cases here : a.lato = lato
    · exact waits rfl a q here (here ▸ out) real unwoken (here ▸ there) pre
    · exact mossa.aspettano a q (by simp [here, out]) real unwoken there pre
  | true =>
    rw [if_pos rfl]
    have all : Mossa e.pty (e.pty.conAtt lato (e.pty.att lato).sveglia) (e.pty.att lato).pid
        (lato :: salvi) :=
      mossa.sana.conAtt Attese.sveglia_sane
        fun _ real unwoken there => absurd (Attese.mem_pid real there) unwoken
    have both := mossa.trans all
    refine ⟨both.sana, both.registrati, ?_⟩
    intro a q out real unwoken there pre
    by_cases here : a.lato = lato
    · rw [mem_append, not_or] at unwoken
      have still := mossa.registrati a.lato q real unwoken.1 there
      rw [here] at still
      exact absurd (Attese.mem_pid real still.2) unwoken.2
    · exact both.aspettano a q (by simp [here, out]) real unwoken there pre

theorem pronta_vuoto (isIn : a.lato = .ingresso)
    (master : p'.masterAperti = p.masterAperti) (ended : p'.fineDati = p.fineDati)
    (quiet : p.fineDati = false) (empty : p'.ingresso.quanti = 0) (waits : p.pronta a = false) :
    p'.pronta a = false := by
  cases a with
  | uscita | posto c => simp [Attesa.lato] at isIn
  | riga l =>
    rw [pronta_riga] at waits ⊢
    rw [empty, master, ended]
    exact ⟨Nat.lt_of_le_of_lt (Nat.zero_le _) waits.1, waits.2.1, fun _ => quiet⟩
  | slave =>
    rw [pronta_slave] at waits ⊢
    rw [master, ended]
    exact ⟨quiet, waits.2.1, .inl empty⟩

theorem Sana.scriviMaster (sana : p.Sana) (dati : List UInt8)
    (quiet : p.fineDati = true → LatoPty.ingresso ∈ salvi) :
    Mossa p (p.scriviMaster dati).pty (p.scriviMaster dati).svegliati salvi := by
  have typed := (Battuta.stabile p).batti dati ⟨p, [], []⟩ (Battuta.refl p [])
  rw [Pty.scriviMaster]
  generalize dati.foldl batti ⟨p, [], []⟩ = e at typed
  have owed : Mossa p e.pty e.svegliati (.ingresso :: .uscita :: salvi) := by
    refine sana.cambia typed.usata ?_ ?_
    · intro lato
      cases lato with
      | ingresso => exact typed.attIn.imp_left And.left
      | uscita => exact .inl typed.attOut
      | spazio => exact .inl typed.attSpazio
    · intro a out _ waits
      cases a with
      | posto c =>
        rw [pronta_posto] at waits ⊢
        rw [typed.modi, typed.master]
        exact ⟨Nat.lt_of_lt_of_le waits.1 (Nat.add_le_add_right typed.uscita _), waits.2⟩
      | _ => simp [Attesa.lato] at out
  have lines : Mossa p (Pty.svegliaSe (e.pty.ingresso.quanti ≠ 0) .ingresso e).pty
      (Pty.svegliaSe (e.pty.ingresso.quanti ≠ 0) .ingresso e).svegliati (.uscita :: salvi) := by
    apply owed.svegliaSe
    intro nothing a q isIn out real unwoken there waits
    have empty : e.pty.ingresso.quanti = 0 := by simpa using nothing
    have going : p.fineDati = false := by
      by_contra ended
      exact out (mem_cons_of_mem _ (quiet (by simpa using ended)))
    rcases typed.attIn with ⟨_, sameEnd⟩ | ⟨_, woken⟩
    · exact pronta_vuoto isIn typed.master sameEnd going empty waits
    · exact absurd (woken (Attese.mem_pid real there.2)) unwoken
  apply lines.svegliaSe
  intro nothing a q isOut _ _ _ _ waits
  have same : (Pty.svegliaSe (e.pty.ingresso.quanti ≠ 0) .ingresso e).pty.pronta a =
      e.pty.pronta a := by
    rw [Pty.svegliaSe]
    split
    · exact pronta_conAtt _ _ _ a
    · rfl
  have sameQuanti : (Pty.svegliaSe (e.pty.ingresso.quanti ≠ 0) .ingresso e).pty.uscita =
      e.pty.uscita := by
    rw [Pty.svegliaSe]
    split <;> rfl
  rw [sameQuanti] at nothing
  rw [same]
  cases a with
  | uscita =>
    rw [pronta_uscita] at waits ⊢
    rw [typed.slave, typed.atteso]
    exact ⟨by simpa using nothing, waits.2⟩
  | _ => simp [Attesa.lato] at isOut

theorem quanti_foldl_metti {riga : List UInt8} :
    ∀ a : Anello, a.quanti ≤ (riga.foldl Anello.metti a).quanti := by
  induction riga with
  | nil => exact fun a => Nat.le_refl _
  | cons c riga ih =>
    exact fun a => Nat.le_trans quanti_metti (ih (a.metti c))

theorem posti_le {t t' : PtyTermios} (kept : t.onlcr = true → t'.onlcr = true) :
    t.posti c ≤ t'.posti c := by
  rw [PtyTermios.posti, PtyTermios.posti]
  split
  · next two =>
    rw [if_pos ⟨two.1, kept two.2⟩]
  · split <;> omega

/-- The modes set; a newline that takes less room is the end of a wait without a
wake-up. -/
theorem Sana.tcsets (sana : p.Sana) (t : PtyTermios)
    (quiet : p.t.onlcr = true → t.onlcr = false → LatoPty.spazio ∈ salvi) :
    Mossa p (p.tcsets t).pty (p.tcsets t).svegliati salvi := by
  have write : ∀ (a : Anello) (riga : List UInt8), p.ingresso.quanti ≤ a.quanti →
      ∀ e : Effetto, e = ⟨{ p with t := t, ingresso := a, riga := riga }, [], []⟩ →
      Mossa p (Pty.svegliaSe (e.pty.ingresso.quanti ≠ 0) .ingresso e).pty
        (Pty.svegliaSe (e.pty.ingresso.quanti ≠ 0) .ingresso e).svegliati salvi := by
    intro a riga grows e isEffetto
    have owed : Mossa p e.pty e.svegliati (.ingresso :: salvi) := by
      rw [isEffetto]
      refine sana.resta rfl rfl ?_
      intro w out _ waits
      cases w with
      | riga l | slave => simp [Attesa.lato] at out
      | uscita => exact waits
      | posto c =>
        rw [pronta_posto] at waits ⊢
        have wider : p.t.posti c ≤ t.posti c := by
          apply posti_le
          intro pre
          by_contra after
          exact out (mem_cons_of_mem _ (quiet pre (by simpa using after)))
        exact ⟨Nat.lt_of_lt_of_le waits.1 (Nat.add_le_add_left wider _), waits.2⟩
    apply owed.svegliaSe
    intro nothing w q isIn _ _ _ _ waits
    rw [isEffetto] at nothing ⊢
    have empty : a.quanti = 0 := by simpa using nothing
    have emptyBefore : p.ingresso.quanti = 0 := Nat.le_zero.mp (empty ▸ grows)
    have going : p.fineDati = false := by
      cases w with
      | riga l => exact (pronta_riga.mp waits).2.2 emptyBefore
      | slave => exact (pronta_slave.mp waits).1
      | uscita | posto c => simp [Attesa.lato] at isIn
    exact pronta_vuoto (p := p) isIn rfl rfl going empty waits
  rw [Pty.tcsets]
  split
  · exact write _ [] (quanti_foldl_metti p.ingresso) _ rfl
  · exact write p.ingresso p.riga (Nat.le_refl _) _ rfl

/-- For which sides a request may end a wait without waking: a flush of the
output and a newline that takes less room, a flush of the input in front of the
end of the data. -/
def Richiesta.tace (p : Pty) : Richiesta → LatoPty → Prop
  | .tcsets t, lato => lato = .spazio ∧ p.t.onlcr = true ∧ t.onlcr = false
  | .tcsetsf t, lato => lato = .spazio ∧ p.t.onlcr = true ∧ t.onlcr = false
  | .tcflsh arg, lato =>
    lato = .spazio ∧ (arg = 1 ∨ arg = 2) ∨
      lato = .ingresso ∧ (arg = 0 ∨ arg = 2) ∧ p.fineDati = true
  | .tiocsptlck _, _ => False

section

variable (sana : p.Sana)

include sana

theorem Sana.ioctl (richiesta : Richiesta) (quiet : ∀ lato, richiesta.tace p lato → lato ∈ salvi) :
    Mossa p (p.ioctl richiesta).pty (p.ioctl richiesta).svegliati salvi := by
  cases richiesta with
  | tcsets t => exact sana.tcsets t fun pre after => quiet .spazio ⟨rfl, pre, after⟩
  | tcsetsf t =>
    have flushed : Mossa p
        { p with ingresso := p.ingresso.svuota, riga := [], fineDati := false } [] salvi := by
      refine sana.resta rfl rfl ?_
      intro w _ _ waits
      cases w with
      | uscita | posto c => exact waits
      | riga l =>
        rw [pronta_riga] at waits ⊢
        exact ⟨Nat.lt_of_le_of_lt (Nat.zero_le _) waits.1, waits.2.1, fun _ => rfl⟩
      | slave => exact pronta_slave.mpr ⟨rfl, (pronta_slave.mp waits).2.1, .inl rfl⟩
    exact flushed.trans (flushed.sana.tcsets t fun pre after => quiet .spazio ⟨rfl, pre, after⟩)
  | tcflsh arg =>
    rw [Pty.ioctl]
    have inputFlushed : Mossa p
        (if arg = 0 ∨ arg = 2 then { p with ingresso := p.ingresso.svuota, riga := [] } else p)
        [] salvi := by
      split
      · next input =>
        exact sana.prende (fun ended => quiet .ingresso (.inr ⟨rfl, input, ended⟩))
          (Nat.zero_le _) []
      · exact Mossa.ferma sana
    split
    · next output =>
      apply inputFlushed.trans
      refine inputFlushed.sana.resta rfl rfl ?_
      intro w out _ waits
      cases w with
      | riga l | slave => exact waits
      | uscita => exact pronta_uscita.mpr ⟨rfl, (pronta_uscita.mp waits).2⟩
      | posto c => exact absurd (quiet .spazio (.inl ⟨rfl, output⟩)) out
    · exact inputFlushed
  | tiocsptlck blocca =>
    exact sana.resta rfl rfl fun w _ _ waits => by cases w <;> exact waits

theorem Sana.ctl (comando : Comando)
    (quiet : ∀ arg, comando = .modo arg → p.t.icanon = false → (p.t.modo arg).icanon = true →
      LatoPty.ingresso ∈ salvi) :
    Mossa p (p.ctl comando) [] salvi := by
  cases comando with
  | fg pid =>
    exact sana.resta rfl rfl fun w _ _ waits => by cases w <;> exact waits
  | modo arg =>
    refine sana.resta rfl rfl ?_
    intro w out _ waits
    cases w with
    | riga l | uscita | posto c => exact waits
    | slave =>
      rw [pronta_slave] at waits ⊢
      obtain ⟨going, master, short⟩ := waits
      refine ⟨going, master, short.imp_right ?_⟩
      rintro ⟨raw, rest⟩
      refine ⟨?_, rest⟩
      by_contra canonical
      exact out (quiet arg rfl raw (eq_true_of_ne_false canonical))

theorem Sana.inizia : p.inizia.Sana := by
  intro lato
  cases lato with
  | ingresso => exact sana .ingresso
  | uscita => exact sana .uscita
  | spazio => exact sana .spazio

theorem Sana.apriPtmx : Mossa p p.apriPtmx [] salvi := by
  refine sana.resta rfl rfl ?_
  intro w _ _ waits
  cases w with
  | uscita => exact pronta_uscita.mpr ⟨(pronta_uscita.mp waits).1, fun _ => rfl⟩
  | _ => exact waits

theorem Sana.apriSlave : Mossa p p.apriSlave [] salvi := by
  rw [Pty.apriSlave]
  split
  · refine sana.resta rfl rfl ?_
    intro w _ _ waits
    cases w with
    | uscita =>
      exact pronta_uscita.mpr ⟨(pronta_uscita.mp waits).1,
        fun zero => absurd zero (Nat.succ_ne_zero _)⟩
    | _ => exact waits
  · exact Mossa.ferma sana

theorem Sana.apriRiferimento (master : Bool) : Mossa p (p.apriRiferimento master) [] salvi := by
  rw [Pty.apriRiferimento]
  split
  · exact Mossa.ferma sana
  split
  · refine sana.resta rfl rfl ?_
    intro w _ _ waits
    cases w with
    | uscita => exact waits
    | riga l =>
      rw [pronta_riga] at waits ⊢
      exact ⟨waits.1, Nat.succ_ne_zero _, waits.2.2⟩
    | slave =>
      rw [pronta_slave] at waits ⊢
      exact ⟨waits.1, Nat.succ_ne_zero _, waits.2.2⟩
    | posto c => exact pronta_posto.mpr ⟨(pronta_posto.mp waits).1, Nat.succ_ne_zero _⟩
  · refine sana.resta rfl rfl ?_
    intro w _ _ waits
    cases w with
    | uscita =>
      exact pronta_uscita.mpr ⟨(pronta_uscita.mp waits).1,
        fun zero => absurd zero (Nat.succ_ne_zero _)⟩
    | _ => exact waits

theorem Sana.lascia (master : Bool) :
    Mossa p (p.lascia master) [] [.ingresso, .uscita, .spazio] := by
  have everySide : ∀ a : Attesa, a.lato ∈ [LatoPty.ingresso, .uscita, .spazio] := by
    intro a
    cases a <;> simp [Attesa.lato]
  rw [Pty.lascia]
  split
  · exact sana.resta rfl rfl fun a out => absurd (everySide a) out
  · exact sana.resta rfl rfl fun a out => absurd (everySide a) out

end

theorem azzera_sana : p.azzera.Sana := by
  intro lato
  cases lato <;> exact Attese.nessuno_sane

theorem svegliaTutti_sana (p : Pty) : p.svegliaTutti.1.Sana := by
  intro lato
  cases lato <;> exact Attese.sveglia_sane

theorem svegliaTutti_tutti (p : Pty) (lato : LatoPty) : (p.att lato).pid ⊆ p.svegliaTutti.2 := by
  intro q there
  rw [svegliaTutti, mem_append, mem_append]
  cases lato with
  | ingresso => exact .inl (.inl there)
  | uscita => exact .inl (.inr there)
  | spazio => exact .inr there

theorem lascia_att {master : Bool} : (p.lascia master).att lato = p.att lato := by
  rw [lascia]
  split <;> cases lato <;> rfl

include sana

theorem azzeraSeOrfana_sana : p.azzeraSeOrfana.Sana := by
  rw [azzeraSeOrfana]
  split
  · exact azzera_sana
  · exact sana

theorem Sana.chiudiLocked (master : Bool) :
    Mossa p (p.chiudiLocked master).1 (p.chiudiLocked master).2 salvi := by
  rw [Pty.chiudiLocked]
  split
  · exact Mossa.ferma sana
  apply Mossa.tutti (azzeraSeOrfana_sana (svegliaTutti_sana _))
  intro lato
  rw [← lascia_att]
  exact svegliaTutti_tutti _ lato

end Pty

end ExOs.Ipc
