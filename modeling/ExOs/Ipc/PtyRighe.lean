import ExOs.Ipc.PtyUscita

/-!
# The lines of a terminal

What the slave should read in canonical mode: the lines completed by a newline,
each as edited.  `Redazione` is that editor, without bounds.
-/

namespace ExOs.Ipc

open ExOs.Library List

/-! ## The editor -/

/-- What a byte does in canonical mode. -/
inductive Tasto where
  | interrompe
  | fine
  | cancella
  | uccide
  | invio
  | testo
  | nulla
deriving DecidableEq

def PtyTermios.classe (t : PtyTermios) (c : UInt8) : Tasto :=
  if t.isig ∧ t.vintr ≠ 0 ∧ c = t.vintr then .interrompe
  else if t.veof ≠ 0 ∧ c = t.veof then .fine
  else if c = 8 ∨ c = 127 ∨ t.verase ≠ 0 ∧ c = t.verase then .cancella
  else if t.vkill ≠ 0 ∧ c = t.vkill then .uccide
  else if c = 10 then .invio
  else if 32 ≤ c ∧ c ≠ 127 then .testo
  else .nulla

/-- The line being typed and the lines completed. -/
structure Redazione where
  riga : List UInt8
  righe : List (List UInt8)

namespace Redazione

def vuota : Redazione := { riga := [], righe := [] }

def tasto (r : Redazione) (t : PtyTermios) (c : UInt8) : Redazione :=
  match t.classe c with
  | .cancella => { r with riga := r.riga.dropLast }
  | .uccide => { r with riga := [] }
  | .invio => { riga := [], righe := r.righe ++ [r.riga ++ [10]] }
  | .testo => { r with riga := r.riga ++ [c] }
  | _ => r

def batti (r : Redazione) (battuto : PtyTermios × UInt8) : Redazione :=
  match Pty.traduci battuto.1 battuto.2 with
  | none => r
  | some c => r.tasto battuto.1 c

/-- A completed line is text and one newline at its end. -/
structure Intera (r : Redazione) : Prop where
  riga : 10 ∉ r.riga
  righe : ∀ riga ∈ r.righe, ∃ testo, riga = testo ++ [10] ∧ 10 ∉ testo

theorem classe_testo {t : PtyTermios} {c : UInt8} (text : t.classe c = .testo) : c ≠ 10 := by
  intro newline
  rw [PtyTermios.classe] at text
  repeat' split at text
  all_goals simp at text

theorem Intera.tasto {r : Redazione} (whole : r.Intera) (t : PtyTermios) (c : UInt8) :
    (r.tasto t c).Intera := by
  rw [Redazione.tasto]
  cases isClass : t.classe c with
  | uccide => exact ⟨not_mem_nil, whole.righe⟩
  | cancella => exact ⟨fun mem => whole.riga (dropLast_subset _ mem), whole.righe⟩
  | invio =>
    refine ⟨not_mem_nil, ?_⟩
    intro riga mem
    rcases mem_append.mp mem with old | new
    · exact whole.righe riga old
    · exact ⟨r.riga, mem_singleton.mp new, whole.riga⟩
  | testo =>
    refine ⟨?_, whole.righe⟩
    intro mem
    rcases mem_append.mp mem with old | new
    · exact whole.riga old
    · exact classe_testo isClass (mem_singleton.mp new).symm
  | _ => exact whole

theorem Intera.foldl_batti {battuti : List (PtyTermios × UInt8)} :
    ∀ r : Redazione, r.Intera → (battuti.foldl batti r).Intera := by
  induction battuti with
  | nil => exact fun _ whole => whole
  | cons battuto battuti ih =>
    intro r whole
    apply ih (r.batti battuto)
    rw [batti]
    split
    · exact whole
    · exact whole.tasto battuto.1 _

end Redazione

/-! ## The line discipline -/

namespace Anello

theorem contenuto_foldl_metti {byte : List UInt8} : ∀ a : Anello, a.quanti + byte.length ≤ ptyDim →
      (byte.foldl metti a).contenuto = a.contenuto ++ byte ∧
        (byte.foldl metti a).quanti = a.quanti + byte.length := by
  induction byte with
  | nil => exact fun a _ => ⟨(append_nil _).symm, rfl⟩
  | cons c byte ih =>
    intro a room
    rw [length_cons] at room
    have more : a.quanti < ptyDim := by omega
    have counted := quanti_metti_room more c
    obtain ⟨isContenuto, isQuanti⟩ := ih (a.metti c) (by omega)
    rw [foldl_cons, isContenuto, contenuto_metti more, append_assoc, length_cons]
    exact ⟨rfl, by omega⟩

end Anello

namespace Pty

variable {p p' : Pty}

/-- A section that leaves the line and the ring towards the slave alone. -/
def Illesa (p p' : Pty) : Prop := p'.ingresso = p.ingresso ∧ p'.riga = p.riga

theorem Illesa.trans {p'' : Pty} (first : Illesa p p') (second : Illesa p' p'') : Illesa p p'' :=
  ⟨second.1.trans first.1, second.2.trans first.2⟩

theorem eco_illesa {c : UInt8} : Illesa p (p.eco c) := by
  rw [eco]
  split
  · split <;> exact ⟨rfl, rfl⟩
  · exact ⟨rfl, rfl⟩

theorem ecoStr_illesa {s : List UInt8} : ∀ p : Pty, Illesa p (p.ecoStr s) := by
  induction s with
  | nil => exact fun p => ⟨rfl, rfl⟩
  | cons c s ih =>
    exact fun p => eco_illesa.trans (ih (p.eco c))

theorem cancella_riga {mostra : Bool} : (p.cancella mostra).ingresso = p.ingresso ∧
      (p.cancella mostra).riga = p.riga.dropLast := by
  rw [cancella]
  split
  · exact ecoStr_illesa _
  · exact ⟨rfl, rfl⟩

theorem uccidi_riga {n : Nat} : ∀ p : Pty, p.riga.length ≤ n →
      (p.uccidi n).ingresso = p.ingresso ∧ (p.uccidi n).riga = [] := by
  induction n with
  | zero =>
    intro p short
    exact ⟨rfl, length_eq_zero_iff.mp (Nat.le_zero.mp short)⟩
  | succ n ih =>
    intro p short
    obtain ⟨sameRing, isRiga⟩ := cancella_riga
    have shorter : (p.cancella p.t.echok).riga.length ≤ n := by
      rw [isRiga, length_dropLast]
      omega
    obtain ⟨isRing, absent⟩ := ih _ shorter
    exact ⟨isRing.trans sameRing, absent⟩

/-- The room that a byte typed in canonical mode needs. -/
def Cabe (p : Pty) (c : UInt8) : Prop :=
  (p.t.classe c = .invio → p.ingresso.quanti + p.riga.length + 1 ≤ ptyDim) ∧
    (p.t.classe c = .testo → p.riga.length < ptyRigaMax - 1)

instance Cabe.decidable (p : Pty) (c : UInt8) : Decidable (p.Cabe c) :=
  inferInstanceAs (Decidable (_ ∧ _))

/-- The pair as the editor has it, with the bytes that the slave has read. -/
structure Redatta (p : Pty) (r : Redazione) (letti : List UInt8) : Prop where
  riga : p.riga = r.riga
  ingresso : letti ++ p.ingresso.contenuto = r.righe.flatten
  entro : p.ingresso.quanti ≤ ptyDim
  corta : p.riga.length < ptyRigaMax

variable {letti : List UInt8} {r : Redazione} {dati : List UInt8}

section

variable (redatta : Redatta p r letti)

include redatta

theorem Redatta.illesa (same : Illesa p p') : Redatta p' r letti := by
  obtain ⟨sameRing, sameLine⟩ := same
  refine ⟨?_, ?_, ?_, ?_⟩
  · rw [sameLine]
    exact redatta.riga
  · rw [sameRing]
    exact redatta.ingresso
  · rw [sameRing]
    exact redatta.entro
  · rw [sameLine]
    exact redatta.corta

theorem Redatta.accorcia
    (sameRing : p'.ingresso = p.ingresso) {riga : List UInt8} (isRiga : p'.riga = riga)
    (shorter : riga.length ≤ p.riga.length) : Redatta p' { r with riga := riga } letti := by
  refine ⟨isRiga, ?_, ?_, ?_⟩
  · rw [sameRing]
    exact redatta.ingresso
  · rw [sameRing]
    exact redatta.entro
  · rw [isRiga]
    exact Nat.lt_of_le_of_lt shorter redatta.corta

theorem Redatta.invio (room : p.ingresso.quanti + p.riga.length + 1 ≤ ptyDim)
    (same : Illesa { p with riga := p.riga ++ [10] } p') :
    Redatta p'.consegnaRiga { riga := [], righe := r.righe ++ [r.riga ++ [10]] } letti := by
  obtain ⟨sameRing, sameLine⟩ := same
  have fits : p.ingresso.quanti + (p.riga ++ [10]).length ≤ ptyDim := by
    rw [length_append]
    exact room
  obtain ⟨isContenuto, isQuanti⟩ := Anello.contenuto_foldl_metti p.ingresso fits
  have isIngresso : p'.consegnaRiga.ingresso = (p.riga ++ [10]).foldl Anello.metti p.ingresso := by
    rw [consegnaRiga, sameRing, sameLine]
  refine ⟨rfl, ?_, ?_, Nat.zero_lt_succ _⟩
  · rw [isIngresso, isContenuto, ← append_assoc, redatta.ingresso, redatta.riga,
      flatten_append, flatten_singleton]
  · rw [isIngresso, isQuanti]
    exact fits

theorem Redatta.tasto (canonical : p.t.icanon = true) {c : UInt8}
    (kept : p.t.classe c = .interrompe → p.t.noflsh = true) (room : p.Cabe c) :
    Redatta (p.tasto c).pty (r.tasto p.t c) letti := by
  have cooked : ¬(!p.t.icanon) = true := by simp [canonical]
  by_cases interrupts : p.t.isig ∧ p.t.vintr ≠ 0 ∧ c = p.t.vintr
  · have isClass : p.t.classe c = .interrompe := if_pos interrupts
    have keeps : (p.ecoStr [94, 67, 10]).t.noflsh = true := by
      rw [((Battuta.stabile p).ecoStr _ (Battuta.refl p [])).modi]
      exact kept isClass
    rw [Pty.tasto, if_pos interrupts, Redazione.tasto, isClass]
    dsimp only
    rw [if_pos keeps]
    exact redatta.illesa (ecoStr_illesa p)
  by_cases ends : p.t.veof ≠ 0 ∧ c = p.t.veof
  · have isClass : p.t.classe c = .fine := by rw [PtyTermios.classe, if_neg interrupts, if_pos ends]
    rw [Pty.tasto, if_neg interrupts, if_neg cooked, if_pos ends, Redazione.tasto, isClass]
    split
    · exact redatta.illesa ⟨rfl, rfl⟩
    · exact redatta
  by_cases erases : c = 8 ∨ c = 127 ∨ p.t.verase ≠ 0 ∧ c = p.t.verase
  · have isClass : p.t.classe c = .cancella := by
      rw [PtyTermios.classe, if_neg interrupts, if_neg ends, if_pos erases]
    rw [Pty.tasto, if_neg interrupts, if_neg cooked, if_neg ends, if_pos erases, Redazione.tasto,
      isClass]
    have shorter : r.riga.dropLast.length ≤ p.riga.length := by
      rw [redatta.riga, length_dropLast]
      exact Nat.sub_le _ _
    split
    · next nothing =>
      refine redatta.accorcia rfl ?_ shorter
      rw [← redatta.riga, nothing]
      rfl
    · obtain ⟨sameRing, isRiga⟩ := cancella_riga
      rw [redatta.riga] at isRiga
      exact redatta.accorcia sameRing isRiga shorter
  by_cases kills : p.t.vkill ≠ 0 ∧ c = p.t.vkill
  · have isClass : p.t.classe c = .uccide := by
      rw [PtyTermios.classe, if_neg interrupts, if_neg ends, if_neg erases, if_pos kills]
    rw [Pty.tasto, if_neg interrupts, if_neg cooked, if_neg ends, if_neg erases, if_pos kills,
      Redazione.tasto, isClass]
    obtain ⟨sameRing, isRiga⟩ := uccidi_riga p (Nat.le_refl _)
    exact redatta.accorcia sameRing isRiga (Nat.zero_le _)
  by_cases completes : c = 10
  · have isClass : p.t.classe c = .invio := by
      rw [PtyTermios.classe, if_neg interrupts, if_neg ends, if_neg erases, if_neg kills,
        if_pos completes]
    rw [Pty.tasto, if_neg interrupts, if_neg cooked, if_neg ends, if_neg erases, if_neg kills,
      if_pos completes, Redazione.tasto, isClass]
    rw [if_pos redatta.corta]
    exact redatta.invio (room.1 isClass) eco_illesa
  by_cases text : 32 ≤ c ∧ c ≠ 127
  · have isClass : p.t.classe c = .testo := by
      rw [PtyTermios.classe, if_neg interrupts, if_neg ends, if_neg erases, if_neg kills,
        if_neg completes, if_pos text]
    have short := room.2 isClass
    rw [Pty.tasto, if_neg interrupts, if_neg cooked, if_neg ends, if_neg erases, if_neg kills,
      if_neg completes, if_pos ⟨text.1, text.2, short⟩, Redazione.tasto, isClass]
    have longer : Redatta { p with riga := p.riga ++ [c] } { r with riga := r.riga ++ [c] }
      letti := by
      refine ⟨?_, redatta.ingresso, redatta.entro, ?_⟩
      · rw [redatta.riga]
      · rw [length_append]
        exact Nat.add_lt_of_lt_sub short
    exact longer.illesa eco_illesa
  · have isClass : p.t.classe c = .nulla := by
      rw [PtyTermios.classe, if_neg interrupts, if_neg ends, if_neg erases, if_neg kills,
        if_neg completes, if_neg text]
    rw [Pty.tasto, if_neg interrupts, if_neg cooked, if_neg ends, if_neg erases, if_neg kills,
      if_neg completes, if_neg fun both => text ⟨both.1, both.2.1⟩, Redazione.tasto, isClass]
    exact redatta

end

/-- A string typed finds room for each byte when its turn comes. -/
def Capiente (p : Pty) : List UInt8 → Prop
  | [] => True
  | c :: dati => (∀ k ∈ traduci p.t c, p.Cabe k) ∧ (p.disciplina c).pty.Capiente dati

instance Capiente.decidable : (p : Pty) → (dati : List UInt8) → Decidable (p.Capiente dati)
  | _, [] => isTrue trivial
  | p, c :: dati =>
    have := Capiente.decidable (p.disciplina c).pty dati
    inferInstanceAs (Decidable (_ ∧ _))

theorem Redatta.batti {t : PtyTermios} (canonical : t.icanon = true) (dati : List UInt8)
    (kept : ∀ c ∈ dati, ∀ k, traduci t c = some k → t.classe k = .interrompe → t.noflsh = true) :
    ∀ (e : Effetto) (r : Redazione), e.pty.t = t → Redatta e.pty r letti → e.pty.Capiente dati →
      Redatta (dati.foldl batti e).pty
        ((dati.map fun c => (t, c)).foldl Redazione.batti r) letti := by
  induction dati with
  | nil => exact fun _ _ _ redatta _ => redatta
  | cons c dati ih =>
    intro e r isT redatta room
    have later : ∀ d ∈ dati, ∀ k, traduci t d = some k → t.classe k = .interrompe →
        t.noflsh = true := fun d mem => kept d (mem_cons_of_mem c mem)
    apply ih later (Pty.batti e c) (r.batti (t, c))
    · exact ((Battuta.stabile e.pty).batti [c] e (Battuta.refl _ _)).modi.trans isT
    · show Redatta (e.pty.disciplina c).pty _ letti
      rw [disciplina, Redazione.batti, isT]
      cases isKey : traduci t c with
      | none => exact redatta
      | some k =>
        have typed := redatta.tasto (c := k) (by rw [isT]; exact canonical)
          (by rw [isT]; exact kept c mem_cons_self k isKey)
          (room.1 k (by rw [isT]; exact isKey))
        rw [isT] at typed
        exact typed
    · exact room.2

theorem Redatta.scriviMaster (redatta : Redatta p r letti)
    (canonical : p.t.icanon = true)
    (kept : ∀ c ∈ dati, ∀ k, traduci p.t c = some k → p.t.classe k = .interrompe →
      p.t.noflsh = true)
    (room : p.Capiente dati) :
    Redatta (p.scriviMaster dati).pty ((dati.map fun c => (p.t, c)).foldl Redazione.batti r)
      letti := by
  have typed := Redatta.batti canonical dati kept ⟨p, [], []⟩ r rfl redatta room
  apply typed.illesa
  rw [Pty.scriviMaster]
  constructor
  · rw [svegliaSe_byte.2.1, svegliaSe_byte.2.1]
  · rw [svegliaSe_byte.2.2.1, svegliaSe_byte.2.2.1]

theorem entro_stabile : Stabile fun p _ => p.ingresso.quanti ≤ ptyDim where
  eco := by
    intro p _ bounded c
    rw [eco_illesa.1]
    exact bounded
  riga := fun bounded _ => bounded
  metti := fun bounded _ => Anello.metti_entro bounded
  svuota := fun _ => Nat.zero_le _
  fine := fun bounded => bounded

theorem scriviMaster_entro (bounded : p.ingresso.quanti ≤ ptyDim) :
    (p.scriviMaster dati).pty.ingresso.quanti ≤ ptyDim := by
  rw [Pty.scriviMaster, svegliaSe_byte.2.1, svegliaSe_byte.2.1]
  exact entro_stabile.batti dati ⟨p, [], []⟩ bounded

theorem ioctl_illesa {richiesta : Richiesta} (modes : ∀ t, richiesta = .tcsets t → t.icanon = true)
    (noFlush : ∀ t, richiesta ≠ .tcsetsf t)
    (kept : ∀ arg, richiesta = .tcflsh arg → arg ≠ 0 ∧ arg ≠ 2) :
    Illesa p (p.ioctl richiesta).pty := by
  cases richiesta with
  | tcsetsf t => exact absurd rfl (noFlush t)
  | tiocsptlck blocca => exact ⟨rfl, rfl⟩
  | tcsets t =>
    have stays : ¬((p.t.icanon = true) ∧ (!t.icanon) = true) := by simp [modes t rfl]
    rw [ioctl, tcsets, if_neg stays]
    obtain ⟨_, sameRing, sameLine, _⟩ := svegliaSe_byte
    exact ⟨sameRing, sameLine⟩
  | tcflsh arg =>
    obtain ⟨nz, notTwo⟩ := kept arg rfl
    rw [ioctl]
    rw [if_neg (show ¬(arg = 0 ∨ arg = 2) by rintro (zero | two) <;> contradiction)]
    split <;> exact ⟨rfl, rfl⟩

theorem turno_illesa {pid : Nat} {ticks : UInt32} {scaduto : Bool}
    {chiamata : ChiamataPty} (noRead : ∀ n l, chiamata ≠ .leggiSlave n l) {u : Turno}
    (isTurno : u = p.turno pid ticks scaduto chiamata) :
    Illesa p u.pty ∧ u.pty.usata = p.usata ∧ ∀ n l, u.chiamata ≠ .leggiSlave n l := by
  have still : Illesa p p := ⟨rfl, rfl⟩
  cases chiamata with
  | leggiSlave n l => exact absurd rfl (noRead n l)
  | leggiMaster n =>
    obtain ⟨isIo, sameUse, _, same⟩ := leggiMaster_turno p pid ticks scaduto isTurno
    exact ⟨same, sameUse, by simp [isIo]⟩
  | scriviSlave id dati scritti =>
    rw [isTurno, turno]
    split
    · exact ⟨still, rfl, by simp⟩
    rw [scriviSlave]
    split
    · exact ⟨still, rfl, by simp⟩
    split
    · exact ⟨still, rfl, by simp⟩
    dsimp only
    split
    · exact ⟨⟨rfl, rfl⟩, rfl, by simp⟩
    obtain ⟨_, sameRing, sameLine, sameUse, isIo, _⟩ := aspetta_byte { p with
        uscita := (versa p.t.onlcr p.uscita (dati.drop scritti)).1
        attOut := p.attOut.sveglia } .spazio pid p.attOut.pid
      (.scriviSlave id dati
        (dati.length - (versa p.t.onlcr p.uscita (dati.drop scritti)).2.length)) rfl
    exact ⟨⟨sameRing, sameLine⟩, sameUse, by simp [isIo]⟩
  | poll master =>
    obtain ⟨isIo, sameUse, _, same⟩ := poll_turno p pid ticks scaduto isTurno
    exact ⟨same, sameUse, by simp [isIo]⟩
  | _ =>
    rw [isTurno]
    exact ⟨still, rfl, by simp [turno]⟩

end Pty

/-! ## Runs -/

namespace Terminale

open Pty

variable {c c' : Terminale} {chiamata : ChiamataPty} {pid : Nat} {u : Turno}

/-- The editor after all that has been typed. -/
def redazione (c : Terminale) : Redazione := c.battuti.foldl Redazione.batti Redazione.vuota

def Righe (c : Terminale) : Prop := c.pty.usata = true → Redatta c.pty c.redazione c.lettiSlave

theorem annota_battuti {r : Ritorno} :
    (c.annota chiamata r).battuti = c.battuti ∧ ((∀ n l, chiamata ≠ .leggiSlave n l) →
        (c.annota chiamata r).lettiSlave = c.lettiSlave) := by
  cases chiamata <;> cases r <;> first
    | exact ⟨rfl, fun _ => rfl⟩
    | exact ⟨rfl, fun other => absurd rfl (other _ _)⟩

theorem dopo_battuti : (c.dopo pid u).battuti = c.battuti ∧
      ((∀ n l, u.chiamata ≠ .leggiSlave n l) → (c.dopo pid u).lettiSlave = c.lettiSlave) := by
  rw [Terminale.dopo]
  split
  · exact annota_battuti
  · exact ⟨rfl, fun _ => rfl⟩

theorem dopo_lettiSlave {a : Anello}
    (isChiamata : ∃ n l, u.chiamata = .leggiSlave n l) (taken : Preso a u.pty.ingresso u.esito) :
    (c.dopo pid u).lettiSlave ++ u.pty.ingresso.contenuto = c.lettiSlave ++ a.contenuto := by
  obtain ⟨p', svegliati, chiamata, esito⟩ := u
  obtain ⟨n, l, isRead⟩ := isChiamata
  dsimp only at isRead taken ⊢
  rw [isRead]
  rcases taken.2 with ⟨byte, ret, joined⟩ | ⟨noReturn, same⟩
  · rw [ret, ← joined, ← append_assoc]
    rfl
  rw [same]
  cases esito with
  | torna r =>
    cases r with
    | letti byte => exact absurd rfl (noReturn byte)
    | _ => rfl
  | _ => rfl

theorem avvia_ferma : Ferma c (c.avvia pid chiamata) := by
  cases chiamata <;> exact ⟨fun used => ⟨used, rfl, rfl, rfl⟩, rfl, rfl, rfl⟩

/-- The pair stays in canonical mode while something is typed, and nothing
flushes the input. -/
def Canonico (c : Terminale) : EventoPty → Prop
  | .scriviMaster dati =>
    c.pty.t.icanon = true ∧
      ∀ byte ∈ dati, ∀ k ∈ traduci c.pty.t byte,
        c.pty.t.classe k = .interrompe → c.pty.t.noflsh = true
  | .ioctl (.tcsets t) => t.icanon = true
  | .ioctl (.tcsetsf _) => False
  | .ioctl (.tcflsh arg) => arg ≠ 0 ∧ arg ≠ 2
  | .ctl (.modo _) => False
  | _ => True

/-- Moreover each byte of text finds less than a full line, and each newline a
ring with room for its line. -/
def CanonicoCapiente (c : Terminale) (evento : EventoPty) : Prop :=
  c.Canonico evento ∧ ∀ dati, evento = .scriviMaster dati → c.pty.Capiente dati

section

variable (pre : c.Righe)

include pre

theorem Righe.ferma (still : Ferma c c') : c'.Righe := by
  intro used
  obtain ⟨usedBefore, _, sameRing, sameLine⟩ := still.pty used
  rw [redazione, still.battuti, still.lettiSlave]
  exact (pre usedBefore).illesa ⟨sameRing, sameLine⟩

theorem Righe.legge (pid n : Nat) (l : Option Lettura) (scaduto : Bool) :
    (c.dopo pid (c.pty.turno pid c.ticks scaduto (.leggiSlave n l))).Righe := by
  generalize isTurno : c.pty.turno pid c.ticks scaduto (.leggiSlave n l) = u
  obtain ⟨isChiamata, sameUse, taken, _, sameLine⟩ :=
    leggiSlave_turno c.pty pid c.ticks scaduto isTurno.symm
  intro used
  rw [dopo_pty, sameUse] at used
  have redatta := pre used
  rw [redazione, dopo_battuti.1, dopo_pty]
  refine ⟨sameLine.trans redatta.riga, ?_, Nat.le_trans taken.1 redatta.entro, ?_⟩
  · exact (dopo_lettiSlave isChiamata taken).trans redatta.ingresso
  · rw [sameLine]
    exact redatta.corta

theorem Righe.altra (pid : Nat) (scaduto : Bool) (noRead : ∀ n l, chiamata ≠ .leggiSlave n l) :
    (c.dopo pid (c.pty.turno pid c.ticks scaduto chiamata)).Righe := by
  generalize isTurno : c.pty.turno pid c.ticks scaduto chiamata = u
  obtain ⟨same, sameUse, stillNoRead⟩ := turno_illesa noRead isTurno.symm
  obtain ⟨sameTyped, sameRead⟩ := dopo_battuti
  intro used
  rw [dopo_pty, sameUse] at used
  rw [redazione, sameTyped, sameRead stillNoRead, dopo_pty]
  exact (pre used).illesa same

theorem Righe.avanza (pid : Nat) (memoria scaduto : Bool) :
    (c.avanza pid memoria scaduto).1.Righe := by
  rcases avanza_casi with quiet | ⟨_, _, isSection⟩ | reopened
  · exact pre.ferma quiet.toFerma
  · rw [isSection]
    cases (c.proc pid).chiamata with
    | leggiSlave n l => exact pre.legge pid n l scaduto
    | _ => exact pre.altra pid scaduto (by simp)
  · rw [reopened]
    exact fun _ => ⟨rfl, rfl, Nat.zero_le _, Nat.zero_lt_succ _⟩

theorem Righe.passo {evento : EventoPty}
    (admitted : c.CanonicoCapiente evento) : (c.passo evento).Righe := by
  obtain ⟨canonical, room⟩ := admitted
  cases evento with
  | chiama pid chiamata =>
    rw [Terminale.passo]
    split
    · split
      · exact pre
      · exact pre.ferma avvia_ferma
    · exact pre
  | avanza pid memoria scaduto => exact pre.avanza pid memoria scaduto
  | scriviMaster dati =>
    rw [Terminale.passo]
    split
    · next used =>
      intro _
      have typed := (pre used).scriviMaster canonical.1 canonical.2 (room dati rfl)
      rw [redazione, ← foldl_append] at typed
      exact typed
    · exact pre
  | ioctl richiesta =>
    rw [Terminale.passo]
    split
    · next used =>
      have same : Illesa c.pty (c.pty.ioctl richiesta).pty := by
        apply ioctl_illesa
        · intro t isModes
          rw [isModes] at canonical
          exact canonical
        · intro t isFlush
          rw [isFlush] at canonical
          exact canonical
        · intro arg isFlush
          rw [isFlush] at canonical
          exact canonical
      exact fun _ => (pre used).illesa same
    · exact pre
  | ctl comando =>
    rw [Terminale.passo]
    cases comando with
    | modo arg => exact canonical.elim
    | fg pid =>
      split
      · exact pre.ferma ⟨fun used => ⟨used, rfl, rfl, rfl⟩, rfl, rfl, rfl⟩
      · exact pre
  | _ => exact pre.ferma (passo_quieta (by simp)).toFerma

end

theorem Corsa.righe (corsa : Corsa CanonicoCapiente c) : c.Righe := Reached.invariant Righe
    (fun _ start used => absurd (start.1.symm.trans used) (by simp))
    (fun pre evento after good taken => by
      rw [taken.2]
      exact good.passo taken.1) corsa

theorem redazione_intera (c : Terminale) : c.redazione.Intera :=
  Redazione.Intera.foldl_batti Redazione.vuota ⟨not_mem_nil, by simp [Redazione.vuota]⟩

/-- As long as each line finds room, what the slave has read and what is in the
ring are the completed lines, one after the other, each of them text as edited
and one newline. -/
theorem corsa_righe (corsa : Corsa CanonicoCapiente c) (used : c.pty.usata = true) :
    c.lettiSlave ++ c.pty.ingresso.contenuto = c.redazione.righe.flatten ∧
      c.pty.riga = c.redazione.riga ∧
      ∀ riga ∈ c.redazione.righe, ∃ testo, riga = testo ++ [10] ∧ 10 ∉ testo :=
  ⟨(corsa.righe used).ingresso, (corsa.righe used).riga, c.redazione_intera.righe⟩

theorem senzaEco_icanon : senzaEco.icanon = true := by decide

def battuta : Terminale := muto.passo (.scriviMaster [97, 98, 127, 99, 10])

def leggeRiga : List EventoPty :=
  [.chiama 3 (.leggiSlave 10 none), .avanza 3 true false, .avanza 3 true false]

def rigaCorretta : Terminale := leggeRiga.foldl Terminale.passo battuta

theorem corsa_righe_rigaCorretta : rigaCorretta.lettiSlave = [97, 99, 10] ∧
      rigaCorretta.lettiSlave ++ rigaCorretta.pty.ingresso.contenuto =
        rigaCorretta.redazione.righe.flatten := by
  have opened : Corsa CanonicoCapiente muto :=
    muto_corsa (by simp [apreMuto, CanonicoCapiente, Canonico, senzaEco_icanon])
  have typed : Corsa CanonicoCapiente battuta := by
    apply opened.poi
    refine ⟨⟨by decide, by decide +kernel⟩, ?_⟩
    rintro dati isDati
    injection isDati with isDati
    rw [← isDati]
    decide +kernel
  have corsa : Corsa CanonicoCapiente rigaCorretta :=
    typed.esegui leggeRiga (by simp [leggeRiga, CanonicoCapiente, Canonico])
  exact ⟨by decide +kernel, (corsa_righe corsa (by decide +kernel)).1⟩

def cinqueRighe : List (List UInt8) := List.replicate 5 (List.replicate 254 97 ++ [10])

theorem mem_cinqueRighe {byte : UInt8} (mem : byte ∈ cinqueRighe.flatten) :
    byte = 97 ∨ byte = 10 := by
  obtain ⟨riga, isRiga, member⟩ := mem_flatten.mp mem
  rw [eq_of_mem_replicate isRiga] at member
  rcases mem_append.mp member with text | newline
  · exact Or.inl (eq_of_mem_replicate text)
  · exact Or.inr (mem_singleton.mp newline)

def nessunoLegge : Terminale := muto.passo (.scriviMaster cinqueRighe.flatten)

theorem passo_scriviMaster (used : c.pty.usata = true) {dati : List UInt8} :
    (c.passo (.scriviMaster dati)).pty = (c.pty.scriviMaster dati).pty ∧
      (c.passo (.scriviMaster dati)).lettiSlave = c.lettiSlave := by
  rw [Terminale.passo, if_pos used]
  exact ⟨rfl, rfl⟩

/-- Not all of them fit: the last one loses its newline. -/
theorem riga_troncata :
    ∃ c, Corsa Canonico c ∧ c.pty.usata = true ∧ c.redazione.righe = cinqueRighe ∧
      (c.lettiSlave ++ c.pty.ingresso.contenuto).length ≤ ptyDim ∧
      c.lettiSlave ++ c.pty.ingresso.contenuto ≠ c.redazione.righe.flatten := by
  have corsa : Corsa Canonico nessunoLegge := by
    apply (muto_corsa (by simp [apreMuto, Canonico, senzaEco_icanon])).poi
    refine ⟨by decide, fun byte mem => ?_⟩
    -- two bytes are typed, however many times
    rcases mem_cinqueRighe mem with isText | isNewline
    · rw [isText]
      decide +kernel
    · rw [isNewline]
      decide +kernel
  have isRighe : nessunoLegge.redazione.righe = cinqueRighe := by decide +kernel
  obtain ⟨isPty, isLetti⟩ := passo_scriviMaster (c := muto) (by decide)
  have used : nessunoLegge.pty.usata = true := by
    rw [nessunoLegge, isPty, scriviMaster_usata]
    decide
  have within :
      (nessunoLegge.lettiSlave ++ nessunoLegge.pty.ingresso.contenuto).length ≤ ptyDim := by
    have nothing : muto.lettiSlave = [] := by decide
    rw [nessunoLegge, isLetti, isPty, nothing, nil_append, Anello.contenuto, length_ring]
    exact scriviMaster_entro (by decide)
  refine ⟨nessunoLegge, corsa, used, isRighe, within, ?_⟩
  intro same
  rw [same, isRighe] at within
  revert within
  decide +kernel

end Terminale

end ExOs.Ipc
