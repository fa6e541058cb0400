import ExOs.Ext4.GiornaleCrash
import ExOs.Library.Runs

/-!
# Runs of a journaled volume with crashes

A machine mounts the volume, writes metadata blocks through the journal,
commits, and may stop anywhere in the commands of any of these; writes that no
flush has completed may be lost.
-/

namespace ExOs.Ext4.Gio

open ExOs.Library ExOs.Library.Buffer ExOs.Fs List

/-! ## The machine -/

/-- The disk, the journal while the volume is mounted, and the contents of the
volume after each transaction since the last mount. -/
structure Macchina where
  disco : Cached (Nat × Nat) UInt8
  giornale : Option Giornale
  prefissi : List Disco

inductive Operazione where
  | scrivi (n : Nat) (src : Buffer) (ora : Nat)
  | commit (ora : Nat)
  | monta

section

variable (m : Ext2Mount) (file : FileGiornale) (s : Macchina)

/-- The commands an operation gives the disk, and the journal after it. -/
def Operazione.esito : Operazione → List Comando × Option Giornale
  | .scrivi n src ora =>
    match s.giornale with
    | none => ([], none)
    | some g =>
      ((giornaleScrivi m g n src ora).1, some (giornaleScrivi m g n src ora).2.1)
  | .commit ora =>
    match s.giornale with
    | none => ([], none)
    | some g => ((Gio.commit m g ora).1, some (Gio.commit m g ora).2.1)
  | .monta =>
    match s.giornale with
    | none => rimonta m file s.disco.view
    | some g => ([], some g)

/-- The contents after the transactions so far and the one an operation
commits. -/
def Operazione.contenuti (op : Operazione) : List Disco :=
  match op with
  | .monta => s.prefissi
  | _ => s.prefissi ++ [(s.disco.run (op.esito m file s).1).view]

/-- An operation runs to its end, or the machine stops after `k` of its
commands and the disk keeps some of the pending writes. -/
inductive Evento where
  | completa (op : Operazione)
  | crash (op : Operazione) (k : Nat) (tenute : List Scrittura)

def Macchina.interrotta (op : Operazione) (k : Nat) : Cached (Nat × Nat) UInt8 :=
  s.disco.run ((op.esito m file s).1.take k)

def Macchina.passa : Evento → Macchina
  | .completa op =>
    { disco := s.disco.run (op.esito m file s).1
      giornale := (op.esito m file s).2
      prefissi :=
        match op, s.giornale with
        | .monta, none => [(s.disco.run (op.esito m file s).1).view]
        | _, _ => op.contenuti m file s }
  | .crash op k tenute =>
    { disco := { stable := Write.applyAll tenute (s.interrotta m file op k).stable, pending := [] }
      giornale := none
      prefissi := op.contenuti m file s }

/-- What a crash keeps is some of the pending writes, in their order. -/
def Macchina.Possibile : Evento → Prop
  | .completa _ => True
  | .crash op k tenute =>
    tenute.Sublist (s.interrotta m file op k).pending

def Passaggio (e : Evento) (s' : Macchina) : Prop :=
  s.Possibile m file e ∧ s' = s.passa m file e

theorem Passaggio.completa (op : Operazione) :
    Passaggio m file s (.completa op) (s.passa m file (.completa op)) :=
  ⟨trivial, rfl⟩

theorem Passaggio.crash {m : Ext2Mount} {file : FileGiornale} {s : Macchina}
    {op : Operazione} {k : Nat} {tenute : List Scrittura}
    (sublist : tenute.Sublist (s.interrotta m file op k).pending) :
    Passaggio m file s (.crash op k tenute) (s.passa m file (.crash op k tenute)) :=
  ⟨sublist, rfl⟩

def Montata : Prop :=
  ∃ d comandi g, rimonta m file d = (comandi, some g) ∧
    s.disco = Cached.run { stable := d, pending := [] } comandi ∧
    s.giornale = some g ∧ s.prefissi = [s.disco.view]

/-- The number of the next transaction on the disk is not near the end of the
32 bits. -/
def Macchina.Contata : Prop :=
  be32 (blocco s.disco.view (file.mappa 0)) 0x18 + 2 < 2 ^ 32

/-- A volume that is not mounted: the next mount succeeds, leaves nothing
pending, and outside the journal leaves the contents after one of the
transactions, marked. -/
def Macchina.Atomica : Prop :=
  s.giornale = none → s.Contata file →
    ∃ g d, (rimonta m file s.disco.view).2 = some g ∧
      s.disco.run (rimonta m file s.disco.view).1 = { stable := d, pending := [] } ∧
      ∃ c ∈ s.prefissi, ∀ n pos, Libero g n → d (n, pos) = segnato m c (n, pos)

/-- What a volume promises about its journal at the first mount: different
places for its blocks, the first of them inside it, the superblock elsewhere,
and no block of a transaction still to come. -/
structure Regolare (m : Ext2Mount) (g : Giornale) (d : Disco) : Prop where
  distinti : Distinti g
  primo : g.primo < g.maxlen
  superFuori : Libero g (superBlocco m)
  nuovo : ∀ log b, g.primo ≤ log → gioLeggi g d log = some b →
    be32 b 0 = gioMagia → be32 b 8 < g.seq

/-- What an operation may ask: a block outside the journal with, for the
superblock, `needs_recovery` set; and numbers that do not wrap. -/
def Operazione.Ammessa : Operazione → Prop
  | .scrivi n src _ =>
    ∀ g, s.giornale = some g → Ammissibile m g (n, src) ∧ g.seq + 1 < 2 ^ 32
  | .commit _ => ∀ g, s.giornale = some g → g.seq + 1 < 2 ^ 32
  | .monta => s.giornale = none → s.Contata file

/-- Operations as above, and crashes in order. -/
def Evento.Ammesso : Evento → Prop
  | .completa op => op.Ammessa m file s
  | .crash op k tenute =>
    op.Ammessa m file s ∧ ∀ g, s.giornale = some g → Ordinato g (s.interrotta m file op k) tenute

end

variable {m : Ext2Mount} {file : FileGiornale} {g₀ : Giornale}
  {jsb₀ jsb : Buffer} {seq : Nat} {slot : List (Nat × Buffer)}

/-- An operation changes the open transaction only, or commits it. -/
inductive Fatto (m : Ext2Mount) (g₀ : Giornale) (seq : Nat)
    (slot : List (Nat × Buffer)) (jsb : Buffer) :
    List Comando → Giornale → Prop where
  | niente (slot' : List (Nat × Buffer)) :
      (∀ s ∈ slot', Ammissibile m g₀ s) → slot'.length ≤ g₀.maxSlot →
      Fatto m g₀ seq slot jsb [] (con g₀ seq slot' jsb)
  | transazione (ora : Nat) (slot' : List (Nat × Buffer)) :
      slot ≠ [] → seq + 1 < 2 ^ 32 →
      (∀ s ∈ slot', Ammissibile m g₀ s) → slot'.length ≤ g₀.maxSlot →
      Fatto m g₀ seq slot jsb (comandiCommit m (con g₀ seq slot jsb) ora)
        (con g₀ (seq + 1) slot' (sommato g₀ 0 (jsbChiuso (con g₀ seq slot jsb))))

theorem commesso_con (word : seq + 1 < 2 ^ 32) : commesso (con g₀ seq slot jsb) =
      con g₀ (seq + 1) [] (sommato g₀ 0 (jsbChiuso (con g₀ seq slot jsb))) := by
  show { g₀ with
    seq := (seq + 1) % 2 ^ 32
    jsb := sommato g₀ 0 (jsbChiuso (con g₀ seq slot jsb))
    slot := [], guasto := false } = _
  rw [Nat.mod_eq_of_lt word]
  rfl

theorem sostituisci_spec {n : Nat} {src : Buffer} :
    ∀ {slot slot' : List (Nat × Buffer)}, sostituisci n src slot = some slot' →
      slot'.length = slot.length ∧ ∀ s ∈ slot', s ∈ slot ∨ s = (n, src) := by
  intro slot
  induction slot with
  | nil =>
    intro slot' replaced
    simp [sostituisci] at replaced
  | cons fst resto ih =>
    intro slot' replaced
    rw [sostituisci] at replaced
    split at replaced
    · rw [← Option.some.inj replaced]
      refine ⟨rfl, ?_⟩
      intro s mem
      rcases mem_cons.mp mem with isNew | later
      · exact .inr isNew
      · exact .inl (mem_cons_of_mem fst later)
    · obtain ⟨resto', inner, shape⟩ := Option.map_eq_some_iff.mp replaced
      obtain ⟨length, members⟩ := ih inner
      rw [← shape]
      refine ⟨by simp [length], ?_⟩
      intro s mem
      rcases mem_cons.mp mem with isFirst | later
      · exact .inl (isFirst ▸ mem_cons_self)
      · rcases members s later with old | new
        · exact .inl (mem_cons_of_mem fst old)
        · exact .inr new

section Pronto

variable {disk : Cached (Nat × Nat) UInt8} {c : Disco}

section

variable (imp : Impianto m file jsb₀ g₀) (ready : Pronto m g₀ jsb₀ seq slot jsb disk c)

include imp ready

theorem Pronto.commit_fatto (ne : slot ≠ []) (word : seq + 1 < 2 ^ 32) {ora : Nat} :
    Gio.commit m (con g₀ seq slot jsb) ora = (comandiCommit m (con g₀ seq slot jsb) ora,
        con g₀ (seq + 1) [] (sommato g₀ 0 (jsbChiuso (con g₀ seq slot jsb))), true) := by
  have room := ready.room imp
  rw [commit_eq imp.geometria.con room ne rfl
    (fun s mem => (ready.ammissibili s mem).1.1), commesso_con word]

theorem Pronto.fatto_commit (word : seq + 1 < 2 ^ 32) (ora : Nat) :
    Fatto m g₀ seq slot jsb (Gio.commit m (con g₀ seq slot jsb) ora).1
      (Gio.commit m (con g₀ seq slot jsb) ora).2.1 := by
  by_cases empty : slot = []
  · have nothing : Gio.commit m (con g₀ seq slot jsb) ora = ([], con g₀ seq slot jsb, true) := by
      rw [empty]
      rfl
    rw [nothing]
    exact .niente slot ready.ammissibili ready.posti
  · rw [ready.commit_fatto imp empty word]
    exact .transazione ora [] empty word (by simp) (Nat.zero_le _)

theorem Pronto.fatto_scrivi (word : seq + 1 < 2 ^ 32)
    {n : Nat} {src : Buffer} (ammissibile : Ammissibile m g₀ (n, src)) (ora : Nat) :
    Fatto m g₀ seq slot jsb (giornaleScrivi m (con g₀ seq slot jsb) n src ora).1
      (giornaleScrivi m (con g₀ seq slot jsb) n src ora).2.1 := by
  obtain ⟨_, _, slots⟩ := imp.room
  have record : (con g₀ seq slot jsb).slot = slot := rfl
  have room : (con g₀ seq slot jsb).maxSlot = g₀.maxSlot := rfl
  unfold giornaleScrivi
  rw [if_neg (show ¬ (con g₀ seq slot jsb).guasto = true by simp [con]), record, room]
  cases replaced : sostituisci n src slot with
  | some slot' =>
    obtain ⟨length, members⟩ := sostituisci_spec replaced
    apply Fatto.niente slot'
    · intro s mem
      rcases members s mem with old | new
      · exact ready.ammissibili s old
      · rw [new]
        exact ammissibile
    · rw [length]
      exact ready.posti
  | none =>
    by_cases full : slot.length ≥ g₀.maxSlot
    · have ne : slot ≠ [] := by
        intro empty
        rw [empty, length_nil] at full
        omega
      rw [if_pos full, ready.commit_fatto imp ne word]
      apply Fatto.transazione ora [(n, src)] ne word
      · intro s mem
        rw [mem_singleton.mp mem]
        exact ammissibile
      · rw [length_singleton]
        omega
    · rw [if_neg full]
      apply Fatto.niente (slot ++ [(n, src)])
      · intro s mem
        rcases mem_append.mp mem with old | new
        · exact ready.ammissibili s old
        · rw [mem_singleton.mp new]
          exact ammissibile
      · rw [length_append, length_singleton]
        omega

end

theorem Pronto.conSlot (ready : Pronto m g₀ jsb₀ seq slot jsb disk c) {slot' : List (Nat × Buffer)}
    (ammissibili : ∀ s ∈ slot', Ammissibile m g₀ s) (fits : slot'.length ≤ g₀.maxSlot) :
    Pronto m g₀ jsb₀ seq slot' jsb disk c :=
  { ready with ammissibili := ammissibili, posti := fits }

theorem Fatto.pronto (imp : Impianto m file jsb₀ g₀)
    (ready : Pronto m g₀ jsb₀ seq slot jsb disk c) {comandi : List Comando}
    {g : Giornale} (fatto : Fatto m g₀ seq slot jsb comandi g) :
    (∃ seq' slot' jsb' c', g = con g₀ seq' slot' jsb' ∧
        Pronto m g₀ jsb₀ seq' slot' jsb' (disk.run comandi) c' ∧
        (c' = c ∨ c' = (disk.run comandi).view)) ∧
      Cached.CrashSafe (Ordinato g₀) (fun d => Salvo m g₀ jsb₀ c d ∨
          Salvo m g₀ jsb₀ (disk.run comandi).view d) disk comandi := by
  cases fatto with
  | niente slot' ammissibili fits =>
    refine ⟨⟨seq, slot', jsb, c, rfl, ready.conSlot ammissibili fits, .inl rfl⟩, ?_⟩
    intro count kept sublist _
    rw [take_nil] at sublist ⊢
    exact .inl (ready.crash imp sublist)
  | transazione ora slot' ne word ammissibili fits =>
    exact ⟨⟨seq + 1, slot', _, _, rfl, (ready.commit imp ne word ora).conSlot ammissibili fits,
      .inr rfl⟩, ready.commit_sicuro imp ne word⟩

end Pronto

/-! ## The invariant -/

/-- Mounted, the journal is ready for the next operation; otherwise a mount
comes back to one of the contents. -/
def Macchina.Buona (m : Ext2Mount) (g₀ : Giornale) (s : Macchina) : Prop :=
  match s.giornale with
  | some g =>
    ∃ seq slot jsb, g = con g₀ seq slot jsb ∧
      ∃ c ∈ s.prefissi, Pronto m g₀ g₀.jsb seq slot jsb s.disco c
  | none =>
    s.disco.pending = [] ∧ ∃ c ∈ s.prefissi, Salvo m g₀ g₀.jsb c s.disco.stable

section Buona

variable {s : Macchina}

theorem Macchina.Buona.smontata (buona : s.Buona m g₀) (absent : s.giornale = none) :
    s.disco.pending = [] ∧ ∃ c ∈ s.prefissi, Salvo m g₀ g₀.jsb c s.disco.stable := by
  unfold Macchina.Buona at buona
  rw [absent] at buona
  exact buona

variable {g : Giornale} {op : Operazione}

theorem Macchina.Buona.montata (buona : s.Buona m g₀) (given : s.giornale = some g) :
    ∃ seq slot jsb, g = con g₀ seq slot jsb ∧
      ∃ c ∈ s.prefissi, Pronto m g₀ g₀.jsb seq slot jsb s.disco c := by
  unfold Macchina.Buona at buona
  rw [given] at buona
  exact buona

theorem Macchina.Buona.of_smontata (absent : s.giornale = none) (clean : s.disco.pending = [])
    (salva : ∃ c ∈ s.prefissi, Salvo m g₀ g₀.jsb c s.disco.stable) :
    s.Buona m g₀ := by
  unfold Macchina.Buona
  rw [absent]
  exact ⟨clean, salva⟩

theorem Macchina.Buona.of_montata (given : s.giornale = some g)
    (pronta : ∃ seq slot jsb, g = con g₀ seq slot jsb ∧
      ∃ c ∈ s.prefissi, Pronto m g₀ g₀.jsb seq slot jsb s.disco c) :
    s.Buona m g₀ := by
  unfold Macchina.Buona
  rw [given]
  exact pronta

/-- What an operation has to keep: the invariant at its end, and wherever it
crashes. -/
structure Macchina.Regge (m : Ext2Mount) (file : FileGiornale) (g₀ : Giornale)
    (s : Macchina) (op : Operazione) : Prop where
  completa : (s.passa m file (.completa op)).Buona m g₀
  crash : ∀ k tenute, tenute.Sublist (s.interrotta m file op k).pending →
    (∀ g, s.giornale = some g → Ordinato g (s.interrotta m file op k) tenute) →
    ∃ c ∈ op.contenuti m file s,
      Salvo m g₀ g₀.jsb c (Write.applyAll tenute (s.interrotta m file op k).stable)

section

variable (imp : Impianto m file g₀.jsb g₀)

include imp

theorem Macchina.Buona.montaggio (buona : s.Buona m g₀) (absent : s.giornale = none)
    (contata : s.Contata file) :
    s.disco = { stable := s.disco.view, pending := [] } ∧ ∃ c ∈ s.prefissi, ∃ jsb ws next,
        Montaggio m file g₀ g₀.jsb c s.disco.view jsb ws next := by
  obtain ⟨_, room, _⟩ := imp.room
  obtain ⟨clean, c, mem, salvo⟩ := buona.smontata absent
  have seen : s.disco.view = s.disco.stable := by
    unfold Cached.view
    rw [clean]
    rfl
  refine ⟨by rw [seen, ← clean], c, mem, ?_⟩
  unfold Macchina.Contata at contata
  rw [← imp.geometria.dentro 0 (by omega), seen] at contata
  rw [seen]
  exact salvo.monta imp contata

theorem Macchina.Buona.monta (buona : s.Buona m g₀) (absent : s.giornale = none)
    (contata : s.Contata file) :
    ∃ g d, (rimonta m file s.disco.view).2 = some g ∧ s.disco.run (rimonta m file s.disco.view).1 =
        { stable := d, pending := [] } ∧
      (∃ next jsb, g = con g₀ next [] jsb ∧
        Pronto m g₀ g₀.jsb next [] jsb { stable := d, pending := [] } d) ∧
      ∃ c ∈ s.prefissi, ∀ n pos, Libero g n → d (n, pos) = segnato m c (n, pos) := by
  obtain ⟨clean, c, mem, jsb, ws, next, montaggio⟩ := buona.montaggio imp absent contata
  obtain ⟨d, ran, fermo, contents⟩ := montaggio.fine imp
  refine ⟨con g₀ next [] (sommato g₀ 0 (conInizio jsb next 0)), d, ?_, ?_, ?_, c, mem, contents⟩
  · rw [montaggio.esito]
  · rw [← ran]
    exact congrArg (Cached.run · (rimonta m file s.disco.view).1) clean
  · refine ⟨next, _, rfl, montaggio.stampo.conInizio next 0, by simp,
      Nat.zero_le _, montaggio.parola, fermo.recover, Simili.refl d, fermo.fresco,
      [], rfl, .pulita fermo.jsbSu⟩

theorem Macchina.Buona.fatta {g' : Giornale} (given : s.giornale = some g)
    {comandi : List Comando} (res : op.esito m file s = (comandi, some g'))
    (contents : op.contenuti m file s = s.prefissi ++ [(s.disco.run (op.esito m file s).1).view])
    (kept : (s.passa m file (.completa op)).prefissi = op.contenuti m file s)
    (shape : g = con g₀ seq slot jsb) (fatto : Fatto m g₀ seq slot jsb comandi g')
    (pronta : ∃ c ∈ s.prefissi, Pronto m g₀ g₀.jsb seq slot jsb s.disco c) :
    s.Regge m file g₀ op := by
  obtain ⟨c, mem, ready⟩ := pronta
  obtain ⟨⟨seq', slot', jsb', c', shape', pronto', isContent⟩, safe⟩ := fatto.pronto imp ready
  rw [res] at contents
  have pre : c ∈ op.contenuti m file s := by
    rw [contents]
    exact mem_append_left _ mem
  have after : (s.disco.run comandi).view ∈ op.contenuti m file s := by
    rw [contents]
    exact mem_append_right _ mem_cons_self
  refine ⟨?_, ?_⟩
  · apply Macchina.Buona.of_montata (g := g')
    · show (op.esito m file s).2 = some g'
      rw [res]
    · refine ⟨seq', slot', jsb', shape', c', ?_, ?_⟩
      · rw [kept]
        rcases isContent with old | new
        · rw [old]
          exact pre
        · rw [new]
          exact after
      · show Pronto m g₀ g₀.jsb seq' slot' jsb' (s.disco.run (op.esito m file s).1) c'
        rw [res]
        exact pronto'
  · intro k tenute sublist ordinato
    have guarded := ordinato g given
    unfold Macchina.interrotta at sublist guarded ⊢
    rw [res] at sublist guarded ⊢
    rw [shape] at guarded
    rcases safe k tenute sublist guarded with old | new
    · exact ⟨c, pre, old⟩
    · exact ⟨_, after, new⟩

end

theorem Macchina.Buona.ferma (buona : s.Buona m g₀) (absent : s.giornale = none)
    (nothing : op.esito m file s = ([], none))
    (contents : ∀ c ∈ s.prefissi, c ∈ op.contenuti m file s)
    (kept : (s.passa m file (.completa op)).prefissi = op.contenuti m file s) :
    s.Regge m file g₀ op := by
  obtain ⟨clean, c, mem, salvo⟩ := buona.smontata absent
  have same : (s.passa m file (.completa op)).disco = s.disco := by
    show s.disco.run (op.esito m file s).1 = s.disco
    rw [nothing]
    rfl
  refine ⟨?_, ?_⟩
  · apply Macchina.Buona.of_smontata
    · show (op.esito m file s).2 = none
      rw [nothing]
    · rw [same]
      exact clean
    · rw [same, kept]
      exact ⟨c, contents c mem, salvo⟩
  · intro k tenute sublist _
    unfold Macchina.interrotta at sublist ⊢
    rw [nothing, take_nil, Cached.run_nil] at sublist ⊢
    rw [clean] at sublist
    rw [sublist_nil.mp sublist]
    exact ⟨c, contents c mem, salvo⟩

section

variable (imp : Impianto m file g₀.jsb g₀)

include imp

theorem Macchina.Buona.rimontata (buona : s.Buona m g₀) (absent : s.giornale = none)
    (contata : s.Contata file) : s.Regge m file g₀ .monta := by
  have res : Operazione.monta.esito m file s = rimonta m file s.disco.view := by
    unfold Operazione.esito
    rw [absent]
  refine ⟨?_, ?_⟩
  · obtain ⟨g, d, found, ran, ⟨next, jsb, shape, ready⟩, _⟩ := buona.monta imp absent contata
    have disk : (s.passa m file (.completa .monta)).disco = { stable := d, pending := [] } := by
      show s.disco.run (Operazione.monta.esito m file s).1 = _
      rw [res, ran]
    have contents : (s.passa m file (.completa .monta)).prefissi = [d] := by
      unfold Macchina.passa
      rw [absent]
      dsimp only
      rw [res, ran]
      rfl
    apply Macchina.Buona.of_montata (g := g)
    · show (Operazione.monta.esito m file s).2 = some g
      rw [res, found]
    · rw [disk, contents]
      exact ⟨next, [], jsb, shape, d, mem_cons_self, ready⟩
  · intro k tenute sublist _
    obtain ⟨clean, c, mem, jsb, ws, next, montaggio⟩ := buona.montaggio imp absent contata
    have safe : Cached.CrashSafe (fun _ _ => True) (Salvo m g₀ g₀.jsb c)
        { stable := s.disco.view, pending := [] }
        (rimonta m file s.disco.view).1 :=
      montaggio.sicuro imp
    unfold Macchina.interrotta at sublist ⊢
    rw [res, congrArg Cached.run clean] at sublist ⊢
    exact ⟨c, mem, safe k tenute sublist trivial⟩

theorem Macchina.Buona.gia_montata (given : s.giornale = some g)
    (pronta : ∃ seq slot jsb, g = con g₀ seq slot jsb ∧
      ∃ c ∈ s.prefissi, Pronto m g₀ g₀.jsb seq slot jsb s.disco c) :
    s.Regge m file g₀ .monta := by
  have nothing : Operazione.monta.esito m file s = ([], some g) := by
    unfold Operazione.esito
    rw [given]
  have contents : (s.passa m file (.completa .monta)).prefissi = s.prefissi := by
    unfold Macchina.passa
    rw [given]
    rfl
  refine ⟨?_, ?_⟩
  · apply Macchina.Buona.of_montata (g := g)
    · show (Operazione.monta.esito m file s).2 = some g
      rw [nothing]
    · have disk : (s.passa m file (.completa .monta)).disco = s.disco := by
        show s.disco.run (Operazione.monta.esito m file s).1 = s.disco
        rw [nothing]
        rfl
      rw [disk, contents]
      exact pronta
  · intro k tenute sublist _
    obtain ⟨seq, slot, jsb, _, c, mem, ready⟩ := pronta
    unfold Macchina.interrotta at sublist ⊢
    rw [nothing, take_nil, Cached.run_nil] at sublist ⊢
    exact ⟨c, mem, ready.crash imp sublist⟩

theorem Macchina.Buona.regge (buona : s.Buona m g₀) (ammessa : op.Ammessa m file s) :
    s.Regge m file g₀ op := by
  cases found : s.giornale with
  | none =>
    cases op with
    | scrivi n src ora =>
      refine buona.ferma found ?_ ?_ rfl
      · unfold Operazione.esito
        rw [found]
      · intro c mem
        exact mem_append_left _ mem
    | commit ora =>
      refine buona.ferma found ?_ ?_ rfl
      · unfold Operazione.esito
        rw [found]
      · intro c mem
        exact mem_append_left _ mem
    | monta => exact buona.rimontata imp found (ammessa found)
  | some g =>
    obtain ⟨seq, slot, jsb, shape, pronta⟩ := buona.montata found
    obtain ⟨c, mem, ready⟩ := id pronta
    cases op with
    | scrivi n src ora =>
      obtain ⟨ammissibile, word⟩ := ammessa g found
      rw [shape] at ammissibile word
      refine Macchina.Buona.fatta imp found ?_ rfl rfl shape
        (ready.fatto_scrivi imp word ammissibile ora) pronta
      unfold Operazione.esito
      rw [found, shape]
    | commit ora =>
      have word := ammessa g found
      rw [shape] at word
      refine Macchina.Buona.fatta imp found ?_ rfl rfl shape
        (ready.fatto_commit imp word ora) pronta
      unfold Operazione.esito
      rw [found, shape]
    | monta =>
      exact Macchina.Buona.gia_montata imp found ⟨seq, slot, jsb, shape, pronta⟩

theorem Macchina.Buona.passa (buona : s.Buona m g₀) {e : Evento} (possibile : s.Possibile m file e)
    (ammesso : e.Ammesso m file s) : (s.passa m file e).Buona m g₀ := by
  cases e with
  | completa op => exact (buona.regge imp ammesso).completa
  | crash op k tenute =>
    apply Macchina.Buona.of_smontata rfl rfl
    exact (buona.regge imp ammesso.1).crash k tenute possibile ammesso.2

end

end Buona

theorem Montata.buona {s : Macchina} (montata : Montata m file s) : ∃ g, s.giornale = some g ∧
      (Regolare m g s.disco.stable → Impianto m file g.jsb g ∧ s.Buona m g) := by
  obtain ⟨d, comandi, g, found, disk, given, contents⟩ := montata
  obtain ⟨g₀, jsb, next, prima, x, aperto, word, isCommands, shape⟩ := giornaleMonta_some found
  refine ⟨g, given, ?_⟩
  intro regular
  have fields := sommato_conInizio_fields g₀ jsb next 0
  rw [Nat.mod_eq_of_lt word, Nat.zero_mod] at fields
  have again := giornaleApri_stampo aperto ((Stampo.refl aperto).conInizio next 0)
  rw [fields.1, ← shape] at again
  have isJsb : g.jsb = sommato g₀ 0 (conInizio jsb next 0) := by
    rw [shape]
    rfl
  rw [← isJsb] at again
  have imp : Impianto m file g.jsb g := { regular with aperto := again }
  refine ⟨imp, ?_⟩
  obtain ⟨positive, room, _⟩ := imp.room
  have short : 0 < g.maxlen := by omega
  have mapped : fisico g 0 ≠ 0 := by
    rw [imp.geometria.dentro 0 short]
    exact imp.geometria.mappati 0 short
  rw [isCommands, Cached.run_append, run_chiude] at disk
  have read : gioLeggi g s.disco.stable 0 = some g.jsb := by
    rw [disk, gioLeggi_eq imp.geometria short, isJsb]
    rw [blocco_apply_of_untouched fun pos =>
      segnaRecover_untouched _ (regular.superFuori 0 mapped), shape]
    exact congrArg some (blocco_scriviTutto ..)
  have numbers : be32 g.jsb 0x18 = next ∧ be32 g.jsb 0x1C = 0 := by
    rw [isJsb]
    exact fields
  have isSeq : g.seq = next := by
    rw [shape]
    rfl
  have same : s.disco.view = s.disco.stable := by
    rw [disk]
    rfl
  apply Macchina.Buona.of_montata given
  refine ⟨next, [], g.jsb, ?_, s.disco.view, ?_, ?_⟩
  · rw [← numbers.1]
    exact giornaleApri_con again
  · rw [contents]
    exact mem_cons_self
  · refine ⟨Stampo.refl again, by simp, Nat.zero_le _, word, ?_, ?_, ?_, [], ?_,
      .pulita ⟨g.jsb, read, Stampo.refl again, numbers⟩⟩
    · rw [disk]
      exact recover_segnaRecover _ _
    · rw [same]
      exact Simili.refl _
    · intro log b lower block magic
      rw [← isSeq]
      exact .inl (regular.nuovo log b lower block magic)
    · rw [disk]
      rfl

/-- A machine right after the mount of a regular volume. -/
def Avvio (m : Ext2Mount) (file : FileGiornale) (s : Macchina) : Prop :=
  Montata m file s ∧ ∀ g, s.giornale = some g → Regolare m g s.disco.stable

/-- Wherever a run of admitted operations stops, the next mount comes back to
the volume after one of its transactions. -/
theorem giornale_atomico (m : Ext2Mount) (file : FileGiornale) (s : Macchina)
    (reached : Reached (Avvio m file)
      (fun s e s' => Passaggio m file s e s' ∧ Evento.Ammesso m file s e) s) :
    s.Atomica m file := by
  have invariant : ∃ g₀, Impianto m file g₀.jsb g₀ ∧ s.Buona m g₀ := by
    apply Reached.invariant (fun s : Macchina => ∃ g₀, Impianto m file g₀.jsb g₀ ∧ s.Buona m g₀)
      _ _ reached
    · intro s avvio
      obtain ⟨g, given, buona⟩ := avvio.1.buona
      exact ⟨g, buona (avvio.2 g given)⟩
    · intro pre event after good step
      obtain ⟨g₀, imp, buona⟩ := good
      obtain ⟨⟨possibile, isAfter⟩, ammesso⟩ := step
      rw [isAfter]
      exact ⟨g₀, imp, buona.passa imp possibile ammesso⟩
  obtain ⟨g₀, imp, buona⟩ := invariant
  intro absent contata
  obtain ⟨g, d, mounted, ran, _, contents⟩ := buona.monta imp absent contata
  exact ⟨g, d, mounted, ran, contents⟩

/-! ### Two crashes of the small volume -/

def discoDiProva : Disco := (scriviTutto 100 jsbDiProva).apply fun _ => 0

/-- The small volume, empty and right after its mount. -/
def macchinaDiProva : Macchina :=
  let montaggio := rimonta volumeDiProva fileDiProva discoDiProva
  let disco := Cached.run { stable := discoDiProva, pending := [] } montaggio.1
  { disco := disco, giornale := montaggio.2, prefissi := [disco.view] }

theorem libero_prova {g : Giornale}
    (corse : g.corse = [{ log := 0, fis := 100, n := 64 }]) {n : Nat}
    (away : n < 100 ∨ 164 ≤ n) : Libero g n := by
  intro log mapped
  unfold fisico at mapped ⊢
  rw [corse] at mapped ⊢
  simp only [fisicoCorse] at mapped ⊢
  split at mapped
  · next inside =>
    rw [if_pos inside]
    omega
  · exact absurd rfl mapped

theorem macchinaDiProva_giornale : ∃ g, macchinaDiProva.giornale = some g ∧
      g.corse = [{ log := 0, fis := 100, n := 64 }] ∧ g.primo = 1 ∧
      g.maxlen = 64 ∧ g.seq = 7 := by
  have outcome : (macchinaDiProva.giornale.map fun g => (g.corse, g.primo, g.maxlen, g.seq)) =
        some ([{ log := 0, fis := 100, n := 64 }], 1, 64, 7) := by
    decide +kernel
  obtain ⟨g, given, fields⟩ := Option.map_eq_some_iff.mp outcome
  simp only [Prod.mk.injEq] at fields
  exact ⟨g, given, fields.1, fields.2.1, fields.2.2.1, fields.2.2.2⟩

theorem macchinaDiProva_avvio : Avvio volumeDiProva fileDiProva macchinaDiProva := by
  obtain ⟨g, given, corse, primo, maxlen, _⟩ := macchinaDiProva_giornale
  refine ⟨⟨discoDiProva, (rimonta volumeDiProva fileDiProva
    discoDiProva).1, g, ?_, rfl, given, rfl⟩, ?_⟩
  · rw [← given]
    rfl
  · intro g' some'
    have same : g' = g := Option.some.inj (some'.symm.trans given)
    rw [same]
    have place : ∀ log, fisico g log = if log < 64 then 100 + log else 0 := by
      intro log
      unfold fisico
      rw [corse]
      simp [fisicoCorse]
    refine ⟨?_, ?_, ?_, ?_⟩
    · intro i j iShort jShort equal
      rw [maxlen] at iShort jShort
      rw [place, place, if_pos iShort, if_pos jShort] at equal
      omega
    · rw [primo, maxlen]
      decide
    · exact libero_prova corse (.inl (by decide))
    · intro log b lower read magic
      have blank : ∀ log < 64, 1 ≤ log →
          be32 (blocco macchinaDiProva.disco.stable (100 + log)) 0 ≠ gioMagia := by
        decide +kernel
      unfold gioLeggi at read
      rw [place] at read
      split at read
      · next short =>
        rw [if_neg (by omega)] at read
        rw [← Option.some.inj read] at magic
        exact absurd magic (blank log short (by omega))
      · simp at read

/-- One block written, and a crash when the transaction is in the journal. -/
def crashOrdinato : Macchina :=
  (macchinaDiProva.passa volumeDiProva fileDiProva
    (.completa (.scrivi 200 (fun _ => 1) 0))).passa volumeDiProva fileDiProva
      (.crash (.commit 0) 6 [])

theorem giornale_atomico_ordinato :
    crashOrdinato.giornale = none ∧ crashOrdinato.Contata fileDiProva ∧
      crashOrdinato.Atomica volumeDiProva fileDiProva := by
  refine ⟨rfl, ?_, ?_⟩
  · unfold Macchina.Contata
    decide +kernel
  · obtain ⟨g, given, corse, _, _, number⟩ := macchinaDiProva_giornale
    have scrivi : (Evento.completa (.scrivi 200 (fun _ => 1) 0)).Ammesso
        volumeDiProva fileDiProva macchinaDiProva := by
      intro g' some'
      have same : g' = g := Option.some.inj (some'.symm.trans given)
      rw [same, number]
      have inside : NelVolume volumeDiProva 200 := by
        unfold NelVolume
        decide
      refine ⟨⟨⟨inside, libero_prova corse (.inr (by decide))⟩, ?_⟩, by decide⟩
      intro isSuper
      nomatch isSuper
    have commit : (Evento.crash (.commit 0) 6 []).Ammesso
        volumeDiProva fileDiProva (macchinaDiProva.passa volumeDiProva fileDiProva
          (.completa (.scrivi 200 (fun _ => 1) 0))) := by
      refine ⟨?_, fun _ _ _ => .inl rfl⟩
      intro g' some'
      have numbers : (macchinaDiProva.passa volumeDiProva fileDiProva
          (.completa (.scrivi 200 (fun _ => 1) 0))).giornale.map (fun g => g.seq) = some 7 := by
        decide +kernel
      rw [some', Option.map_some] at numbers
      rw [Option.some.inj numbers]
      decide
    exact giornale_atomico _ _ _ (.next (.next (.start macchinaDiProva_avvio)
        ⟨Passaggio.completa _ _ _ _, scrivi⟩) ⟨Passaggio.crash (nil_sublist _), commit⟩)

/-- The second transaction is being written and of its blocks the disk keeps
the copy only, while the first is still open on the disk. -/
def primaDelCrash : Macchina :=
  ((macchinaDiProva.passa volumeDiProva fileDiProva
    (.completa (.scrivi 200 (fun _ => 1) 0))).passa volumeDiProva fileDiProva
      (.completa (.commit 0))).passa volumeDiProva fileDiProva
        (.completa (.scrivi 201 (fun _ => 2) 0))

def copiaTenuta : List Scrittura :=
  (primaDelCrash.interrotta volumeDiProva fileDiProva (.commit 0) 3).pending.drop 3

def crashDisordinato : Macchina :=
  primaDelCrash.passa volumeDiProva fileDiProva (.crash (.commit 0) 3 copiaTenuta)

/-- The mount puts the second transaction's block in the place of the
first's. -/
theorem giornale_atomico_disordinato : Reached (Avvio volumeDiProva fileDiProva)
        (Passaggio volumeDiProva fileDiProva) crashDisordinato ∧
      (crashDisordinato.disco.run (rimonta volumeDiProva fileDiProva
        crashDisordinato.disco.view).1).stable (200, 0) = 2 ∧
      (∀ c ∈ crashDisordinato.prefissi, c (200, 0) ≠ 2) ∧
      ¬ crashDisordinato.Atomica volumeDiProva fileDiProva := by
  have wrong : (crashDisordinato.disco.run (rimonta volumeDiProva
      fileDiProva crashDisordinato.disco.view).1).stable (200, 0) = 2 := by
    decide +kernel
  have absent : (crashDisordinato.prefissi.all fun c => c (200, 0) != 2) = true := by decide +kernel
  have contents : ∀ c ∈ crashDisordinato.prefissi, c (200, 0) ≠ 2 := by
    intro c mem
    exact bne_iff_ne.mp (all_eq_true.mp absent c mem)
  refine ⟨?_, wrong, contents, ?_⟩
  · exact .next (.next (.next (.next (.start macchinaDiProva_avvio)
      (.completa _ _ _ _)) (.completa _ _ _ _)) (.completa _ _ _ _))
      (.crash (drop_sublist _ _))
  · intro atomica
    have contata : crashDisordinato.Contata fileDiProva := by
      unfold Macchina.Contata
      decide +kernel
    obtain ⟨g, d, mounted, ran, c, mem, same⟩ := atomica rfl contata
    have corse : (rimonta volumeDiProva fileDiProva
        crashDisordinato.disco.view).2.map (fun g => g.corse) =
          some [{ log := 0, fis := 100, n := 64 }] := by
      decide +kernel
    rw [mounted, Option.map_some] at corse
    rw [ran] at wrong
    have equal := same 200 0 (libero_prova (Option.some.inj corse) (.inr (by decide)))
    rw [segnato_outside c (by decide)] at equal
    exact contents c mem (equal.symm.trans wrong)

end ExOs.Ext4.Gio
