import ExOs.Ext4.GiornaleMount

/-!
# Crashes between and inside commits

`Pronto` is what a mounted journal keeps true of the disk and of the pending
writes.  A commit is four epochs; whatever a crash in one of them leaves, a
mount comes back to the contents before the commit or to those after it.
-/

namespace ExOs.Ext4.Gio

open ExOs.Library ExOs.Library.Buffer ExOs.Fs List Write

variable {m : Ext2Mount} {file : FileGiornale} {g₀ : Giornale}
  {jsb₀ jsb : Buffer} {seq : Nat} {slot : List (Nat × Buffer)} {d : Disco}

/-! ## What the records of one journal share -/

theorem Geometria.con (geo : Geometria m file g₀) : Geometria m file (con g₀ seq slot jsb) :=
  { geo with }

theorem descriviDa_con {numero n : Nat} {voci : List (Nat × Buffer)} :
    ∀ i off d, descriviDa m (con g₀ seq slot jsb) numero n voci i off d =
      descriviDa m g₀ numero n voci i off d := by
  induction voci with
  | nil =>
    intro i off d
    rfl
  | cons s resto ih =>
    intro i off d
    simp only [descriviDa, ih]
    rfl

theorem EDescrittore.con {b : Buffer} {numero : Nat} {voci : List (Nat × Buffer)}
    (descrittore : EDescrittore m (con g₀ seq slot jsb) numero voci b) :
    EDescrittore m g₀ numero voci b := by
  obtain ⟨conto, spazio, numeri, d, zeri, scritti⟩ := descrittore.tag
  refine ⟨descrittore.magia, descrittore.tipo, descrittore.numero,
    descrittore.somma, conto, spazio, numeri, d, zeri, ?_⟩
  intro pos lower upper
  rw [← descriviDa_con]
  exact scritti pos lower upper

theorem Copie.con {voci : List (Nat × Buffer)} :
    ∀ {log : Nat}, Copie (con g₀ seq slot jsb) d voci log → Copie g₀ d voci log := by
  induction voci with
  | nil =>
    intro log _
    trivial
  | cons s resto ih =>
    intro log copie
    exact ⟨copie.1, ih copie.2⟩

theorem ultimaCopia_con {voci : List (Nat × Buffer)} :
    ∀ log, ultimaCopia (con g₀ seq slot jsb) voci log = ultimaCopia g₀ voci log := by
  induction voci with
  | nil =>
    intro log
    rfl
  | cons s resto ih =>
    intro log
    exact ih (avanti g₀ log)

theorem Transazione.con {pos numero : Nat} {voci : List (Nat × Buffer)}
    (transazione : Transazione m (con g₀ seq slot jsb) d pos numero voci) :
    Transazione m g₀ d pos numero voci := by
  obtain ⟨⟨b, read, descritta⟩, copiata, c, closing, chiusa⟩ := transazione
  rw [ultimaCopia_con] at closing
  exact ⟨⟨b, read, descritta.con⟩, copiata.con,
    c, closing, chiusa.magia, chiusa.tipo, chiusa.numero, chiusa.somma⟩

/-- The four epochs of a commit: the blocks before the commit block, the commit
block, the blocks in their places, the journal superblock that closes it. -/
def comandiCommit (m : Ext2Mount) (g : Giornale) (ora : Nat) : List Comando :=
  ((vociPrima m g).map (fun v => .write (scritturaLog g v)) ++ [.flush]) ++
    ((([voceCommit m g ora].map fun v => .write (scritturaLog g v)) ++ [.flush]) ++
      (((g.slot.map fun s => .write (posto s)) ++ [.flush]) ++
        [(0, jsbChiuso g)].map fun v => .write (scritturaLog g v)))

theorem commit_eq {g : Giornale} (geo : Geometria m file g)
    (room : g.primo + g.slot.length + 2 ≤ g.maxlen) (nonzero : g.slot ≠ [])
    (sano : g.guasto = false) (inside : ∀ s ∈ g.slot, NelVolume m s.1) {ora : Nat} :
    commit m g ora = (comandiCommit m g ora, commesso g, true) := by
  have posa : commitPosa m g =
      ((g.slot.map fun s => Command.write (posto s)) ++ [Command.flush]).map some := by
    unfold commitPosa
    rw [map_append, map_map]
    congr 1
    apply map_congr_left
    intro s mem
    rw [alSuoPosto_eq (inside s mem)]
    rfl
  have comandi : commitScrive m g ora ++ commitPosa m g ++
      [(gioScrivi g 0 (jsbChiuso g)).map .write] = (comandiCommit m g ora).map some := by
    rw [commitScrive_eq geo room, posa, gioScrivi_eq geo (by omega)]
    simp [comandiCommit, comandiScrive]
  unfold commit
  rw [if_neg (by simpa using nonzero), if_neg (by simp [sano]), comandi, esegui_map_some]
  rfl

/-- Writes to journal blocks, of which a crash may keep some. -/
def scritture (g₀ : Giornale) (voci : List (Nat × Buffer)) : List Scrittura :=
  voci.map (scritturaLog g₀)

section Voci

variable {voci : List (Nat × Buffer)}

theorem scritture_libero (geo : Geometria m file g₀) {n : Nat} (free : Libero g₀ n) {pos : Nat} :
    ∀ (d : Disco), (∀ v ∈ voci, v.1 < g₀.maxlen) →
      applyAll (scritture g₀ voci) d (n, pos) = d (n, pos) := by
  induction voci with
  | nil =>
    intro d _
    rfl
  | cons fst resto ih =>
    intro d short
    have later := ih ((scritturaLog g₀ fst).apply d) fun v mem => short v (mem_cons_of_mem fst mem)
    exact later.trans (scritturaLog_libero geo (short fst mem_cons_self) d free pos)

section

variable (imp : Impianto m file jsb₀ g₀)

include imp

theorem gioLeggi_dopo (log : Nat) :
    ∀ (d : Disco), (∀ v ∈ voci, v.1 < g₀.maxlen) → log ∉ voci.map Prod.fst ∧
          gioLeggi g₀ (applyAll (scritture g₀ voci) d) log = gioLeggi g₀ d log ∨
        ∃ v ∈ voci, v.1 = log ∧ gioLeggi g₀ (applyAll (scritture g₀ voci) d) log =
            some (sommato g₀ log v.2) := by
  induction voci with
  | nil =>
    intro d _
    exact .inl ⟨not_mem_nil, rfl⟩
  | cons fst resto ih =>
    intro d short
    have shortFirst := short fst mem_cons_self
    rcases ih ((scritturaLog g₀ fst).apply d) (fun v mem => short v (mem_cons_of_mem fst mem)) with
      ⟨absent, same⟩ | ⟨v, mem, isLog, read⟩
    · by_cases here : fst.1 = log
      · refine .inr ⟨fst, mem_cons_self, here, same.trans ?_⟩
        rw [← here]
        exact gioLeggi_scritto imp.geometria shortFirst d
      refine .inl ⟨?_, same.trans ?_⟩
      · rw [map_cons, mem_cons]
        rintro (isFirst | later)
        · exact here isFirst.symm
        · exact absent later
      · exact gioLeggi_altro imp shortFirst (fun other => here other.symm)
    · exact .inr ⟨v, mem_cons_of_mem fst mem, isLog, read⟩

theorem recover_scritture (short : ∀ v ∈ voci, v.1 < g₀.maxlen)
    (recover : Recover (superblocco m d)) :
    Recover (superblocco m (applyAll (scritture g₀ voci) d)) := by
  rw [superblocco_congr fun _ => scritture_libero imp.geometria imp.superFuori d short]
  exact recover

theorem Simili.scritture {d c : Disco}
    (short : ∀ v ∈ voci, v.1 < g₀.maxlen) (simili : Simili m g₀ d c) :
    Simili m g₀ (applyAll (scritture g₀ voci) d) c :=
  simili.of_uguali imp fun _ _ free => scritture_libero imp.geometria free d short

end

end Voci

/-- The journal superblock of a mounted journal: an empty journal, or the last
transaction with the write that closes it still pending. -/
inductive Coda (m : Ext2Mount) (g₀ : Giornale) (jsb₀ : Buffer) (seq : Nat)
    (d : Disco) : List (Nat × Buffer) → Prop where
  | pulita : JsbSu g₀ jsb₀ d seq 0 → Coda m g₀ jsb₀ seq d []
  | sospesa (prima : Nat) (jsb : Buffer) (slot : List (Nat × Buffer)) :
      prima + 1 = seq → Stampo g₀ jsb₀ jsb →
      JsbSu g₀ jsb₀ d prima g₀.primo →
      Transazione m g₀ d g₀.primo prima slot →
      slot ≠ [] → slot.length ≤ g₀.maxSlot →
      (∀ s ∈ slot, Ammissibile m g₀ s) →
      applyAll (slot.map posto) d = d →
      Coda m g₀ jsb₀ seq d [(0, conInizio jsb seq 0)]

/-- What a mounted journal keeps true: `c` is the volume after the last
transaction. -/
structure Pronto (m : Ext2Mount) (g₀ : Giornale) (jsb₀ : Buffer) (seq : Nat)
    (slot : List (Nat × Buffer)) (jsb : Buffer)
    (disk : Cached (Nat × Nat) UInt8) (c : Disco) : Prop where
  stampo : Stampo g₀ jsb₀ jsb
  ammissibili : ∀ s ∈ slot, Ammissibile m g₀ s
  posti : slot.length ≤ g₀.maxSlot
  parola : seq < 2 ^ 32
  recover : Recover (superblocco m disk.stable)
  simili : Simili m g₀ disk.stable c
  fresco : Fresco m g₀ disk.stable seq
  coda : ∃ voci, disk.pending = scritture g₀ voci ∧ Coda m g₀ jsb₀ seq disk.stable voci

/-- A journal block that a commit writes before its commit block. -/
def Provvisoria (m : Ext2Mount) (g₀ : Giornale) (seq : Nat) (jsb : Buffer)
    (v : Nat × Buffer) : Prop :=
  v.1 < g₀.maxlen ∧
    (v = (0, conInizio jsb seq g₀.primo) ∨ g₀.primo < v.1 ∧ be32 v.2 0 ≠ gioMagia ∨
      v.1 = g₀.primo ∧ ∃ slot, slot ≠ [] ∧ slot.length ≤ g₀.maxSlot ∧
        EDescrittore m g₀ seq slot v.2)

theorem Coda.zero {voci : List (Nat × Buffer)}
    (coda : Coda m g₀ jsb₀ seq d voci) : ∀ v ∈ voci, v.1 = 0 := by
  intro v mem
  cases coda with
  | pulita _ => simp at mem
  | sospesa prima jsb slot => rw [mem_singleton.mp mem]

variable {disk : Cached (Nat × Nat) UInt8} {c : Disco}

section

variable (imp : Impianto m file jsb₀ g₀) {d : Disco}

include imp

theorem Coda.corta {voci : List (Nat × Buffer)} (coda : Coda m g₀ jsb₀ seq d voci) :
    ∀ v ∈ voci, v.1 < g₀.maxlen := by
  obtain ⟨_, room, _⟩ := imp.room
  intro v mem
  rw [coda.zero v mem]
  omega

theorem Fresco.scritture (jsb : Buffer) {tenute : List (Nat × Buffer)} (fresco : Fresco m g₀ d seq)
    (given : ∀ v ∈ tenute, v.1 < g₀.maxlen ∧ (v.1 = 0 ∨ Provvisoria m g₀ seq jsb v)) :
    Fresco m g₀ (applyAll (scritture g₀ tenute) d) seq := by
  obtain ⟨pos, _, _⟩ := imp.room
  intro log b lower read magic
  rcases gioLeggi_dopo imp log d (fun v mem => (given v mem).1) with
    ⟨_, same⟩ | ⟨v, mem, isLog, written⟩
  · exact fresco log b lower (same.symm.trans read) magic
  · have isB : v.2 = b := by
      rw [sommato_of_pos (by omega)] at written
      exact Option.some.inj (written.symm.trans read)
    rcases (given v mem).2 with zero | ⟨_, isSuper | ⟨_, plain⟩ | fst⟩
    · omega
    · rw [isSuper] at isLog
      omega
    · rw [isB] at plain
      exact absurd magic plain
    · obtain ⟨isFirst, slot, nonzero, fits, descrittore⟩ := fst
      rw [isB] at descrittore
      exact .inr ⟨descrittore.numero, by omega, slot, nonzero, fits, descrittore⟩

theorem Impianto.primo_parola : g₀.primo < 2 ^ 32 := by
  have short := imp.geometria.corto
  have lt := imp.primo
  omega

section

variable (ready : Pronto m g₀ jsb₀ seq slot jsb disk c)

include ready

theorem Pronto.tenute {coda tenute : List (Nat × Buffer)}
    (isCoda : Coda m g₀ jsb₀ seq disk.stable coda)
    (given : ∀ v ∈ tenute, v ∈ coda ∨ Provvisoria m g₀ seq jsb v) :
    (∀ v ∈ tenute, v.1 < g₀.maxlen) ∧
      Fresco m g₀ (applyAll (scritture g₀ tenute) disk.stable) seq ∧
      Recover (superblocco m (applyAll (scritture g₀ tenute) disk.stable)) ∧
      Simili m g₀ (applyAll (scritture g₀ tenute) disk.stable) c := by
  have kinds : ∀ v ∈ tenute, v.1 < g₀.maxlen ∧ (v.1 = 0 ∨ Provvisoria m g₀ seq jsb v) := by
    intro v mem
    rcases given v mem with inCoda | new
    · exact ⟨isCoda.corta imp v inCoda, .inl (isCoda.zero v inCoda)⟩
    · exact ⟨new.1, .inr new⟩
  have short := fun v mem => (kinds v mem).1
  exact ⟨short, ready.fresco.scritture imp jsb kinds,
    recover_scritture imp short ready.recover, ready.simili.scritture imp short⟩

/-- Before the commit block a mount comes back to the contents before the
commit, whatever is kept of the journal writes: unless of two transactions
only copies of the second are kept. -/
theorem Pronto.salvo {coda tenute : List (Nat × Buffer)}
    (isCoda : Coda m g₀ jsb₀ seq disk.stable coda)
    (given : ∀ v ∈ tenute, v ∈ coda ∨ Provvisoria m g₀ seq jsb v)
    (ordinate : coda ≠ [] → tenute = [] ∨ ∃ v ∈ tenute, v.1 = 0 ∨ v.1 = g₀.primo) :
    Salvo m g₀ jsb₀ c (applyAll (scritture g₀ tenute) disk.stable) := by
  obtain ⟨pos, room, _⟩ := imp.room
  obtain ⟨short, fresco, recover, simili⟩ := ready.tenute imp isCoda given
  have codaZero := isCoda.zero
  refine ⟨recover, ?_⟩
  rcases gioLeggi_dopo imp 0 disk.stable short with
    ⟨noSuper, same⟩ | ⟨v, mem, isZero, read⟩
  · cases isCoda with
    | pulita jsbSu => exact .vuoto seq (jsbSu.congr same) fresco simili
    | sospesa prima jsb' slot' next stampo jsbSu transazione nonzero fits out posti =>
      have jsbSu' := jsbSu.congr same
      rcases gioLeggi_dopo imp g₀.primo disk.stable short with
        ⟨noFirst, _⟩ | ⟨v, mem, isFirst, read⟩
      · -- Neither the superblock nor the descriptor: nothing at all.
        have nothing : tenute = [] := by
          rcases ordinate (by simp) with nothing | ⟨v, mem, isZero | isFirst⟩
          · exact nothing
          · exact absurd (isZero ▸ mem_map_of_mem mem) noSuper
          · exact absurd (isFirst ▸ mem_map_of_mem mem) noFirst
        rw [nothing]
        apply Riparabile.pieno prima slot' jsbSu transazione nonzero fits out
        · rw [next]
          exact ready.fresco
        · rw [posti]
          exact ready.simili
      · apply Riparabile.muto prima jsbSu' _ simili
        rw [Muto, next]
        refine ⟨fresco, .inl ⟨_, read, .inr ?_⟩⟩
        rw [sommato_of_pos (by omega)]
        rcases given v mem with inCoda | ⟨_, isSuper | ⟨later, _⟩ | fst⟩
        · have zero := codaZero v inCoda
          omega
        · rw [isSuper] at isFirst
          omega
        · omega
        · obtain ⟨_, slot, _, _, descrittore⟩ := fst
          rw [descrittore.numero]
          omega
  · rcases given v mem with inCoda | ⟨_, isSuper | ⟨later, _⟩ | ⟨isFirst, _⟩⟩
    · cases isCoda with
      | pulita _ => simp at inCoda
      | sospesa prima jsb' slot' next stampo =>
        rw [mem_singleton.mp inCoda] at read
        exact .vuoto seq (.conInizio read stampo ready.parola (by decide)) fresco simili
    · rw [isSuper] at read
      exact .muto seq (.conInizio read ready.stampo ready.parola imp.primo_parola)
        ⟨fresco.succ, .inr fresco⟩ simili
    · omega
    · omega

theorem Pronto.crash {kept : List Scrittura} (sublist : kept.Sublist disk.pending) :
    Salvo m g₀ jsb₀ c (applyAll kept disk.stable) := by
  obtain ⟨coda, pending, isCoda⟩ := ready.coda
  rw [pending] at sublist
  obtain ⟨tenute, given, shape⟩ := sublist_map_iff.mp sublist
  rw [shape]
  apply ready.salvo imp isCoda
  · intro v mem
    exact .inl (given.subset mem)
  · intro _
    cases tenute with
    | nil => exact .inl rfl
    | cons v resto =>
      exact .inr ⟨v, mem_cons_self, .inl (isCoda.zero v (given.subset mem_cons_self))⟩

end

end

/-! ## Inside a commit -/

def Chiude (g : Giornale) (w : Scrittura) : Prop :=
  ∃ jsb, w = scriviTutto (fisico g 0) jsb ∧ be32 jsb 0x1C = 0

def Tocca (w : Scrittura) (n : Nat) : Prop := ∃ pos, w (n, pos) ≠ none

/-- A crash while the last transaction is not closed on the disk keeps nothing
of the pending writes, or one to the journal superblock, or one to the
descriptor. -/
def Ordinato (g : Giornale) (disk : Cached (Nat × Nat) UInt8) (tenute : List Scrittura) : Prop :=
  (∃ w ∈ disk.pending, Chiude g w) →
    tenute = [] ∨ ∃ w ∈ tenute, Tocca w (fisico g 0) ∨ Tocca w (fisico g g.primo)

theorem tocca_scritturaLog {v : Nat × Buffer} {n : Nat}
    (touched : Tocca (scritturaLog g₀ v) n) : fisico g₀ v.1 = n := by
  obtain ⟨pos, written⟩ := touched
  by_contra other
  exact written (scriviTutto_untouched (fun same => other same.symm) _ pos)

theorem Ordinato.voci (imp : Impianto m file jsb₀ g₀)
    {altre : List Scrittura} {coda tenute : List (Nat × Buffer)}
    (isCoda : Coda m g₀ jsb₀ seq d coda) (short : ∀ v ∈ tenute, v.1 < g₀.maxlen)
    (ordinato : Ordinato g₀ { stable := d, pending := scritture g₀ coda ++ altre }
      (scritture g₀ tenute)) :
    coda ≠ [] → tenute = [] ∨ ∃ v ∈ tenute, v.1 = 0 ∨ v.1 = g₀.primo := by
  obtain ⟨_, room, _⟩ := imp.room
  intro nonzero
  have closing : ∃ w ∈ scritture g₀ coda ++ altre, Chiude g₀ w := by
    cases isCoda with
    | pulita _ => exact absurd rfl nonzero
    | sospesa prima jsb slot =>
      refine ⟨scritturaLog g₀ (0, conInizio jsb seq 0), ?_, _, rfl, ?_⟩
      · simp [scritture]
      · exact (sommato_conInizio_fields g₀ jsb seq 0).2
  rcases ordinato closing with nothing | ⟨w, mem, touched⟩
  · exact .inl (map_eq_nil_iff.mp nothing)
  obtain ⟨v, vMember, shape⟩ := mem_map.mp mem
  rw [← shape] at touched
  refine .inr ⟨v, vMember, ?_⟩
  rcases touched with zero | fst
  · exact .inl (imp.distinti _ _ (short v vMember) (by omega) (tocca_scritturaLog zero))
  · exact .inr (imp.distinti _ _ (short v vMember) imp.primo (tocca_scritturaLog fst))

theorem vociCopie_copia {voci : List (Nat × Buffer)} :
    ∀ {log : Nat}, ∀ v ∈ vociCopie voci log, be32 v.2 0 ≠ gioMagia := by
  induction voci with
  | nil =>
    intro log v mem
    simp [vociCopie] at mem
  | cons s resto ih =>
    intro log v mem
    rcases mem_cons.mp mem with isFirst | later
    · rw [isFirst]
      exact be32_copiaGiornale
    · exact ih v later

section Commit

theorem Pronto.room (imp : Impianto m file jsb₀ g₀) (ready : Pronto m g₀ jsb₀ seq slot jsb disk c) :
    g₀.primo + slot.length + 2 ≤ g₀.maxlen := by
  obtain ⟨_, room, _⟩ := imp.room
  have fits := ready.posti
  omega

theorem Pronto.provvisorie (imp : Impianto m file jsb₀ g₀)
    (ready : Pronto m g₀ jsb₀ seq slot jsb disk c) (nonzero : slot ≠ []) :
    ∀ v ∈ vociPrima m (con g₀ seq slot jsb), Provvisoria m g₀ seq jsb v := by
  have room := ready.room imp
  intro v mem
  rcases mem_cons.mp mem with isSuper | mem
  · rw [isSuper]
    exact ⟨show 0 < g₀.maxlen by omega, .inl rfl⟩
  rcases mem_cons.mp mem with isFirst | isCopy
  · rw [isFirst]
    refine ⟨imp.primo, .inr (.inr ⟨rfl, slot, nonzero, ready.posti, ?_⟩)⟩
    exact (descrittore_spec imp.geometria.con ready.parola ready.posti
      fun s inSlot => (ready.ammissibili s inSlot).1.1).con
  have log := mem_map_of_mem (f := Prod.fst) isCopy
  rw [vociCopie_fst] at log
  have bounds := mem_range'_1.mp log
  have fst : (con g₀ seq slot jsb).primo = g₀.primo := rfl
  have slots : (con g₀ seq slot jsb).slot = slot := rfl
  rw [slots] at bounds
  refine ⟨by omega, .inr (.inl ⟨by omega, ?_⟩)⟩
  exact vociCopie_copia v isCopy

variable {ora : Nat} {g : Giornale}

theorem vociPrima_commit : (0, conInizio g.jsb g.seq g.primo) :: vociTransazione m g ora =
      vociPrima m g ++ [voceCommit m g ora] :=
  rfl

/-- The disk after the first epoch and after the second. -/
def dopoPrima (m : Ext2Mount) (g : Giornale) (disk : Cached (Nat × Nat) UInt8) : Disco :=
  applyAll (disk.pending ++ (vociPrima m g).map (scritturaLog g)) disk.stable

def dopoScrive (m : Ext2Mount) (g : Giornale) (ora : Nat)
    (disk : Cached (Nat × Nat) UInt8) : Disco :=
  (scritturaLog g (voceCommit m g ora)).apply (dopoPrima m g disk)

section

variable (imp : Impianto m file jsb₀ g₀) (ready : Pronto m g₀ jsb₀ seq slot jsb disk c)
  (nonzero : slot ≠ [])

include imp ready nonzero

theorem Pronto.prima_salva
    {coda : List (Nat × Buffer)} (pending : disk.pending = scritture g₀ coda)
    (isCoda : Coda m g₀ jsb₀ seq disk.stable coda) {count : Nat}
    {kept : List Scrittura}
    (sublist : kept.Sublist (disk.pending ++
      ((vociPrima m (con g₀ seq slot jsb)).take count).map (scritturaLog g₀)))
    (ordinato : Ordinato g₀ { disk with
        pending := disk.pending ++ ((vociPrima m (con g₀ seq slot jsb)).take count).map
            (scritturaLog g₀) }
      kept) :
    Salvo m g₀ jsb₀ c (applyAll kept disk.stable) := by
  rw [pending] at sublist ordinato
  unfold scritture at sublist
  rw [← map_append] at sublist
  obtain ⟨tenute, given, shape⟩ := sublist_map_iff.mp sublist
  have members : ∀ v ∈ tenute, v ∈ coda ∨ Provvisoria m g₀ seq jsb v := by
    intro v mem
    rcases mem_append.mp (given.subset mem) with inCoda | new
    · exact .inl inCoda
    · exact .inr (ready.provvisorie imp nonzero v (mem_of_mem_take new))
  have short := (ready.tenute imp isCoda members).1
  rw [shape] at ordinato ⊢
  exact ready.salvo imp isCoda members (ordinato.voci imp isCoda short)

theorem Pronto.dopoPrima : JsbSu g₀ jsb₀ (dopoPrima m (con g₀ seq slot jsb) disk) seq g₀.primo ∧
      Fresco m g₀ (dopoPrima m (con g₀ seq slot jsb) disk) seq ∧
      Recover (superblocco m (dopoPrima m (con g₀ seq slot jsb) disk)) ∧
      Simili m g₀ (dopoPrima m (con g₀ seq slot jsb) disk) c := by
  obtain ⟨pos, _, _⟩ := imp.room
  obtain ⟨coda, pending, isCoda⟩ := ready.coda
  have provvisorie := ready.provvisorie imp nonzero
  have isScritture : Gio.dopoPrima m (con g₀ seq slot jsb) disk = applyAll
        (scritture g₀ (coda ++ vociPrima m (con g₀ seq slot jsb)))
        disk.stable := by
    unfold Gio.dopoPrima
    rw [pending, scritture, scritture, map_append]
    rfl
  obtain ⟨_, fresco, recover, simili⟩ := ready.tenute imp isCoda fun v mem =>
    (mem_append.mp mem).imp_right (provvisorie v)
  rw [← isScritture] at fresco recover simili
  have isSuper : ∀ v ∈ vociPrima m (con g₀ seq slot jsb), v.1 = 0 →
      v = (0, conInizio jsb seq g₀.primo) := by
    intro v mem zero
    rcases (provvisorie v mem).2 with same | ⟨later, _⟩ | ⟨fst, _⟩
    · exact same
    · omega
    · omega
  refine ⟨?_, fresco, recover, simili⟩
  rw [isScritture, scritture, map_append, applyAll_append]
  rcases gioLeggi_dopo imp 0 (applyAll (coda.map (scritturaLog g₀)) disk.stable)
      (fun v mem => (provvisorie v mem).1) with
    ⟨absent, _⟩ | ⟨v, mem, zero, read⟩
  · exact absurd mem_cons_self absent
  rw [isSuper v mem zero] at read
  exact .conInizio read ready.stampo ready.parola imp.primo_parola

theorem Pronto.dopoScrive (word : seq + 1 < 2 ^ 32) (ora : Nat) :
    JsbSu g₀ jsb₀ (dopoScrive m (con g₀ seq slot jsb) ora disk) seq g₀.primo ∧
      Transazione m g₀ (dopoScrive m (con g₀ seq slot jsb) ora disk) g₀.primo seq slot ∧
      Fresco m g₀ (dopoScrive m (con g₀ seq slot jsb) ora disk) (seq + 1) ∧
      Recover (superblocco m (dopoScrive m (con g₀ seq slot jsb) ora disk)) := by
  have room := ready.room imp
  obtain ⟨jsbSu, fresco, recover, _⟩ := ready.dopoPrima imp nonzero
  have short : (voceCommit m (con g₀ seq slot jsb) ora).1 < g₀.maxlen := by
    show g₀.primo + slot.length + 1 < g₀.maxlen
    omega
  have other : ∀ log, log ≠ g₀.primo + slot.length + 1 →
      gioLeggi g₀ (Gio.dopoScrive m (con g₀ seq slot jsb) ora disk) log =
        gioLeggi g₀ (Gio.dopoPrima m (con g₀ seq slot jsb) disk) log := by
    intro log ne
    exact gioLeggi_altro imp short ne
  refine ⟨jsbSu.congr (other 0 (by omega)), ?_, ?_, ?_⟩
  · have geo : Geometria m file (con g₀ seq slot jsb) := imp.geometria.con
    have whole := (dopoCommit_transazione geo imp.distinti ready.parola ready.posti
      (fun s mem => (ready.ammissibili s mem).1.1) room ora
      (applyAll disk.pending disk.stable) ?_).1.con
    · rw [dopoCommit_eq geo room] at whole
      unfold Gio.dopoScrive Gio.dopoPrima
      rw [applyAll_append]
      rw [vociPrima_commit, map_append, applyAll_append] at whole
      exact whole
    · intro full
      obtain ⟨coda, pending, isCoda⟩ := ready.coda
      have fresh : Fresco m g₀ (applyAll disk.pending disk.stable) seq := by
        rw [pending]
        exact (ready.tenute imp isCoda fun v => .inl).2.1
      apply fresh.estraneo imp.geometria _ full
      · show seq ≤ (seq + 1) % 2 ^ 32
        rw [Nat.mod_eq_of_lt word]
        exact Nat.le_succ seq
      · show g₀.primo < g₀.primo + slot.length + 2
        omega
  · intro log b lower read magic
    by_cases isCommit : log = g₀.primo + slot.length + 1
    · have written :=
        gioLeggi_scritto imp.geometria short (Gio.dopoPrima m (con g₀ seq slot jsb) disk)
      rw [isCommit] at read
      have same : sommato g₀ (g₀.primo + slot.length + 1)
          (bloccoCommit m (con g₀ seq slot jsb) seq ora) = b :=
        Option.some.inj (written.symm.trans read)
      rw [sommato_of_pos (by omega)] at same
      rw [← same, (bloccoCommit_spec ready.parola).numero]
      exact .inl (Nat.lt_succ_self seq)
    · rw [other log isCommit] at read
      exact fresco.succ log b lower read magic
  · have same : superblocco m (Gio.dopoScrive m (con g₀ seq slot jsb) ora disk) =
        superblocco m (Gio.dopoPrima m (con g₀ seq slot jsb) disk) :=
      superblocco_congr fun pos => scritturaLog_libero imp.geometria short _ imp.superFuori pos
    rw [same]
    exact recover

end

theorem run_comandiCommit : disk.run (comandiCommit m g ora) =
      { stable := applyAll (g.slot.map posto) (dopoScrive m g ora disk)
        pending := [scritturaLog g (0, jsbChiuso g)] } := by
  unfold comandiCommit
  rw [Cached.run_append, Cached.run_epoch, Cached.run_append, Cached.run_append, Cached.run_epoch]
  rfl

theorem commit_simili (imp : Impianto m file jsb₀ g₀) : Simili m g₀
      (applyAll (slot.map posto) (dopoScrive m (con g₀ seq slot jsb) ora disk))
      (disk.run (comandiCommit m (con g₀ seq slot jsb) ora)).view := by
  obtain ⟨_, room, _⟩ := imp.room
  rw [run_comandiCommit]
  apply Simili.of_uguali imp _ (Simili.refl _)
  intro n pos free
  exact (scritturaLog_libero imp.geometria (show 0 < g₀.maxlen by omega) _ free pos).symm

theorem jsbChiuso_con (word : seq + 1 < 2 ^ 32) : jsbChiuso (con g₀ seq slot jsb) =
      conInizio (jsbAperto (con g₀ seq slot jsb)) (seq + 1) 0 := by
  show conInizio _ ((seq + 1) % 2 ^ 32) 0 = _
  rw [Nat.mod_eq_of_lt word]

section

variable (imp : Impianto m file jsb₀ g₀) (ready : Pronto m g₀ jsb₀ seq slot jsb disk c)
  (nonzero : slot ≠ []) (word : seq + 1 < 2 ^ 32) {ora : Nat}

include imp ready nonzero word

theorem Pronto.posa_salva {kept : List Scrittura} (sublist : kept.Sublist (slot.map posto)) :
    Salvo m g₀ jsb₀ (disk.run (comandiCommit m (con g₀ seq slot jsb) ora)).view (applyAll kept
        (Gio.dopoScrive m (con g₀ seq slot jsb) ora disk)) := by
  obtain ⟨jsbSu, transazione, fresco, recover⟩ := ready.dopoScrive imp nonzero word ora
  exact Salvo.posti recover jsbSu transazione nonzero ready.posti
    ready.ammissibili fresco (commit_simili imp)
    fun w mem => sublist.subset mem

theorem Pronto.commit (ora : Nat) :
    Pronto m g₀ jsb₀ (seq + 1) [] (sommato g₀ 0 (jsbChiuso (con g₀ seq slot jsb)))
      (disk.run (comandiCommit m (con g₀ seq slot jsb) ora))
      (disk.run (comandiCommit m (con g₀ seq slot jsb) ora)).view := by
  obtain ⟨jsbSu, transazione, fresco, recover⟩ := ready.dopoScrive imp nonzero word ora
  have stampo : Stampo g₀ jsb₀ (jsbAperto (con g₀ seq slot jsb)) :=
    ready.stampo.conInizio seq g₀.primo
  have simili : Simili m g₀ (applyAll (slot.map posto)
        (Gio.dopoScrive m (con g₀ seq slot jsb) ora disk))
      (disk.run (comandiCommit m (con g₀ seq slot jsb) ora)).view :=
    commit_simili imp
  have all : ∀ w ∈ slot.map posto, w ∈ slot.map posto := fun _ mem => mem
  have letto :=
    gioLeggi_posti ready.ammissibili all (Gio.dopoScrive m (con g₀ seq slot jsb) ora disk)
  rw [run_comandiCommit] at simili ⊢
  refine ⟨?_, by simp, Nat.zero_le _, word, recover_posti ready.ammissibili all
    recover, simili, fresco.congr fun log _ => letto log, ?_⟩
  · rw [jsbChiuso_con word]
    exact stampo.conInizio (seq + 1) 0
  · refine ⟨[(0, jsbChiuso (con g₀ seq slot jsb))], rfl, ?_⟩
    rw [jsbChiuso_con word]
    exact .sospesa seq _ slot rfl stampo (jsbSu.congr (letto 0))
      (transazione.congr letto) nonzero ready.posti ready.ammissibili
      (applyAll_again all)

theorem Pronto.commit_sicuro :
    Cached.CrashSafe (Ordinato g₀) (fun d => Salvo m g₀ jsb₀ c d ∨ Salvo m g₀ jsb₀
          (disk.run (comandiCommit m (con g₀ seq slot jsb) ora)).view d)
      disk (comandiCommit m (con g₀ seq slot jsb) ora) := by
  obtain ⟨coda, pending, isCoda⟩ := ready.coda
  obtain ⟨jsbPrima, frescoPrima, recoverPrima, similiPrima⟩ := ready.dopoPrima imp nonzero
  have prima : Salvo m g₀ jsb₀ c (Gio.dopoPrima m (con g₀ seq slot jsb) disk) :=
    ⟨recoverPrima, .muto seq jsbPrima ⟨frescoPrima.succ, .inr frescoPrima⟩ similiPrima⟩
  apply Cached.CrashSafe.append
  · apply Cached.CrashSafe.epoch
    · intro count kept sublist ordinato
      exact .inl (ready.prima_salva imp nonzero pending isCoda sublist ordinato)
    · exact .inl prima
  · rw [Cached.run_epoch]
    apply Cached.CrashSafe.append
    · apply Cached.CrashSafe.freshEpoch
      intro kept sublist
      rcases sublist_singleton.mp sublist with nothing | whole
      · rw [nothing]
        exact .inl prima
      · rw [whole]
        exact .inr (ready.posa_salva imp nonzero word (nil_sublist _))
    · apply Cached.CrashSafe.append
      · apply Cached.CrashSafe.freshEpoch
        intro kept sublist
        exact .inr (ready.posa_salva imp nonzero word sublist)
      · rw [Cached.run_epoch]
        apply Cached.CrashSafe.writes
        intro count kept sublist _
        have after := ready.commit imp nonzero word ora
        right
        rw [run_comandiCommit] at after ⊢
        exact after.crash imp (sublist.trans ((take_sublist count _).map _))

end

end Commit

end ExOs.Ext4.Gio
