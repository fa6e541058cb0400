import ExOs.Ext4.GiornaleCodec

/-!
# What a commit leaves in the journal

The commands of `commit` up to its commit block, block by block, and what the
replay makes of them.
-/

namespace ExOs.Ext4.Gio

open ExOs.Library ExOs.Library.Buffer ExOs.Fs List

variable {m : Ext2Mount} {file : FileGiornale} {g : Giornale}

/-! ## Places in the ring -/

variable {log : Nat} {slot voci : List (Nat × Buffer)} {d : Disco}

theorem avanti_eq (short : log + 1 < g.maxlen) : avanti g log = log + 1 := by
  unfold avanti
  rw [if_neg (by omega)]

theorem ultimaCopia_eq : ∀ {log : Nat}, log + slot.length < g.maxlen →
      ultimaCopia g slot log = log + slot.length := by
  induction slot with
  | nil =>
    intro log _
    rfl
  | cons s resto ih =>
    intro log short
    rw [length_cons] at short
    rw [ultimaCopia, avanti_eq (by omega), ih (by omega), length_cons]
    omega

/-- The copies with the journal blocks they go to. -/
def vociCopie : List (Nat × Buffer) → Nat → List (Nat × Buffer)
  | [], _ => []
  | s :: resto, log => (log + 1, copiaGiornale s.2) :: vociCopie resto (log + 1)

theorem vociCopie_fst : ∀ log, (vociCopie slot log).map Prod.fst =
      List.range' (log + 1) slot.length := by
  induction slot with
  | nil =>
    intro log
    rfl
  | cons s resto ih =>
    intro log
    rw [vociCopie, map_cons, ih, length_cons, List.range'_succ]

/-- The command that writes a block of the journal. -/
def scritturaLog (g : Giornale) (v : Nat × Buffer) : Scrittura :=
  scriviTutto (fisico g v.1) (sommato g v.1 v.2)

/-- Steps 1 to 3: the superblock, the descriptor and the copies. -/
def vociPrima (m : Ext2Mount) (g : Giornale) : List (Nat × Buffer) :=
  (0, conInizio g.jsb g.seq g.primo) :: (g.primo, descrittore m g g.seq) :: vociCopie g.slot g.primo

def voceCommit (m : Ext2Mount) (g : Giornale) (ora : Nat) : Nat × Buffer :=
  (g.primo + g.slot.length + 1, bloccoCommit m g g.seq ora)

def comandiScrive (m : Ext2Mount) (g : Giornale) (ora : Nat) : List Comando :=
  (vociPrima m g).map (fun v => .write (scritturaLog g v)) ++
    [.flush, .write (scritturaLog g (voceCommit m g ora)), .flush]

theorem esegui_map_some {comandi : List Comando} : esegui (comandi.map some) = (comandi, true) := by
  induction comandi with
  | nil => rfl
  | cons comando comandi ih =>
    rw [map_cons, esegui, ih]

theorem esegui_second_none (fst : Option Comando) (resto : List (Option Comando)) :
    (esegui (fst :: none :: resto)).2 = false := by
  cases fst with
  | none | some comando => rfl

/-- The journal's blocks lie at different places of the disk. -/
def Distinti (g : Giornale) : Prop :=
  ∀ i j, i < g.maxlen → j < g.maxlen → fisico g i = fisico g j → i = j

theorem scritturaLog_map : voci.map (scritturaLog g) =
      (voci.map fun v => (fisico g v.1, sommato g v.1 v.2)).map fun v => scriviTutto v.1 v.2 := by
  rw [map_map]
  rfl

theorem fisico_nodup (distinti : Distinti g) (short : ∀ v ∈ voci, v.1 < g.maxlen)
    (nodup : (voci.map Prod.fst).Nodup) :
    ((voci.map fun v => (fisico g v.1, sommato g v.1 v.2)).map Prod.fst).Nodup := by
  induction voci with
  | nil => simp
  | cons v resto ih =>
    rw [map_cons, nodup_cons] at nodup
    rw [map_cons, map_cons, nodup_cons]
    refine ⟨?_, ih (fun other mem => short other (mem_cons_of_mem v mem)) nodup.2⟩
    intro again
    rw [map_map] at again
    obtain ⟨other, mem, same⟩ := mem_map.mp again
    have equal := distinti other.1 v.1 (short other (mem_cons_of_mem v mem))
      (short v mem_cons_self) same
    exact nodup.1 (equal ▸ mem_map_of_mem mem)

theorem gioLeggi_not_mem (distinti : Distinti g)
    (short : ∀ v ∈ voci, v.1 < g.maxlen) (lt : log < g.maxlen) (absent : log ∉ voci.map Prod.fst) :
    gioLeggi g (Write.applyAll (voci.map (scritturaLog g)) d) log = gioLeggi g d log := by
  apply gioLeggi_congr
  intro _
  rw [scritturaLog_map]
  apply blocco_applyAll_not_mem
  intro written
  rw [map_map] at written
  obtain ⟨other, mem, same⟩ := mem_map.mp written
  have equal := distinti other.1 log (short other mem) lt same
  exact absent (equal ▸ mem_map_of_mem mem)

/-- The journal blocks of a whole transaction: descriptor, copies, commit. -/
def vociTransazione (m : Ext2Mount) (g : Giornale) (ora : Nat) : List (Nat × Buffer) :=
  (g.primo, descrittore m g g.seq) :: vociCopie g.slot g.primo ++ [voceCommit m g ora]

theorem vociTransazione_fst (ora : Nat) : (vociTransazione m g ora).map Prod.fst =
      List.range' g.primo (g.slot.length + 2) := by
  unfold vociTransazione voceCommit
  rw [map_append, map_cons, vociCopie_fst]
  rw [List.range'_concat, List.range'_succ, Nat.one_mul, map_cons, map_nil, Nat.add_assoc]

theorem Copie.of_letti : ∀ {log : Nat}, log + slot.length < g.maxlen →
      (∀ v ∈ vociCopie slot log, gioLeggi g d v.1 = some v.2) → Copie g d slot (avanti g log) := by
  induction slot with
  | nil =>
    intro log _ _
    trivial
  | cons s resto ih =>
    intro log short letti
    rw [length_cons] at short
    rw [avanti_eq (by omega)]
    refine ⟨letti (log + 1, copiaGiornale s.2) mem_cons_self, ?_⟩
    exact ih (by omega) fun v mem =>
      letti v (mem_cons_of_mem _ mem)

theorem sommato_of_pos (pos : log ≠ 0) {src : Buffer} : sommato g log src = src := by
  unfold sommato
  rw [if_neg (fun both => pos both.1)]

/-- The disk after the commands of a commit up to its commit block. -/
def dopoCommit (m : Ext2Mount) (g : Giornale) (ora : Nat) (d : Disco) : Disco :=
  Write.applyAll (Command.writes (esegui (commitScrive m g ora)).1) d

section

variable (geo : Geometria m file g) {ora : Nat} {d : Disco}

include geo

theorem gioScrivi_eq (short : log < g.maxlen) (src : Buffer) :
    gioScrivi g log src = some (scritturaLog g (log, src)) := by
  unfold gioScrivi
  rw [if_neg]
  · rfl
  · rw [geo.dentro log short]
    exact geo.mappati log short

theorem copieDa_eq : ∀ {log : Nat}, log + slot.length < g.maxlen → copieDa g slot log =
        (vociCopie slot log).map fun v => some (.write (scritturaLog g v)) := by
  induction slot with
  | nil =>
    intro log _
    rfl
  | cons s resto ih =>
    intro log short
    rw [length_cons] at short
    rw [copieDa, avanti_eq (by omega), gioScrivi_eq geo (by omega),
      ih (by omega)]
    rfl

theorem commitScrive_eq (room : g.primo + g.slot.length + 2 ≤ g.maxlen) (ora : Nat) :
    commitScrive m g ora = (comandiScrive m g ora).map some := by
  unfold commitScrive comandiScrive vociPrima voceCommit
  rw [copieDa_eq geo (by omega), ultimaCopia_eq (by omega),
    avanti_eq (by omega), gioScrivi_eq geo (by omega),
    gioScrivi_eq geo (by omega), gioScrivi_eq geo (by omega)]
  simp [Function.comp_def]

theorem Geometria.room (lt : g.primo < g.maxlen) : g.primo + g.maxSlot + 2 ≤ g.maxlen := by
  have short := geo.corto
  have slots := geo.posti
  have order := geo.ordine
  omega

/-- A commit that gives all its commands has room for them: a first block
outside the journal file fails at the descriptor. -/
theorem room_of_commitScrive (fits : g.slot.length ≤ g.maxSlot)
    (written : (esegui (commitScrive m g ora)).2 = true) :
    g.primo + g.slot.length + 2 ≤ g.maxlen := by
  by_cases lt : g.primo < g.maxlen
  · have := geo.room lt
    omega
  have unmapped : gioScrivi g g.primo (descrittore m g g.seq) = none := by
    unfold gioScrivi
    rw [if_pos (geo.fuori g.primo (by omega))]
  unfold commitScrive at written
  rw [unmapped] at written
  have stops := esegui_second_none ((gioScrivi g 0 (conInizio g.jsb g.seq g.primo)).map .write)
    (copieDa g g.slot g.primo ++ [some .flush,
        (gioScrivi g (avanti g (ultimaCopia g g.slot g.primo))
          (bloccoCommit m g g.seq ora)).map .write, some .flush])
  exact absurd (written.symm.trans stops) (by simp)

theorem gioLeggi_mem (distinti : Distinti g) (short : ∀ v ∈ voci, v.1 < g.maxlen)
    (nodup : (voci.map Prod.fst).Nodup) :
    ∀ v ∈ voci, gioLeggi g (Write.applyAll (voci.map (scritturaLog g)) d) v.1 =
        some (sommato g v.1 v.2) := by
  intro v mem
  have mapped : fisico g v.1 ≠ 0 := by
    rw [geo.dentro v.1 (short v mem)]
    exact geo.mappati v.1 (short v mem)
  have written := blocco_applyAll_mem d (fisico_nodup distinti short nodup)
    (v := (fisico g v.1, sommato g v.1 v.2)) (mem_map_of_mem mem)
  rw [← scritturaLog_map] at written
  unfold gioLeggi
  rw [if_neg mapped, written]

/-! ## The transaction on the disk -/

theorem Transazione.of_letti (word : g.seq < 2 ^ 32) (fits : g.slot.length ≤ g.maxSlot)
    (inside : ∀ s ∈ g.slot, NelVolume m s.1) (room : g.primo + g.slot.length + 2 ≤ g.maxlen)
    (letti : ∀ v ∈ vociTransazione m g ora, gioLeggi g d v.1 = some v.2) :
    Transazione m g d g.primo g.seq g.slot := by
  refine ⟨⟨_, letti _ mem_cons_self, descrittore_spec geo word fits inside⟩, ?_, ?_⟩
  · apply Copie.of_letti (by omega)
    intro v mem
    exact letti v (mem_cons_of_mem _ (mem_append_left _ mem))
  · refine ⟨bloccoCommit m g g.seq ora, ?_, bloccoCommit_spec word⟩
    have closing := letti (voceCommit m g ora) (by simp [vociTransazione])
    rw [avanti_eq (by omega), ultimaCopia_eq (by omega)]
    unfold voceCommit at closing
    rw [← closing]
    congr 1
    omega

theorem dopoCommit_eq (room : g.primo + g.slot.length + 2 ≤ g.maxlen) :
    dopoCommit m g ora d = Write.applyAll
        (((0, conInizio g.jsb g.seq g.primo) :: vociTransazione m g ora).map
          (scritturaLog g)) d := by
  unfold dopoCommit
  rw [commitScrive_eq geo room, esegui_map_some]
  unfold comandiScrive vociPrima vociTransazione
  rw [Command.writes_append, Command.writes_map]
  simp [Command.writes]

/-- After the commands of a commit the whole transaction is in the journal,
and the scan ends after it unless an old block claims to be the next one. -/
theorem dopoCommit_transazione (distinti : Distinti g) (word : g.seq < 2 ^ 32)
    (fits : g.slot.length ≤ g.maxSlot) (inside : ∀ s ∈ g.slot, NelVolume m s.1)
    (room : g.primo + g.slot.length + 2 ≤ g.maxlen) (ora : Nat) (d : Disco)
    (fresh : g.primo + g.slot.length + 2 < g.maxlen →
      Estraneo g d (g.primo + g.slot.length + 2) ((g.seq + 1) % 2 ^ 32)) :
    Transazione m g (dopoCommit m g ora d) g.primo g.seq g.slot ∧ Estraneo g (dopoCommit m g ora d)
        (avanti g (ultimaCopia g g.slot (avanti g g.primo))) ((g.seq + 1) % 2 ^ 32) := by
  have pos := geo.positivo
  have logs := vociTransazione_fst (m := m) (g := g) ora
  have short : ∀ v ∈ (0, conInizio g.jsb g.seq g.primo) ::
      vociTransazione m g ora, v.1 < g.maxlen := by
    intro v mem
    rcases mem_cons.mp mem with isSuper | inTransaction
    · rw [isSuper]
      omega
    have log := mem_map_of_mem (f := Prod.fst) inTransaction
    rw [logs] at log
    have bounds := mem_range'_1.mp log
    omega
  have nodup : (((0, conInizio g.jsb g.seq g.primo) ::
      vociTransazione m g ora).map Prod.fst).Nodup := by
    rw [map_cons, logs, nodup_cons]
    refine ⟨?_, nodup_range'⟩
    intro mem
    have bounds := mem_range'_1.mp mem
    omega
  have letti : ∀ v ∈ vociTransazione m g ora, gioLeggi g (dopoCommit m g ora d) v.1 = some v.2 := by
    intro v mem
    have log := mem_map_of_mem (f := Prod.fst) mem
    rw [logs] at log
    have bounds := mem_range'_1.mp log
    rw [dopoCommit_eq geo room, gioLeggi_mem geo distinti short nodup v (mem_cons_of_mem _ mem),
      sommato_of_pos (by omega)]
  refine ⟨.of_letti geo word fits inside room letti, ?_⟩
  have firstCopy : avanti g g.primo = g.primo + 1 := avanti_eq (by omega)
  rw [firstCopy, ultimaCopia_eq (by omega)]
  by_cases full : g.primo + g.slot.length + 2 < g.maxlen
  · obtain ⟨b, read, other⟩ := fresh full
    rw [avanti_eq (by omega)]
    refine ⟨b, ?_, other⟩
    have place : g.primo + 1 + g.slot.length + 1 = g.primo + g.slot.length + 2 := by omega
    rw [place, dopoCommit_eq geo room, gioLeggi_not_mem distinti short full]
    · exact read
    · rw [map_cons, logs]
      intro mem
      rcases mem_cons.mp mem with zero | inRange
      · omega
      · have bounds := mem_range'_1.mp inRange
        omega
  · -- The ring is full: the block after the commit block is the descriptor.
    have wraps : avanti g (g.primo + 1 + g.slot.length) = g.primo := by
      unfold avanti
      rw [if_pos (by omega)]
    rw [wraps]
    have described := letti (g.primo, descrittore m g g.seq) mem_cons_self
    refine ⟨_, described, .inr ?_⟩
    rw [(descrittore_spec geo word fits inside).numero]
    exact (succ_mod_ne g.seq).symm

end

theorem applyAll_posto_mem (nodup : (slot.map Prod.fst).Nodup) {s : Nat × Buffer}
    (mem : s ∈ slot) {pos : Nat} (mine : s.1 = 0 → superOffset ≤ pos) :
    Write.applyAll (slot.map posto) d (s.1, pos) = s.2 pos := by
  refine Write.applyAll_mem nodup mem ?_ (fun other _ ne => posto_untouched ne pos)
  unfold posto
  rw [if_pos ⟨rfl, mine⟩]

theorem applyAll_posto_outside {c : Nat × Nat}
    (away : ∀ s ∈ slot, c.1 = s.1 → c.1 = 0 ∧ c.2 < superOffset) :
    Write.applyAll (slot.map posto) d c = d c := by
  apply Write.applyAll_outside
  intro w mem
  obtain ⟨s, sMember, shape⟩ := mem_map.mp mem
  rw [← shape]
  unfold posto
  rw [if_neg]
  intro touched
  have boot := away s sMember touched.1
  omega

/-- Over what a commit leaves up to its commit block, the scan finds one
committed transaction and the replay puts each of its blocks in its place, as
it was in its slot, and changes nothing else.  The blocks of the transaction
are not the journal's own, these lie at different places, and the block after
the commit block does not claim to be of the next transaction. -/
theorem giornale_riletto {jsb : Buffer} {g₀ : Giornale}
    (aperto : giornaleApri m file jsb = some g₀) (jsb' : Buffer)
    (distinti : ∀ i j, i < g₀.maxlen → j < g₀.maxlen → file.mappa i = file.mappa j → i = j)
    (slot : List (Nat × Buffer)) (seq ora : Nat) (d : Disco)
    (word : seq < 2 ^ 32) (nonempty : slot ≠ [])
    (fits : slot.length ≤ g₀.maxSlot) (nodup : (slot.map Prod.fst).Nodup)
    (inside : ∀ s ∈ slot, NelVolume m s.1)
    (out : ∀ s ∈ slot, ∀ log, log < g₀.maxlen → file.mappa log ≠ s.1)
    (fresh : g₀.primo + slot.length + 2 < g₀.maxlen →
      let b := blocco d (file.mappa (g₀.primo + slot.length + 2))
      ¬ (be32 b 0 = gioMagia ∧ be32 b 8 = (seq + 1) % 2 ^ 32))
    (written : (esegui (commitScrive m
      { g₀ with slot := slot, seq := seq, jsb := jsb' } ora)).2 = true) :
    let g := { g₀ with slot := slot, seq := seq, jsb := jsb' }
    let dopo := dopoCommit m g ora d
    let r₀ := { disco := dopo, traccia := [], revoche := [], pieno := false }
    passo m g .scan seq g.maxlen g.primo seq r₀ = .ok ((seq + 1) % 2 ^ 32, r₀) ∧
      ∃ r, ripristina m g dopo g.primo seq = .ok ((seq + 1) % 2 ^ 32, r) ∧
        (∀ s ∈ slot, ∀ pos, (s.1 = 0 → superOffset ≤ pos) → r.disco (s.1, pos) = s.2 pos) ∧
        (∀ c : Nat × Nat, (∀ s ∈ slot, c.1 = s.1 → c.1 = 0 ∧ c.2 < superOffset) →
            r.disco c = dopo c) := by
  intro g dopo r₀
  have geometria₀ := giornaleApri_geometria aperto
  have geometria : Geometria m file g := { geometria₀ with }
  have room : g.primo + g.slot.length + 2 ≤ g.maxlen := room_of_commitScrive geometria fits written
  have apart : Distinti g := by
    intro i j iShort jShort same
    rw [geometria.dentro i iShort, geometria.dentro j jShort] at same
    exact distinti i j iShort jShort same
  have outside' : ∀ s ∈ g.slot, FuoriGiornale m g s.1 := by
    intro s mem
    refine ⟨inside s mem, ?_⟩
    intro log mapped
    by_cases short : log < g.maxlen
    · rw [geometria.dentro log short]
      exact out s mem log short
    · exact absurd (geometria.fuori log (by omega)) mapped
  have fresh' : g.primo + g.slot.length + 2 < g.maxlen →
      Estraneo g d (g.primo + g.slot.length + 2) ((g.seq + 1) % 2 ^ 32) := by
    intro short
    have mapped := geometria.mappati _ short
    have old := fresh short
    rw [← geometria.dentro _ short] at mapped
    refine ⟨blocco d (fisico g (g.primo + g.slot.length + 2)), ?_, ?_⟩
    · unfold gioLeggi
      rw [if_neg mapped]
    · rw [geometria.dentro _ short]
      by_cases magic : be32 (blocco d (file.mappa (g.primo + g.slot.length + 2))) 0 = gioMagia
      · exact .inr fun same => old ⟨magic, same⟩
      · exact .inl magic
  obtain ⟨transazione, ended⟩ :=
    dopoCommit_transazione geometria apart word fits inside room ora d fresh'
  have long : 3 ≤ g.maxlen := by
    have positive := geometria.positivo
    omega
  obtain ⟨scan, replay⟩ := transazione.ripristina geometria nonempty outside' long ended
  refine ⟨scan, _, replay, ?_, ?_⟩
  · intro s mem pos mine
    exact applyAll_posto_mem nodup mem mine
  · intro c away
    exact applyAll_posto_outside away

/-! ### A small volume -/

/-- A volume of 1000 blocks of 1024 bytes, whose journal of 64 blocks is at
block 100. -/
def volumeDiProva : Ext2Mount :=
  { dimBlocco := 1024, nBlocchi := 1000, nInode := 0, nGruppi := 1
    inodePerGruppo := 1, dimInode := 128, dimDesc := 32, gdtPrimo := 2
    compat := compatHasJournal, incompat := incompatRecover, roCompat := 0
    grandezza := by decide, contati := by decide }

def fileDiProva : FileGiornale := { mappa := fun i => 100 + i, dimFile := 64, corto := by decide }

def jsbDiProva : Buffer :=
  putBe32 (putBe32 (putBe32 (putBe32 (intestazione gioSuperV1 0) 0x0C 1024) 0x10 64) 0x14 1) 0x18 7

def giornaleDiProva : Giornale :=
  giornaleDi volumeDiProva jsbDiProva 0 [{ log := 0, fis := 100, n := 64 }]

theorem giornaleApri_prova :
    giornaleApri volumeDiProva fileDiProva jsbDiProva = some giornaleDiProva := by
  rfl

/-- A plain block and one that starts with the journal's magic number. -/
def slotDiProva : List (Nat × Buffer) := [(200, fun _ => 1), (201, putBe32 (fun _ => 2) 0 gioMagia)]

/-- The journal with a transaction in memory. -/
def giornaleCon (slot : List (Nat × Buffer)) : Giornale :=
  { giornaleDiProva with slot := slot, seq := 7, jsb := jsbDiProva }

theorem giornale_riletto_prova : ∃ r, ripristina volumeDiProva (giornaleCon slotDiProva)
          (dopoCommit volumeDiProva (giornaleCon slotDiProva) 0 fun _ => 0) 1 7 = .ok (8, r) ∧
      r.disco (201, 0) = 0xC0 ∧ r.disco (201, 5) = 2 := by
  obtain ⟨_, r, replay, placed, _⟩ := giornale_riletto giornaleApri_prova jsbDiProva (by
        intro i j _ _ same
        exact Nat.add_left_cancel same)
      slotDiProva 7 0 (fun _ => 0) (by decide) (by simp [slotDiProva])
      (by decide +kernel) (by decide)
      (by
        unfold NelVolume
        decide)
      (by
        intro s mem log short
        have bound : giornaleDiProva.maxlen = 64 := by decide +kernel
        have place : fileDiProva.mappa log = 100 + log := rfl
        simp only [slotDiProva, mem_cons, not_mem_nil, or_false] at mem
        rcases mem with isFirst | isSecond
        · rw [isFirst]
          omega
        · rw [isSecond]
          omega)
      (by
        intro _ b both
        have zero : be32 b 0 = 0 := rfl
        nomatch zero.symm.trans both.1)
      (by decide +kernel)
  refine ⟨r, replay, ?_, ?_⟩
  · rw [placed (201, putBe32 (fun _ => 2) 0 gioMagia) (by simp [slotDiProva]) 0 (by simp)]
    decide
  · rw [placed (201, putBe32 (fun _ => 2) 0 gioMagia) (by simp [slotDiProva]) 5 (by simp)]
    decide

/-- The first block's place is where the journal keeps the copy of the second:
the replay of the first changes what it replays next. -/
def slotSulGiornale : List (Nat × Buffer) := [(103, fun _ => 1), (200, fun _ => 2)]

theorem giornale_riletto_sul_giornale :
    giornaleApri volumeDiProva fileDiProva jsbDiProva = some giornaleDiProva ∧
      slotSulGiornale.length ≤ giornaleDiProva.maxSlot ∧ (slotSulGiornale.map Prod.fst).Nodup ∧
      (∀ s ∈ slotSulGiornale, NelVolume volumeDiProva s.1) ∧
      (esegui (commitScrive volumeDiProva (giornaleCon slotSulGiornale) 0)).2 = true ∧
      ∃ r, ripristina volumeDiProva (giornaleCon slotSulGiornale)
            (dopoCommit volumeDiProva (giornaleCon slotSulGiornale) 0 fun _ => 0) 1 7 = .ok (8, r) ∧
        r.disco (200, 0) = 1 := by
  refine ⟨giornaleApri_prova, by decide +kernel, by decide, by
    unfold NelVolume
    decide, by decide +kernel, ?_⟩
  have outcome : (match ripristina volumeDiProva (giornaleCon slotSulGiornale)
          (dopoCommit volumeDiProva (giornaleCon slotSulGiornale) 0 fun _ => 0)
          1 7 with
        | .ok (fine, r) => fine == 8 && r.disco (200, 0) == 1
        | .error _ => false) = true := by
    decide +kernel
  split at outcome
  · next fine r res =>
    rw [Bool.and_eq_true, beq_iff_eq, beq_iff_eq] at outcome
    refine ⟨r, ?_, outcome.2⟩
    rw [res, outcome.1]
  · exact absurd outcome (by simp)

end ExOs.Ext4.Gio
