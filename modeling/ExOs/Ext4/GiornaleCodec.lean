import ExOs.Ext4.Giornale

/-!
# The journal read back

What `commit` writes between its first and its last flush is what the three
passes of the replay read: one committed transaction, whose blocks go to their
places as they were in the transaction.
-/

namespace ExOs.Ext4.Gio

open ExOs.Library ExOs.Library.Buffer ExOs.Fs List

/-- Some runs describe the first `i` blocks of the journal file. -/
structure Descritte (mappa : Nat → Nat) (i : Nat) (corse : List Corsa) : Prop where
  dentro : ∀ log, log < i → fisicoCorse corse log = mappa log
  fuori : ∀ log, i ≤ log → fisicoCorse corse log = 0
  mappati : ∀ log, log < i → mappa log ≠ 0
  ultima : ∀ c altre, corse = c :: altre → c.log + c.n = i

variable {mappa : Nat → Nat} {jsb : Buffer} {file : FileGiornale} {m : Ext2Mount}
  {corse : List Corsa} {g : Giornale}

theorem Descritte.allunga {i : Nat} {c : Corsa}
    {altre : List Corsa} (descritte : Descritte mappa i (c :: altre))
    (mappato : mappa i ≠ 0) (seguente : mappa i = c.fis + c.n) :
    Descritte mappa (i + 1) ({ c with n := c.n + 1 } :: altre) := by
  have last := descritte.ultima c altre rfl
  refine ⟨?_, ?_, ?_, ?_⟩
  · intro log lt
    have pre := descritte.dentro log
    rw [fisicoCorse] at pre ⊢
    dsimp only
    by_cases isLast : log = i
    · rw [if_pos (by omega), isLast]
      omega
    have covered := pre (by omega)
    split at covered
    · rw [if_pos (by omega)]
      exact covered
    · rw [if_neg (by omega)]
      exact covered
  · intro log out
    have pre := descritte.fuori log (by omega)
    rw [fisicoCorse, if_neg (by omega)] at pre
    rw [fisicoCorse, if_neg (by dsimp only; omega)]
    exact pre
  · intro log lt
    by_cases isLast : log = i
    · rw [isLast]
      exact mappato
    · exact descritte.mappati log (by omega)
  · intro c' altre' shape
    rw [← (List.cons.inj shape).1]
    dsimp only
    omega

theorem Descritte.apri {i : Nat} (descritte : Descritte mappa i corse) (mappato : mappa i ≠ 0) :
    Descritte mappa (i + 1) ({ log := i, fis := mappa i, n := 1 } :: corse) := by
  refine ⟨?_, ?_, ?_, ?_⟩
  · intro log lt
    rw [fisicoCorse]
    dsimp only
    by_cases isLast : log = i
    · rw [if_pos (by omega), isLast, Nat.sub_self, Nat.add_zero]
    · rw [if_neg (by omega)]
      exact descritte.dentro log (by omega)
  · intro log out
    rw [fisicoCorse, if_neg (by dsimp only; omega)]
    exact descritte.fuori log (by omega)
  · intro log lt
    by_cases isLast : log = i
    · rw [isLast]
      exact mappato
    · exact descritte.mappati log (by omega)
  · intro c' altre' shape
    rw [← (List.cons.inj shape).1]

theorem corseDa_spec (restanti : Nat) : ∀ {i : Nat} {corse corse' : List Corsa},
      Descritte mappa i corse → corseDa mappa restanti i corse = some corse' →
      Descritte mappa (i + restanti) corse' := by
  induction restanti with
  | zero =>
    intro i corse corse' descritte built
    rw [← Option.some.inj built]
    exact descritte
  | succ restanti ih =>
    intro i corse corse' descritte built
    rw [Nat.add_comm restanti 1, ← Nat.add_assoc]
    unfold corseDa at built
    dsimp only at built
    split at built
    · simp at built
    rename_i mappato
    split at built
    · split at built
      · next c altre seguente =>
        exact ih (descritte.allunga mappato seguente) built
      · split at built
        · simp at built
        · exact ih (descritte.apri mappato) built
    · exact ih (descritte.apri mappato) built

def limiteTag (m : Ext2Mount) (g : Giornale) : Nat := m.dimBlocco - if g.somme then 4 else 0

/-- What the checks of `giornale_monta` ensure about a journal's shape. -/
structure Geometria (m : Ext2Mount) (file : FileGiornale) (g : Giornale) : Prop where
  dentro : ∀ log, log < g.maxlen → fisico g log = file.mappa log
  fuori : ∀ log, g.maxlen ≤ log → fisico g log = 0
  mappati : ∀ log, log < g.maxlen → file.mappa log ≠ 0
  corto : g.maxlen < 2 ^ 22
  positivo : g.primo ≠ 0
  ordine : (g.primo + 3) % 2 ^ 32 ≤ g.maxlen
  forma :
    g.somme = true ∧ g.tag = 16 ∨
      g.somme = false ∧ g.incompat &&& gioInc64Bit ≠ 0 ∧ g.tag = 12 ∨
      g.somme = false ∧ g.incompat &&& gioInc64Bit = 0 ∧ g.tag = 8
  capienza : 28 + g.maxSlot * g.tag ≤ limiteTag m g
  posti : g.maxSlot ≤ (g.maxlen + 2 ^ 33 - g.primo - 2) % 2 ^ 32
  abbastanza : 40 ≤ g.maxSlot

theorem gioMaxSlot_capienza (m : Ext2Mount) (inc maxlen primo : Nat) :
    28 + gioMaxSlot m inc maxlen primo * gioTag inc ≤
      m.dimBlocco - if inc &&& gioIncCsumV3 ≠ 0 then 4 else 0 := by
  have blockSize := m.grandezza
  have perDesc : gioMaxSlot m inc maxlen primo ≤
      (m.dimBlocco - 12 - 16 - if inc &&& gioIncCsumV3 ≠ 0 then 4 else 0) / gioTag inc :=
    Nat.le_trans (Nat.min_le_left ..) (Nat.min_le_right ..)
  have used := Nat.le_trans (Nat.mul_le_mul_right (gioTag inc) perDesc) (Nat.div_mul_le_self ..)
  split at used
  · rw [if_pos ‹_›]
    omega
  · rw [if_neg ‹_›]
    omega

theorem giornaleDi_geometria {inc : Nat} (positivo : be32 jsb 0x14 ≠ 0)
    (ordine : (be32 jsb 0x14 + 3) % 2 ^ 32 ≤ be32 jsb 0x10) (inFile : be32 jsb 0x10 ≤ file.dimFile)
    (built : corseDa file.mappa (be32 jsb 0x10) 0 [] = some corse)
    (enough : gioRiserva + 8 ≤ gioMaxSlot m inc (be32 jsb 0x10) (be32 jsb 0x14)) :
    Geometria m file (giornaleDi m jsb inc corse) := by
  have nothing : Descritte file.mappa 0 [] := ⟨by simp, fun _ _ => rfl, by simp, by simp⟩
  have described := corseDa_spec (be32 jsb 0x10) nothing built
  rw [Nat.zero_add] at described
  have short := file.corto
  have room := gioMaxSlot_capienza m inc (be32 jsb 0x10) (be32 jsb 0x14)
  refine ⟨described.dentro, described.fuori, described.mappati,
    Nat.lt_of_le_of_lt inFile short, positivo, ordine, ?_, ?_, Nat.min_le_right .., enough⟩
  · simp only [giornaleDi, gioTag]
    by_cases summed : inc &&& gioIncCsumV3 = 0
    · by_cases wide : inc &&& gioInc64Bit = 0
      · simp [summed, wide]
      · simp [summed, wide]
    · simp [summed]
  · simp only [limiteTag, giornaleDi, decide_eq_true_eq]
    exact room

theorem giornaleApri_eq_some_iff : giornaleApri m file jsb = some g ↔ ((be32 jsb 0 = gioMagia ∧
          (be32 jsb 4 = gioSuperV1 ∨ be32 jsb 4 = gioSuperV2)) ∧
        be32 jsb 0x0C = m.dimBlocco ∧ be32 jsb 0x14 ≠ 0 ∧
        (be32 jsb 0x14 + 3) % 2 ^ 32 ≤ be32 jsb 0x10 ∧ be32 jsb 0x10 ≤ file.dimFile) ∧
      ∃ inc corse, gioFunzioni jsb = some inc ∧
        corseDa file.mappa (be32 jsb 0x10) 0 [] = some corse ∧
        gioRiserva + 8 ≤ gioMaxSlot m inc (be32 jsb 0x10) (be32 jsb 0x14) ∧
        g = giornaleDi m jsb inc corse := by
  unfold giornaleApri
  dsimp only
  constructor
  · intro aperto
    split at aperto
    · simp at aperto
    split at aperto
    · simp at aperto
    split at aperto
    · next inc corse features built =>
      split at aperto
      · simp at aperto
      · next enough =>
        exact ⟨by omega, inc, corse, features, built, by omega, (Option.some.inj aperto).symm⟩
    · simp at aperto
  · rintro ⟨checks, inc, corse, features, built, enough, isG⟩
    rw [if_neg (by omega), if_neg (by omega), features, built]
    dsimp only
    rw [if_neg (by omega), isG]

theorem giornaleApri_geometria (aperto : giornaleApri m file jsb = some g) :
    Geometria m file g := by
  obtain ⟨checks, inc, corse, _, built, enough, isG⟩ := giornaleApri_eq_some_iff.mp aperto
  rw [isG]
  exact giornaleDi_geometria (by omega) (by omega) (by omega) built (by omega)

/-! ## Tags -/

theorem flags_bits (stesso ultimo escape : Bool) : let flags :=
      (if stesso then tagStessoUuid else 0) ||| (if ultimo then tagUltimo else 0)
        ||| (if escape then tagEscape else 0)
    flags < 2 ^ 16 ∧ (flags &&& tagStessoUuid = 0 ↔ stesso = false) ∧
      (flags &&& tagUltimo ≠ 0 ↔ ultimo = true) ∧
      (flags &&& tagEscape ≠ 0 ↔ escape = true) := by
  cases stesso <;> cases ultimo <;> cases escape <;> decide

theorem tagFlags_spec (i n : Nat) (c : Buffer) : tagFlags i n c < 2 ^ 16 ∧
      (tagFlags i n c &&& tagStessoUuid = 0 ↔ i = 0) ∧
      (tagFlags i n c &&& tagUltimo ≠ 0 ↔ i + 1 = n) ∧
      (tagFlags i n c &&& tagEscape ≠ 0 ↔ be32 c 0 = gioMagia) := by
  have bits := flags_bits (decide (0 < i)) (decide (i + 1 = n)) (decide (be32 c 0 = gioMagia))
  simp only [decide_eq_true_eq, decide_eq_false_iff_not, Nat.not_lt, Nat.le_zero] at bits
  exact bits

section Tag

variable {m : Ext2Mount} {file : FileGiornale} {g : Giornale}

theorem Geometria.tag_bounds (geo : Geometria m file g) :
    8 ≤ g.tag ∧ g.tag ≤ 16 ∧ (g.somme = true → g.tag = 16) ∧
      (g.incompat &&& gioInc64Bit ≠ 0 → 12 ≤ g.tag) := by
  rcases geo.forma with ⟨summed, size⟩ | ⟨plain, wide, size⟩ | ⟨plain, narrow, size⟩
  · simp [summed, size]
  · simp [plain, size]
  · simp [plain, narrow, size]

variable {off pos n seq i giri qui fine : Nat} {s : Nat × Buffer} {d : Disco}
  {slot resto : List (Nat × Buffer)} {b : Buffer} {r : Ripresa} {quale : Passo}

theorem scriviTag_outside (geo : Geometria m file g) {d : Buffer}
    (out : pos < off ∨ off + g.tag ≤ pos) :
    scriviTag m g seq n i s d off pos = d pos := by
  obtain ⟨lower, _, summed, _⟩ := geo.tag_bounds
  unfold scriviTag
  split
  · next sums =>
    have size := summed sums
    rw [putBe32_outside _ _ (by omega), putBe16_outside _ _ (by omega),
      putBe32_outside _ _ (by omega)]
  · rw [putBe16_outside _ _ (by omega), putBe32_outside _ _ (by omega)]

theorem scriviTag_fields {d : Buffer} (number : s.1 < 2 ^ 32)
    (zeros : ∀ pos, off ≤ pos → d pos = 0) :
    let t := scriviTag m g seq n i s d off
    be32 t off = s.1 ∧ be16 t (off + 6) = tagFlags i n s.2 ∧ be32 t (off + 8) = 0 ∧
      (g.somme = true → be32 t (off + 12) = (sommaTag m g seq s.2).toNat) := by
  have flags := (tagFlags_spec i n s.2).1
  unfold scriviTag
  dsimp only
  have plain : be32 (putBe16 (putBe32 d off s.1) (off + 6) (tagFlags i n s.2)) off = s.1 := by
    rw [be32_congr fun pos _ upper => putBe16_outside _ _ (.inl (by omega)),
      be32_putBe32, Nat.mod_eq_of_lt number]
  have flag : be16 (putBe16 (putBe32 d off s.1) (off + 6) (tagFlags i n s.2)) (off + 6) =
        tagFlags i n s.2 := by
    rw [be16_putBe16, Nat.mod_eq_of_lt flags]
  have zero : be32 (putBe16 (putBe32 d off s.1) (off + 6) (tagFlags i n s.2)) (off + 8) = 0 := by
    have same : be32 (putBe16 (putBe32 d off s.1) (off + 6) (tagFlags i n s.2)) (off + 8) =
          be32 (fun _ => 0) (off + 8) := by
      apply be32_congr
      intro pos lower upper
      rw [putBe16_outside _ _ (by omega), putBe32_outside _ _ (by omega)]
      exact zeros pos (by omega)
    rw [same]
    rfl
  split
  · rw [be32_putBe32_outside _ _ (by omega), be32_putBe32_outside _ _ (by omega),
      be16_congr fun pos _ upper => putBe32_outside _ _ (.inl (by omega))]
    refine ⟨plain, flag, zero, ?_⟩
    intro _
    rw [be32_putBe32]
    exact Nat.mod_eq_of_lt (UInt32.toNat_lt _)
  · next noSums => exact ⟨plain, flag, zero, fun sums => absurd sums noSums⟩

/-- Where the tag after the `i`-th one starts. -/
def prossimoTag (g : Giornale) (i off : Nat) : Nat := off + g.tag + if i = 0 then 16 else 0

/-- The buffer after the `i`-th tag and, for the first one, the UUID. -/
def dopoTag (m : Ext2Mount) (g : Giornale) (seq n i : Nat)
    (s : Nat × Buffer) (d : Buffer) (off : Nat) : Buffer :=
  if i = 0 then Buffer.copy (scriviTag m g seq n i s d off) (off + g.tag) g.uuid 0 16
  else scriviTag m g seq n i s d off

theorem descriviDa_cons {d : Buffer} : descriviDa m g seq n (s :: resto) i off d =
      descriviDa m g seq n resto (i + 1) (prossimoTag g i off) (dopoTag m g seq n i s d off) := by
  rw [descriviDa, prossimoTag, dopoTag]
  by_cases fst : i = 0
  · rw [if_pos fst, if_pos fst, if_pos fst]
  · rw [if_neg fst, if_neg fst, if_neg fst]
    rfl

theorem dopoTag_prima {d : Buffer} (pre : pos < off + g.tag) :
    dopoTag m g seq n i s d off pos = scriviTag m g seq n i s d off pos := by
  unfold dopoTag
  split
  · rw [Buffer.copy_outside (by omega)]
  · rfl

variable (geo : Geometria m file g) {d' : Disco}

include geo

theorem dopoTag_zeri {d : Buffer} (zeros : ∀ pos, off ≤ pos → d pos = 0) :
    ∀ pos, prossimoTag g i off ≤ pos → dopoTag m g seq n i s d off pos = 0 := by
  intro pos after
  unfold prossimoTag at after
  unfold dopoTag
  split
  · next fst =>
    rw [if_pos fst] at after
    rw [Buffer.copy_outside (by omega), scriviTag_outside geo (by omega)]
    exact zeros pos (by omega)
  · rw [scriviTag_outside geo (by omega)]
    exact zeros pos (by omega)

theorem descriviDa_prima : ∀ (i off : Nat) (d : Buffer) (pos : Nat), pos < off →
      descriviDa m g seq n slot i off d pos = d pos := by
  induction slot with
  | nil =>
    intro i off d pos _
    rfl
  | cons s resto ih =>
    intro i off d pos pre
    have later : pos < prossimoTag g i off := by
      unfold prossimoTag
      omega
    rw [descriviDa_cons, ih _ _ _ pos later, dopoTag_prima (by omega),
      scriviTag_outside geo (by omega)]

omit geo

/-! ## Copies -/

theorem sommaTag_eq {c : Buffer} :
    sommaTag m g seq c = sommaCopia g seq (copiaGiornale c) m.dimBlocco := by
  unfold sommaTag copiaGiornale
  split
  · have blockSize := m.grandezza
    have split4 := segment_append (putBe32 c 0 0) 0 4 (m.dimBlocco - 4)
    rw [Nat.add_sub_cancel' (by omega)] at split4
    have head : segment (putBe32 c 0 0) 0 4 = [0, 0, 0, 0] := rfl
    have tail : segment (putBe32 c 0 0) 4 (m.dimBlocco - 4) = segment c 4 (m.dimBlocco - 4) := by
      apply segment_congr
      intro pos lower _
      exact putBe32_outside c 0 (.inr (by omega))
    rw [sommaCopia, ← split4, ← crc32cGrezzo_append, head, tail]
  · rfl

theorem copiaGiornale_ripresa (i n : Nat) (c : Buffer) : (if tagFlags i n c &&& tagEscape ≠ 0 then
        putBe32 (copiaGiornale c) 0 gioMagia else copiaGiornale c) = c := by
  have escape := (tagFlags_spec i n c).2.2.2
  unfold copiaGiornale
  by_cases magic : be32 c 0 = gioMagia
  · rw [if_pos (escape.mpr magic), if_pos magic, putBe32_putBe32, ← magic, putBe32_be32]
  · rw [if_neg (fun flagged => magic (escape.mp flagged)), if_neg magic]

theorem be32_copiaGiornale {c : Buffer} : be32 (copiaGiornale c) 0 ≠ gioMagia := by
  unfold copiaGiornale
  split
  · rw [be32_putBe32]
    decide
  · assumption

/-- The copies of some slots are in the journal from block `qui` on. -/
def Copie (g : Giornale) (d : Disco) : List (Nat × Buffer) → Nat → Prop
  | [], _ => True
  | s :: resto, qui =>
    gioLeggi g d qui = some (copiaGiornale s.2) ∧ Copie g d resto (avanti g qui)

theorem gioLeggi_congr {log : Nat} (agree : fisico g log ≠ 0 →
      blocco d' (fisico g log) = blocco d (fisico g log)) :
    gioLeggi g d' log = gioLeggi g d log := by
  unfold gioLeggi
  split
  · rfl
  · next mapped => rw [agree mapped]

theorem Copie.congr (agree : ∀ log, fisico g log ≠ 0 →
      blocco d' (fisico g log) = blocco d (fisico g log)) :
    ∀ {qui : Nat}, Copie g d slot qui → Copie g d' slot qui := by
  induction slot with
  | nil =>
    intro qui _
    trivial
  | cons s resto ih =>
    intro qui copie
    refine ⟨?_, ih copie.2⟩
    rw [gioLeggi_congr (agree qui)]
    exact copie.1

/-- The command that puts a slot's block in its place. -/
def posto (s : Nat × Buffer) : Scrittura :=
  fun c =>
    if c.1 = s.1 ∧ (s.1 = 0 → superOffset ≤ c.2) then some (s.2 c.2) else none

/-- A block number that `al_suo_posto` accepts. -/
def NelVolume (m : Ext2Mount) (n : Nat) : Prop := ¬ (n = 0 ∧ m.dimBlocco = 1024) ∧ n < m.nBlocchi

theorem alSuoPosto_eq (inside : NelVolume m n) {src : Buffer} :
    alSuoPosto m n src = some (posto (n, src)) := by
  unfold alSuoPosto
  rw [if_neg (by have := inside.1; have := inside.2; omega)]
  split
  · next zero =>
    congr 1
    funext c
    simp [posto, zero]
  rename_i pos
  congr 1
  funext c
  simp [posto, scriviTutto, pos]

theorem posto_untouched (ne : n ≠ s.1) (pos : Nat) : posto s (n, pos) = none := by
  simp [posto, ne]

/-! ## The tags of a descriptor -/

/-- `b` holds the tags of some slots, the first of them of index `i`, from
offset `off` on. -/
structure Descritti (m : Ext2Mount) (g : Giornale) (seq n : Nat) (b : Buffer)
    (slot : List (Nat × Buffer)) (i off : Nat) : Prop where
  conto : i + slot.length = n
  spazio : off + (if i = 0 then 16 else 0) + slot.length * g.tag ≤ limiteTag m g
  numeri : ∀ s ∈ slot, s.1 < 2 ^ 32
  scritti : ∃ d : Buffer, (∀ pos, off ≤ pos → d pos = 0) ∧
    ∀ pos, off ≤ pos → pos < limiteTag m g → b pos = descriviDa m g seq n slot i off d pos

section

variable (geo : Geometria m file g) (descritti : Descritti m g seq n b (s :: resto) i off)

include geo descritti

theorem Descritti.fields :
    off + g.tag ≤ limiteTag m g ∧ be32 b off = s.1 ∧ be16 b (off + 6) = tagFlags i n s.2 ∧
      (g.incompat &&& gioInc64Bit ≠ 0 → be32 b (off + 8) = 0) ∧
      (g.somme = true → be32 b (off + 12) = (sommaTag m g seq s.2).toNat) := by
  obtain ⟨lower, _, summed, wide⟩ := geo.tag_bounds
  have room := descritti.spazio
  rw [length_cons, Nat.succ_mul] at room
  obtain ⟨d, zeros, written⟩ := descritti.scritti
  obtain ⟨number, flags, high, sum⟩ := scriviTag_fields (m := m) (g := g)
      (descritti.numeri s mem_cons_self) zeros
  have here : ∀ pos, off ≤ pos → pos < off + g.tag → b pos = scriviTag m g seq n i s d off pos := by
    intro pos fst last
    have next : pos < prossimoTag g i off := by
      unfold prossimoTag
      omega
    rw [written pos fst (by omega), descriviDa_cons,
      descriviDa_prima geo _ _ _ pos next,
      dopoTag_prima last]
  refine ⟨by omega, ?_, ?_, ?_, ?_⟩
  · rw [← number]
    exact be32_congr fun pos fst last => here pos fst (by omega)
  · rw [← flags]
    exact be16_congr fun pos fst last => here pos (by omega) (by omega)
  · intro is64
    rw [← high]
    exact be32_congr fun pos fst last => here pos (by omega) (by omega)
  · intro sums
    have size := summed sums
    rw [← sum sums]
    exact be32_congr fun pos fst last => here pos (by omega) (by omega)

theorem Descritti.tail : Descritti m g seq n b resto (i + 1) (prossimoTag g i off) := by
  have count := descritti.conto
  have room := descritti.spazio
  rw [length_cons] at count
  rw [length_cons, Nat.succ_mul] at room
  obtain ⟨d, zeros, written⟩ := descritti.scritti
  refine ⟨by omega, ?_, ?_, ?_⟩
  · rw [if_neg (Nat.succ_ne_zero i), prossimoTag]
    omega
  · intro other mem
    exact descritti.numeri other (mem_cons_of_mem s mem)
  · refine ⟨dopoTag m g seq n i s d off, dopoTag_zeri geo zeros, ?_⟩
    intro pos fst last
    rw [← descriviDa_cons]
    apply written pos _ last
    unfold prossimoTag at fst
    omega

theorem Descritti.step {r' : Ripresa}
    (fatto : (if quale = .ripristino ∧ revocato r.revoche s.1 seq = false
        then ripristinaTag m g seq b off qui r else .ok r) = .ok r') :
    tagDa m g quale seq b (giri + 1) off qui r = if resto = [] then .ok (avanti g qui, r') else
        tagDa m g quale seq b giri (prossimoTag g i off) (avanti g qui) r' := by
  obtain ⟨room, number, flags, high, _⟩ := descritti.fields geo
  obtain ⟨_, sameUuid, last, _⟩ := tagFlags_spec i n s.2
  have count := descritti.conto
  rw [tagDa, if_pos (by unfold limiteTag at room; exact room), if_neg (by
      intro bad
      exact bad.2 (high bad.1)),
    number, fatto, flags]
  dsimp only
  cases resto with
  | nil => rw [if_pos (last.mpr count), if_pos rfl]
  | cons next more =>
    rw [length_cons, length_cons] at count
    have notLast : ¬ (tagFlags i n s.2 &&& tagUltimo ≠ 0) := by
      omega
    have ne : next :: more ≠ [] := by simp
    rw [if_neg notLast, if_neg ne, prossimoTag]
    by_cases fst : i = 0
    · rw [if_pos (sameUuid.mpr fst), if_pos fst]
    · rw [if_neg (fun same => fst (sameUuid.mp same)), if_neg fst]

end

theorem Descritti.conta (geo : Geometria m file g) (onlyReads : quale ≠ .ripristino) :
    ∀ {i off giri qui : Nat}, Descritti m g seq n b slot i off → slot ≠ [] → slot.length ≤ giri →
      tagDa m g quale seq b giri off qui r = .ok (ultimaCopia g slot qui, r) := by
  induction slot with
  | nil =>
    intro i off giri qui _ ne
    exact absurd rfl ne
  | cons s resto ih =>
    intro i off giri qui descritti _ enough
    cases giri with
    | zero => simp at enough
    | succ giri =>
      rw [descritti.step geo (if_neg fun both => onlyReads both.1), ultimaCopia]
      split
      · next done => rw [done, ultimaCopia]
      rename_i more
      apply ih (descritti.tail geo) more
      rw [length_cons] at enough
      omega

/-- The replay over some commands put on the disk. -/
def Ripresa.dopo (r : Ripresa) (ws : List Scrittura) : Ripresa :=
  { r with disco := Write.applyAll ws r.disco, traccia := r.traccia ++ ws }

theorem Ripresa.dopo_dopo (ws ws' : List Scrittura) :
    (r.dopo ws).dopo ws' = r.dopo (ws ++ ws') := by
  simp [Ripresa.dopo, Write.applyAll_append]

/-- A block that the journal does not occupy. -/
def Libero (g : Giornale) (n : Nat) : Prop := ∀ log, fisico g log ≠ 0 → fisico g log ≠ n

/-- Blocks of the volume that the journal does not occupy. -/
def FuoriGiornale (m : Ext2Mount) (g : Giornale) (n : Nat) : Prop := NelVolume m n ∧ Libero g n

theorem Descritti.ripristinaTag (geo : Geometria m file g)
    (descritti : Descritti m g seq n b (s :: resto) i off) (inside : NelVolume m s.1)
    (copied : gioLeggi g r.disco qui = some (copiaGiornale s.2)) :
    ripristinaTag m g seq b off qui r = .ok (r.dopo [posto s]) := by
  obtain ⟨_, number, flags, _, sum⟩ := descritti.fields geo
  unfold Gio.ripristinaTag
  rw [copied]
  dsimp only
  rw [if_neg (by
      intro bad
      apply bad.2
      rw [sum bad.1, sommaTag_eq]),
    number, flags, copiaGiornale_ripresa, alSuoPosto_eq inside]
  rfl

theorem Copie.posto (out : FuoriGiornale m g s.1)
    (copie : Copie g d slot qui) : Copie g ((posto s).apply d) slot qui := by
  apply copie.congr
  intro log mapped
  exact blocco_apply_of_untouched (posto_untouched (out.2 log mapped)) d

theorem Descritti.ripristina (geo : Geometria m file g) :
    ∀ {i off giri qui : Nat} {r : Ripresa}, Descritti m g seq n b slot i off → slot ≠ [] →
      slot.length ≤ giri → r.revoche = [] → (∀ s ∈ slot, FuoriGiornale m g s.1) →
      Copie g r.disco slot qui → tagDa m g .ripristino seq b giri off qui r =
        .ok (ultimaCopia g slot qui, r.dopo (slot.map posto)) := by
  induction slot with
  | nil =>
    intro i off giri qui r _ ne
    exact absurd rfl ne
  | cons s resto ih =>
    intro i off giri qui r descritti _ enough noRevoke out copie
    have notRevoked : revocato r.revoche s.1 seq = false := by
      rw [noRevoke]
      rfl
    have here := out s mem_cons_self
    cases giri with
    | zero => simp at enough
    | succ giri =>
      rw [descritti.step geo ((if_pos ⟨rfl, notRevoked⟩).trans
          (descritti.ripristinaTag geo here.1 copie.1)), ultimaCopia]
      split
      · next done => rw [done, ultimaCopia, map_cons, map_nil]
      rename_i more
      have rest := ih (r := r.dopo [Gio.posto s]) (descritti.tail geo) more
          (Nat.le_of_succ_le_succ enough) noRevoke
          (fun other mem =>
            out other (mem_cons_of_mem s mem))
          (copie.2.posto here)
      rw [rest, Ripresa.dopo_dopo]
      rfl

/-! ## The blocks of a transaction -/

/-- A descriptor block of transaction `seq` that names the given slots. -/
structure EDescrittore (m : Ext2Mount) (g : Giornale) (seq : Nat)
    (slot : List (Nat × Buffer)) (b : Buffer) : Prop where
  magia : be32 b 0 = gioMagia
  tipo : be32 b 4 = gioDescrittore
  numero : be32 b 8 = seq
  somma : g.somme = true → be32 b (m.dimBlocco - 4) =
    (sommaBlocco g b m.dimBlocco (m.dimBlocco - 4)).toNat
  tag : Descritti m g seq slot.length b slot 0 12

structure ECommit (m : Ext2Mount) (g : Giornale) (seq : Nat) (b : Buffer) : Prop where
  magia : be32 b 0 = gioMagia
  tipo : be32 b 4 = gioCommit
  numero : be32 b 8 = seq
  somma : g.somme = true → be32 b 0x10 = (sommaCommit g b m.dimBlocco).toNat

theorem intestazione_fields {tipo : Nat} (small : tipo < 2 ^ 32) (word : seq < 2 ^ 32)
    (head : ∀ pos, pos < 12 → b pos = intestazione tipo seq pos) :
    be32 b 0 = gioMagia ∧ be32 b 4 = tipo ∧ be32 b 8 = seq := by
  rw [be32_congr fun pos _ _ => head pos (by omega), be32_congr fun pos _ _ => head pos (by omega),
    be32_congr fun pos _ _ => head pos (by omega)]
  unfold intestazione
  refine ⟨?_, ?_, ?_⟩
  · rw [be32_putBe32_outside _ _ (by omega), be32_putBe32_outside _ _ (by omega), be32_putBe32]
    rfl
  · rw [be32_putBe32_outside _ _ (by omega), be32_putBe32, Nat.mod_eq_of_lt small]
  · rw [be32_putBe32, Nat.mod_eq_of_lt word]

theorem intestazione_zeri {tipo seq : Nat} (after : 12 ≤ pos) : intestazione tipo seq pos = 0 := by
  unfold intestazione
  rw [putBe32_outside _ _ (by omega), putBe32_outside _ _ (by omega),
    putBe32_outside _ _ (by omega)]

theorem sommaBlocco_putBe32 {n buco value : Nat} :
    sommaBlocco g (putBe32 b buco value) n buco = sommaBlocco g b n buco := by
  unfold sommaBlocco
  rw [segment_congr fun pos _ upper => putBe32_outside _ _ (.inl (by omega)),
    segment_congr fun pos lower _ => putBe32_outside _ _ (.inr (by omega))]

theorem sommaCommit_putBe32 {n value : Nat} :
    sommaCommit g (putBe32 b 0x10 value) n = sommaCommit g b n := by
  unfold sommaCommit
  rw [segment_congr fun pos _ upper => putBe32_outside _ _ (.inl (by omega)),
    segment_congr fun pos _ upper => putBe32_outside _ _ (.inl (by omega)),
    segment_congr fun pos lower _ => putBe32_outside _ _ (.inr (by omega))]

theorem descrittore_spec (geo : Geometria m file g)
    (word : seq < 2 ^ 32) (fits : g.slot.length ≤ g.maxSlot)
    (inside : ∀ s ∈ g.slot, NelVolume m s.1) :
    EDescrittore m g seq g.slot (descrittore m g seq) := by
  have blocks := m.contati
  have room := geo.capienza
  have less := Nat.mul_le_mul_right g.tag fits
  have limit : limiteTag m g = m.dimBlocco - (if g.somme then 4 else 0) := rfl
  -- Below the tail only the tags differ from the header, and only after it.
  have body : ∀ pos, pos < limiteTag m g → descrittore m g seq pos =
      descriviDa m g seq g.slot.length g.slot 0 12 (intestazione gioDescrittore seq) pos := by
    intro pos inTags
    unfold descrittore
    split
    · next sums =>
      rw [limit, if_pos sums] at inTags
      exact putBe32_outside _ _ (.inl (by omega))
    · rfl
  have head : ∀ pos, pos < 12 → descrittore m g seq pos = intestazione gioDescrittore seq pos := by
    intro pos fst
    rw [body pos (by omega), descriviDa_prima geo _ _ _ pos fst]
  obtain ⟨magic, type, number⟩ := intestazione_fields (by decide) word head
  refine ⟨magic, type, number, ?_, ?_⟩
  · intro sums
    unfold descrittore
    rw [if_pos sums, be32_putBe32, sommaBlocco_putBe32]
    exact Nat.mod_eq_of_lt (UInt32.toNat_lt _)
  · refine ⟨by omega, ?_, ?_, intestazione gioDescrittore seq, ?_, ?_⟩
    · rw [if_pos rfl]
      omega
    · intro s mem
      have := (inside s mem).2
      omega
    · intro pos after
      exact intestazione_zeri after
    · intro pos _ inTags
      exact body pos inTags

theorem bloccoCommit_spec (word : seq < 2 ^ 32) {ora : Nat} :
    ECommit m g seq (bloccoCommit m g seq ora) := by
  have head : ∀ pos, pos < 12 → bloccoCommit m g seq ora pos = intestazione gioCommit seq pos := by
    intro pos fst
    unfold bloccoCommit
    split
    · rw [putBe32_outside _ _ (by omega), putBe32_outside _ _ (by omega)]
    · rw [putBe32_outside _ _ (by omega)]
  obtain ⟨magic, type, number⟩ := intestazione_fields (by decide) word head
  refine ⟨magic, type, number, fun sums => ?_⟩
  unfold bloccoCommit
  rw [if_pos sums, be32_putBe32, sommaCommit_putBe32]
  exact Nat.mod_eq_of_lt (UInt32.toNat_lt _)

theorem passo_descrittore {r' : Ripresa} (goesOn : ¬ (quale ≠ .scan ∧ seq = fine))
    (read : gioLeggi g r.disco pos = some b) (descrittore : EDescrittore m g seq slot b)
    (tags : tagDa m g quale seq b m.dimBlocco 12 (avanti g pos) r = .ok (qui, r')) :
    passo m g quale fine (giri + 1) pos seq r = passo m g quale fine giri qui seq r' := by
  rw [passo, if_neg goesOn, read]
  dsimp only
  rw [if_neg (by
      rw [descrittore.magia, descrittore.numero]
      simp),
    if_pos descrittore.tipo,
    if_neg (fun bad => bad.2 (descrittore.somma bad.1)), tags]

theorem passo_commit (goesOn : ¬ (quale ≠ .scan ∧ seq = fine))
    (read : gioLeggi g r.disco pos = some b) (commit : ECommit m g seq b) :
    passo m g quale fine (giri + 1) pos seq r =
      passo m g quale fine giri (avanti g pos) ((seq + 1) % 2 ^ 32) r := by
  rw [passo, if_neg goesOn, read]
  dsimp only
  rw [if_neg (by
      rw [commit.magia, commit.numero]
      simp),
    if_neg (by
      rw [commit.tipo]
      decide),
    if_pos commit.tipo, if_neg (fun bad => bad.2 (commit.somma bad.1))]

theorem passo_ferma (read : gioLeggi g r.disco pos = some b)
    (other : be32 b 0 ≠ gioMagia ∨ be32 b 8 ≠ seq) :
    passo m g quale fine (giri + 1) pos seq r = .ok (seq, r) := by
  rw [passo]
  split
  · rfl
  · rw [read]
    dsimp only
    rw [if_pos other]

theorem passo_arriva (stops : quale ≠ .scan) :
    passo m g quale fine giri pos fine r = .ok (fine, r) := by
  cases giri with
  | zero => rfl
  | succ giri => rw [passo, if_pos ⟨stops, rfl⟩]

/-- A whole transaction in the journal from block `pos` on. -/
structure Transazione (m : Ext2Mount) (g : Giornale) (d : Disco)
    (pos seq : Nat) (slot : List (Nat × Buffer)) : Prop where
  descritta : ∃ b, gioLeggi g d pos = some b ∧ EDescrittore m g seq slot b
  copiata : Copie g d slot (avanti g pos)
  chiusa : ∃ b, gioLeggi g d (ultimaCopia g slot (avanti g pos)) = some b ∧ ECommit m g seq b

/-- A block that ends the scan of a journal expecting transaction `seq`. -/
def Estraneo (g : Giornale) (d : Disco) (log seq : Nat) : Prop :=
  ∃ b, gioLeggi g d log = some b ∧ (be32 b 0 ≠ gioMagia ∨ be32 b 8 ≠ seq)

include geo

theorem Descritti.rounds (descritti : Descritti m g seq n b slot i off) :
    slot.length ≤ m.dimBlocco := by
  have room := descritti.spazio
  have limit : limiteTag m g = m.dimBlocco - (if g.somme then 4 else 0) := rfl
  have tags := Nat.mul_le_mul_left slot.length geo.tag_bounds.1
  omega

theorem Transazione.percorsa
    (onlyReads : quale ≠ .ripristino) (transazione : Transazione m g d pos seq slot)
    (ne : slot ≠ []) (goesOn : ¬ (quale ≠ .scan ∧ seq = fine)) (disk : r.disco = d) :
    passo m g quale fine (giri + 2) pos seq r = passo m g quale fine giri
        (avanti g (ultimaCopia g slot (avanti g pos))) ((seq + 1) % 2 ^ 32) r := by
  obtain ⟨b, read, descrittore⟩ := transazione.descritta
  obtain ⟨c, closing, commit⟩ := transazione.chiusa
  rw [← disk] at read closing
  rw [passo_descrittore goesOn read descrittore (descrittore.tag.conta geo onlyReads ne
      (descrittore.tag.rounds geo)), passo_commit goesOn closing commit]

theorem Transazione.ripristinata (transazione : Transazione m g d pos seq slot) (ne : slot ≠ [])
    (out : ∀ s ∈ slot, FuoriGiornale m g s.1) (goesOn : seq ≠ fine) (disk : r.disco = d)
    (noRevoke : r.revoche = []) :
    passo m g .ripristino fine (giri + 2) pos seq r = passo m g .ripristino fine giri
        (avanti g (ultimaCopia g slot (avanti g pos)))
        ((seq + 1) % 2 ^ 32) (r.dopo (slot.map posto)) := by
  obtain ⟨b, read, descrittore⟩ := transazione.descritta
  obtain ⟨c, closing, commit⟩ := transazione.chiusa
  have copie := transazione.copiata
  rw [← disk] at read closing copie
  have sameJournal : ∀ log, fisico g log ≠ 0 →
      blocco (r.dopo (slot.map Gio.posto)).disco (fisico g log) =
        blocco r.disco (fisico g log) := by
    intro log mapped
    apply blocco_applyAll_of_untouched
    intro w mem
    obtain ⟨s, sMember, shape⟩ := mem_map.mp mem
    rw [← shape]
    exact posto_untouched ((out s sMember).2 log mapped)
  rw [passo_descrittore (fun both => goesOn both.2) read descrittore
    (descrittore.tag.ripristina geo ne (descrittore.tag.rounds geo) noRevoke out copie),
    passo_commit (fun both => goesOn both.2) (by
        rw [gioLeggi_congr (sameJournal _)]
        exact closing)
      commit]

omit geo

theorem succ_mod_ne (seq : Nat) : (seq + 1) % 2 ^ 32 ≠ seq := by
  omega

theorem Transazione.ripristina (geo : Geometria m file g)
    (transazione : Transazione m g d pos seq slot) (nonzero : slot ≠ [])
    (out : ∀ s ∈ slot, FuoriGiornale m g s.1) (long : 3 ≤ g.maxlen)
    (ended : Estraneo g d (avanti g (ultimaCopia g slot (avanti g pos))) ((seq + 1) % 2 ^ 32)) :
    let r := { disco := d, traccia := [], revoche := [], pieno := false }
    passo m g .scan seq g.maxlen pos seq r = .ok ((seq + 1) % 2 ^ 32, r) ∧
      Gio.ripristina m g d pos seq = .ok ((seq + 1) % 2 ^ 32, r.dopo (slot.map posto)) := by
  obtain ⟨giri, rounds⟩ := Nat.exists_eq_add_of_le' long
  obtain ⟨b, read, other⟩ := ended
  have ne := succ_mod_ne seq
  have scan : passo m g .scan seq g.maxlen pos seq
      { disco := d, traccia := [], revoche := [], pieno := false } = .ok ((seq + 1) % 2 ^ 32,
          { disco := d, traccia := [], revoche := [], pieno := false }) := by
    rw [rounds, transazione.percorsa geo (by simp) nonzero (by simp) rfl, passo_ferma read other]
  refine ⟨scan, ?_⟩
  unfold Gio.ripristina
  dsimp only
  rw [scan]
  dsimp only
  rw [if_neg ne, rounds,
    transazione.percorsa geo (by simp) nonzero (fun both => ne both.2.symm) rfl,
    passo_arriva (by simp)]
  dsimp only
  rw [if_neg (by simp), transazione.ripristinata geo nonzero out ne.symm rfl rfl,
    passo_arriva (by simp)]

end Tag

end ExOs.Ext4.Gio
