import ExOs.Ext4.GiornaleCommit

/-!
# The superblocks of a journal and of its volume

The journal superblocks that commits and mounts write describe the same
journal, and the mark that a mount leaves on the volume's superblock can be
repeated.
-/

namespace ExOs.Ext4.Gio

open ExOs.Library ExOs.Library.Buffer ExOs.Fs

/-! ## One journal through its records -/

/-- The record of an opened journal with another sequence number, open
transaction and copy of the superblock. -/
def con (g₀ : Giornale) (seq : Nat) (slot : List (Nat × Buffer)) (jsb : Buffer) : Giornale :=
  { g₀ with seq := seq, slot := slot, jsb := jsb, guasto := false }

/-- A journal superblock that differs from another one in the sequence number,
the start and the sum, and whose sum is right. -/
structure Stampo (g₀ : Giornale) (jsb₀ jsb : Buffer) : Prop where
  uguale : ∀ pos, (pos < 0x18 ∨ 0x20 ≤ pos) → (pos < 0xFC ∨ 0x100 ≤ pos) → jsb pos = jsb₀ pos
  somma : g₀.somme = true → be32 jsb 0xFC = (sommaJsb jsb).toNat

variable {m : Ext2Mount} {file : FileGiornale} {g₀ : Giornale} {jsb₀ jsb : Buffer} {sb sb' : Buffer}

theorem Stampo.be32_eq (stampo : Stampo g₀ jsb₀ jsb) (off : Nat)
    (away : off + 4 ≤ 0x18 ∨ 0x20 ≤ off ∧ off + 4 ≤ 0xFC) :
    be32 jsb off = be32 jsb₀ off := by
  apply be32_congr
  intro pos lower upper
  exact stampo.uguale pos (by omega) (by omega)

theorem sommaJsb_putBe32 {value : Nat} : sommaJsb (putBe32 jsb 0xFC value) = sommaJsb jsb := by
  unfold sommaJsb
  rw [segment_congr fun pos _ upper => putBe32_outside _ _ (.inl (by omega)),
    segment_congr fun pos lower _ => putBe32_outside _ _ (.inr (by omega))]

theorem Stampo.conInizio (stampo : Stampo g₀ jsb₀ jsb) (seq start : Nat) :
    Stampo g₀ jsb₀ (sommato g₀ 0 (conInizio jsb seq start)) := by
  unfold sommato Gio.conInizio
  by_cases sums : g₀.somme = true
  · rw [if_pos ⟨rfl, sums⟩]
    refine ⟨?_, ?_⟩
    · intro pos notStart notSum
      rw [putBe32_outside _ _ notSum, putBe32_outside _ _ (by omega),
        putBe32_outside _ _ (by omega)]
      exact stampo.uguale pos notStart notSum
    · intro _
      rw [be32_putBe32, sommaJsb_putBe32]
      exact Nat.mod_eq_of_lt (UInt32.toNat_lt _)
  · rw [if_neg (fun both => sums both.2)]
    refine ⟨?_, fun summed => absurd summed sums⟩
    intro pos notStart notSum
    rw [putBe32_outside _ _ (by omega), putBe32_outside _ _ (by omega)]
    exact stampo.uguale pos notStart notSum

theorem sommato_conInizio_fields (g : Giornale) (jsb : Buffer) (seq start : Nat) :
    be32 (sommato g 0 (conInizio jsb seq start)) 0x18 = seq % 2 ^ 32 ∧
      be32 (sommato g 0 (conInizio jsb seq start)) 0x1C = start % 2 ^ 32 := by
  have plain : be32 (conInizio jsb seq start) 0x18 = seq % 2 ^ 32 ∧
      be32 (conInizio jsb seq start) 0x1C = start % 2 ^ 32 := by
    unfold conInizio
    refine ⟨?_, be32_putBe32 ..⟩
    rw [be32_putBe32_outside _ _ (by omega), be32_putBe32]
  unfold sommato
  split
  · exact plain
  · exact plain

theorem gioFunzioni_stampo {inc : Nat}
    (uguale : ∀ pos, (pos < 0x18 ∨ 0x20 ≤ pos) → (pos < 0xFC ∨ 0x100 ≤ pos) → jsb pos = jsb₀ pos)
    (somma : inc &&& gioIncCsumV3 ≠ 0 → be32 jsb 0xFC = (sommaJsb jsb).toNat)
    (features : gioFunzioni jsb₀ = some inc) : gioFunzioni jsb = some inc := by
  have word : ∀ off, off + 4 ≤ 0x18 ∨ 0x20 ≤ off ∧ off + 4 ≤ 0xFC →
      be32 jsb off = be32 jsb₀ off := by
    intro off away
    apply be32_congr
    intro pos lower upper
    exact uguale pos (by omega) (by omega)
  unfold gioFunzioni at features ⊢
  dsimp only at features ⊢
  rw [word 4 (by omega), word 0x24 (by omega), word 0x28 (by omega),
    word 0x2C (by omega), uguale 0x50 (by omega) (by omega)]
  split at features
  · next isV2 =>
    rw [if_pos isV2]
    split at features
    · simp at features
    rename_i handled
    rw [if_neg handled]
    split at features
    · simp at features
    rename_i summed
    have isInc := Option.some.inj features
    rw [if_neg, isInc]
    intro bad
    rw [isInc] at bad
    rcases bad.2 with kind | sum
    · exact summed ⟨isInc ▸ bad.1, .inl kind⟩
    · exact sum (somma bad.1)
  · next isV1 =>
    rw [if_neg isV1]
    exact features

theorem giornaleApri_stampo (aperto : giornaleApri m file jsb₀ = some g₀)
    (stampo : Stampo g₀ jsb₀ jsb) :
    giornaleApri m file jsb = some (con g₀ (be32 jsb 0x18) [] jsb) := by
  obtain ⟨checks, inc, corse, features, built, enough, isG⟩ := giornaleApri_eq_some_iff.mp aperto
  have type := stampo.be32_eq 4 (by omega)
  have length := stampo.be32_eq 0x10 (by omega)
  have fst := stampo.be32_eq 0x14 (by omega)
  have features' : gioFunzioni jsb = some inc := by
    apply gioFunzioni_stampo stampo.uguale _ features
    intro sums
    apply stampo.somma
    rw [isG]
    simp [giornaleDi, sums]
  apply giornaleApri_eq_some_iff.mpr
  rw [stampo.be32_eq 0 (by omega), stampo.be32_eq 0x0C (by omega), type, length, fst]
  refine ⟨checks, inc, corse, features', built, enough, ?_⟩
  have sameUuid : ∀ k, k < 16 → jsb (0x30 + k) = jsb₀ (0x30 + k) := by
    intro k small
    exact stampo.uguale (0x30 + k) (by omega) (by omega)
  have uuid : (fun k => if be32 jsb 4 = gioSuperV2 ∧ k < 16 then jsb (0x30 + k) else 0) = fun k =>
          if be32 jsb₀ 4 = gioSuperV2 ∧ k < 16 then jsb₀ (0x30 + k) else 0 := by
    funext k
    rw [type]
    split
    · next small => exact sameUuid k small.2
    · rfl
  rw [isG]
  unfold con giornaleDi
  rw [uuid, length, fst]

theorem Stampo.refl (aperto : giornaleApri m file jsb = some g₀) : Stampo g₀ jsb jsb := by
  refine ⟨fun _ _ _ => rfl, ?_⟩
  intro summed
  obtain ⟨_, inc, corse, features, _, _, isG⟩ := giornaleApri_eq_some_iff.mp aperto
  have sums : inc &&& gioIncCsumV3 ≠ 0 := by
    rw [isG] at summed
    exact of_decide_eq_true summed
  unfold gioFunzioni at features
  dsimp only at features
  split at features
  · split at features
    · simp at features
    split at features
    · simp at features
    rename_i right
    rw [Option.some.inj features] at right
    by_contra wrong
    exact right ⟨sums, .inr wrong⟩
  · rw [← Option.some.inj features] at sums
    exact absurd rfl sums

theorem giornaleApri_con (aperto : giornaleApri m file jsb = some g₀) :
    g₀ = con g₀ (be32 jsb 0x18) [] jsb := by
  obtain ⟨_, inc, corse, _, _, _, isG⟩ := giornaleApri_eq_some_iff.mp aperto
  rw [isG]
  rfl

/-! ## The mark on the volume's superblock -/

/-- The superblock as `segna_recover` writes it. -/
def marcato (m : Ext2Mount) (sb : Buffer) : Buffer :=
  sommaSuper m (putLe32 sb 96 (le32 sb 96 ||| incompatRecover))

/-- The volume after `segna_recover`. -/
def segnato (m : Ext2Mount) (d : Disco) : Disco := (segnaRecover m d).apply d

/-- `needs_recovery` in a superblock. -/
def Recover (sb : Buffer) : Prop := le32 sb 96 &&& incompatRecover ≠ 0

instance (sb : Buffer) : Decidable (Recover sb) := inferInstanceAs (Decidable (_ ≠ _))

theorem le32_sommaSuper : le32 (sommaSuper m sb) 96 = le32 sb 96 := by
  unfold sommaSuper
  split
  · rw [le32_putLe32_outside _ _ (by omega)]
  · rfl

theorem le32_marcato : le32 (marcato m sb) 96 = le32 sb 96 ||| incompatRecover := by
  unfold marcato
  rw [le32_sommaSuper, le32_putLe32]
  apply Nat.mod_eq_of_lt
  exact Nat.or_lt_two_pow (le32_lt sb 96) (by decide)

theorem recover_marcato (m : Ext2Mount) (sb : Buffer) : Recover (marcato m sb) := by
  unfold Recover
  rw [le32_marcato, Nat.and_or_distrib_right]
  intro zero
  have flag := (Nat.or_eq_zero_iff.mp zero).2
  nomatch flag

theorem sommaSuper_sommaSuper : sommaSuper m (sommaSuper m sb) = sommaSuper m sb := by
  unfold sommaSuper
  split
  · have sameBytes : ∀ value, segment (putLe32 sb 0x3FC value) 0 0x3FC = segment sb 0 0x3FC := by
      intro value
      apply segment_congr
      intro pos _ upper
      exact putLe32_outside sb value (.inl (by omega))
    rw [sameBytes]
    have again := putLe32_le32
      (putLe32 sb 0x3FC (crc32cGrezzo 0xFFFFFFFF (segment sb 0 0x3FC)).toNat)
      0x3FC
    rw [le32_putLe32, Nat.mod_eq_of_lt (UInt32.toNat_lt _)] at again
    exact again
  · rfl

theorem marcato_marcato (m : Ext2Mount) (sb : Buffer) :
    marcato m (marcato m sb) = marcato m sb := by
  have flagged : putLe32 (marcato m sb) 96
      (le32 (marcato m sb) 96 ||| incompatRecover) = marcato m sb := by
    have stays : le32 (marcato m sb) 96 ||| incompatRecover = le32 (marcato m sb) 96 := by
      rw [le32_marcato, Nat.or_assoc, Nat.or_self]
    rw [stays, putLe32_le32]
  unfold marcato at flagged ⊢
  rw [flagged, sommaSuper_sommaSuper]

theorem sommaSuper_congr (agree : ∀ pos, pos < 1024 → sb pos = sb' pos) :
    ∀ pos, pos < 1024 → sommaSuper m sb pos = sommaSuper m sb' pos := by
  intro pos small
  have sameBytes : segment sb 0 0x3FC = segment sb' 0 0x3FC :=
    segment_congr fun pos _ upper => agree pos (by omega)
  unfold sommaSuper
  split
  · rw [sameBytes]
    exact putLe32_congr (agree pos small) _ _
  · exact agree pos small

theorem marcato_congr (agree : ∀ pos, pos < 1024 → sb pos = sb' pos) :
    ∀ pos, pos < 1024 → marcato m sb pos = marcato m sb' pos := by
  apply sommaSuper_congr
  intro pos small
  have sameWord : le32 sb 96 = le32 sb' 96 := le32_congr fun pos _ upper => agree pos (by omega)
  rw [sameWord]
  exact putLe32_congr (agree pos small) _ _

def superBlocco (m : Ext2Mount) : Nat := if m.dimBlocco = 1024 then 1 else 0

/-- Where the superblock starts in its block. -/
def superInizio (m : Ext2Mount) : Nat := if m.dimBlocco = 1024 then 0 else superOffset

theorem superblocco_eq {d : Disco} :
    superblocco m d = fun pos => d (superBlocco m, superInizio m + pos) := by
  unfold superblocco superBlocco superInizio blocco
  split
  · simp
  · rfl

variable (d : Disco) {pos : Nat}

theorem segnaRecover_untouched {n : Nat}
    (other : n ≠ superBlocco m) : segnaRecover m d (n, pos) = none := by
  unfold superBlocco at other
  unfold segnaRecover scriviSuper
  split
  · next small =>
    rw [if_pos small] at other
    exact scriviTutto_untouched other _ pos
  · next large =>
    rw [if_neg large] at other
    exact if_neg fun both => other both.1

theorem segnato_outside {n : Nat} (other : n ≠ superBlocco m) : segnato m d (n, pos) = d (n, pos) :=
  Write.apply_outside (segnaRecover_untouched d other)

theorem segnaRecover_super {x d : Disco} :
    (segnaRecover m x).apply d (superBlocco m, pos) = if superInizio m ≤ pos ∧
          (m.dimBlocco = 1024 ∨ pos < superInizio m + 1024) then
        marcato m (superblocco m x) (pos - superInizio m) else d (superBlocco m, pos) := by
  unfold Write.apply segnaRecover scriviSuper superBlocco superInizio
  split
  · next small => simp [small, scriviTutto, marcato]
  · next large =>
    simp only [large, false_or, true_and]
    split <;> simp [marcato]

theorem segnato_super (pos : Nat) : segnato m d (superBlocco m, pos) =
      if superInizio m ≤ pos ∧ (m.dimBlocco = 1024 ∨ pos < superInizio m + 1024) then
        marcato m (superblocco m d) (pos - superInizio m) else d (superBlocco m, pos) :=
  segnaRecover_super

/-- Marks depend on the block of the superblock only, and a second one changes
nothing. -/
theorem segnato_congr {d d' : Disco}
    (agree : ∀ pos, d (superBlocco m, pos) = d' (superBlocco m, pos)) :
    segnato m d (superBlocco m, pos) = segnato m d' (superBlocco m, pos) := by
  have sameSuper : superblocco m d = superblocco m d' := by
    rw [superblocco_eq, superblocco_eq]
    funext pos
    exact agree (superInizio m + pos)
  rw [segnato_super, segnato_super, sameSuper, agree pos]

theorem superblocco_segnaRecover {x d : Disco} : ∀ pos, pos < 1024 →
      superblocco m ((segnaRecover m x).apply d) pos = marcato m (superblocco m x) pos := by
  intro pos small
  rw [superblocco_eq]
  dsimp only
  rw [segnaRecover_super, if_pos ⟨Nat.le_add_right .., .inr (by omega)⟩, Nat.add_sub_cancel_left]

theorem recover_segnaRecover (x d : Disco) :
    Recover (superblocco m ((segnaRecover m x).apply d)) := by
  have marked := recover_marcato m (superblocco m x)
  unfold Recover at marked ⊢
  rw [le32_congr fun pos _ upper => superblocco_segnaRecover pos (by omega)]
  exact marked

theorem segnato_segnato : segnato m (segnato m d) = segnato m d := by
  funext c
  obtain ⟨n, pos⟩ := c
  by_cases isSuper : n = superBlocco m
  · rw [isSuper, segnato_super (segnato m d)]
    split
    · next inside =>
      rw [segnato_super d, if_pos inside]
      have again := congrFun (marcato_marcato m (superblocco m d)) (pos - superInizio m)
      rw [← again]
      by_cases small : m.dimBlocco = 1024
      · have whole : superblocco m (segnato m d) = marcato m (superblocco m d) := by
          funext pos
          rw [superblocco_eq]
          dsimp only
          rw [segnato_super, if_pos ⟨Nat.le_add_right .., .inl small⟩, Nat.add_sub_cancel_left]
        rw [whole]
      · apply marcato_congr superblocco_segnaRecover
        omega
    · rfl
  · exact segnato_outside _ isSuper

end ExOs.Ext4.Gio
