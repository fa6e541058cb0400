import Mathlib.Tactic.Common
import Mathlib.Tactic.Ring

/-!
# Byte buffers and the integers stored in them

A buffer is a total map from offsets to bytes; the length of the C array
belongs to its users.  A load sees the last store at its own offset, and no
store at a disjoint one.  Integers are read and written byte by byte, in both
byte orders, reduced modulo the width of their field as a C assignment reduces
them.
-/

namespace ExOs.Library

open List

/-- A byte array seen as a total map from offsets. -/
abbrev Buffer := Nat → UInt8

namespace Buffer

variable (buffer : Buffer)

def set (offset : Nat) (value : UInt8) : Buffer :=
  fun pos => if pos = offset then value else buffer pos

variable (buffer : Buffer)

@[simp]
theorem set_same {offset : Nat} {value : UInt8} : set buffer offset value offset = value := by
  simp [set]

variable {pos offset count : Nat} {Element : Type} {left right : Buffer} {sourceOffset : Nat}
  {source : Nat → Element}

theorem set_other {value : UInt8} (ne : pos ≠ offset) :
    set buffer offset value pos = buffer pos := by
  simp [set, ne]

theorem set_self {value : Nat} (same : value % 256 = (buffer offset).toNat) :
    set buffer offset (UInt8.ofNat value) = buffer := by
  have byte : UInt8.ofNat value = buffer offset := by
    apply UInt8.toNat_inj.mp
    exact same
  funext pos
  by_cases here : pos = offset
  · rw [here, set_same, byte]
  · exact set_other buffer here

/-- Fill `count` bytes from `offset` with one value, as `memset` does. -/
def fill (offset count : Nat) (value : UInt8) : Buffer :=
  fun pos =>
    if offset ≤ pos ∧ pos < offset + count then value
    else buffer pos

theorem fill_inside {value : UInt8} (lower : offset ≤ pos) (upper : pos < offset + count) :
    fill buffer offset count value pos = value := by
  simp [fill, lower, upper]

theorem fill_outside {value : UInt8} (out : pos < offset ∨ offset + count ≤ pos) :
    fill buffer offset count value pos = buffer pos := by
  unfold fill
  rw [if_neg]
  omega

/-- Copy `count` elements of `source`, from `sourceOffset`, to `offset`.  The
elements are bytes here, whole sectors or blocks elsewhere. -/
def copy {Element : Type} (buffer : Nat → Element) (offset : Nat)
    (source : Nat → Element) (sourceOffset count : Nat) : Nat → Element :=
  fun pos =>
    if offset ≤ pos ∧ pos < offset + count then source (sourceOffset + (pos - offset))
    else buffer pos

theorem copy_inside {buffer source : Nat → Element}
    (lower : offset ≤ pos) (upper : pos < offset + count) :
    copy buffer offset source sourceOffset count pos = source (sourceOffset + (pos - offset)) := by
  simp [copy, lower, upper]

theorem copy_outside {buffer source : Nat → Element} (out : pos < offset ∨ offset + count ≤ pos) :
    copy buffer offset source sourceOffset count pos = buffer pos := by
  unfold copy
  rw [if_neg]
  omega

theorem copy_zero {buffer : Nat → Element} : copy buffer offset source sourceOffset 0 = buffer := by
  funext pos
  rw [copy_outside]
  omega

theorem copy_congr {buffer : Nat → Element} {source other : Nat → Element}
    {sourceOffset otherOffset : Nat}
    (same : ∀ j < count, source (sourceOffset + j) = other (otherOffset + j)) :
    copy buffer offset source sourceOffset count = copy buffer offset other otherOffset count := by
  funext pos
  by_cases here : offset ≤ pos ∧ pos < offset + count
  · rw [copy_inside here.1 here.2, copy_inside here.1 here.2, same _ (by omega)]
  · rw [copy_outside (by omega), copy_outside (by omega)]

theorem copy_one {buffer : Nat → Element} :
    copy buffer offset source sourceOffset 1 =
      Function.update buffer offset (source sourceOffset) := by
  funext pos
  by_cases here : pos = offset
  · rw [here, copy_inside (Nat.le_refl _) (by omega), Nat.sub_self, Function.update_self,
      Nat.add_zero]
  · rw [copy_outside (by omega), Function.update_of_ne here]

theorem copy_append {buffer : Nat → Element} {sourceOffset fst snd : Nat} :
    copy (copy buffer offset source sourceOffset fst) (offset + fst)
        source (sourceOffset + fst) snd = copy buffer offset source sourceOffset (fst + snd) := by
  funext pos
  by_cases later : offset + fst ≤ pos ∧ pos < offset + fst + snd
  · rw [copy_inside later.1 later.2, copy_inside (by omega) (by omega)]
    congr 1
    omega
  rw [copy_outside (by omega)]
  by_cases earlier : offset ≤ pos ∧ pos < offset + fst
  · rw [copy_inside earlier.1 earlier.2, copy_inside (by omega) (by omega)]
  · rw [copy_outside (by omega), copy_outside (by omega)]

/-! ## Little-endian integers -/

/-- The 16-bit little-endian integer at `offset`. -/
def le16 (offset : Nat) : Nat :=
  (buffer offset).toNat + 256 * (buffer (offset + 1)).toNat

/-- The 32-bit little-endian integer at `offset`. -/
def le32 (offset : Nat) : Nat :=
  (buffer offset).toNat + 256 * (buffer (offset + 1)).toNat +
    65536 * (buffer (offset + 2)).toNat +
    16777216 * (buffer (offset + 3)).toNat

/-- Store the low 32 bits of `value` at `offset`, least byte first. -/
def putLe32 (offset value : Nat) : Buffer :=
  set
    (set (set (set buffer offset (UInt8.ofNat value)) (offset + 1) (UInt8.ofNat (value / 256)))
      (offset + 2) (UInt8.ofNat (value / 65536)))
    (offset + 3) (UInt8.ofNat (value / 16777216))

theorem bytes_lt (offset : Nat) :
    (buffer offset).toNat < 2 ^ 8 ∧ (buffer (offset + 1)).toNat < 2 ^ 8 ∧
      (buffer (offset + 2)).toNat < 2 ^ 8 ∧ (buffer (offset + 3)).toNat < 2 ^ 8 :=
  ⟨UInt8.toNat_lt _, UInt8.toNat_lt _, UInt8.toNat_lt _, UInt8.toNat_lt _⟩

theorem le32_lt (offset : Nat) : le32 buffer offset < 2 ^ 32 := by
  obtain ⟨fst, snd, third, fourth⟩ := bytes_lt buffer offset
  unfold le32
  omega

variable (value : Nat) {words : List (Nat × Nat)} {other : Nat}

theorem putLe32_outside (out : pos < offset ∨ offset + 4 ≤ pos) :
    putLe32 buffer offset value pos = buffer pos := by
  unfold putLe32
  rw [set_other, set_other, set_other, set_other] <;> omega

@[simp]
theorem le32_putLe32 {offset value : Nat} :
    le32 (putLe32 buffer offset value) offset = value % 2 ^ 32 := by
  simp [le32, putLe32, set]
  omega

theorem le32_congr (agree : ∀ pos, offset ≤ pos → pos < offset + 4 → left pos = right pos) :
    le32 left offset = le32 right offset := by
  unfold le32
  rw [agree offset (by omega) (by omega), agree (offset + 1) (by omega) (by omega),
    agree (offset + 2) (by omega) (by omega),
    agree (offset + 3) (by omega) (by omega)]

theorem le32_putLe32_outside (apart : other + 4 ≤ offset ∨ offset + 4 ≤ other) :
    le32 (putLe32 buffer offset value) other = le32 buffer other := by
  apply le32_congr
  intro pos lower upper
  exact putLe32_outside buffer value (by omega)

theorem putLe32_le32 (offset : Nat) : putLe32 buffer offset (le32 buffer offset) = buffer := by
  obtain ⟨fst, snd, third, fourth⟩ := bytes_lt buffer offset
  unfold putLe32 le32
  rw [set_self buffer, set_self buffer, set_self buffer, set_self buffer] <;> omega

theorem putLe32_congr (agree : left pos = right pos) (offset value : Nat) :
    putLe32 left offset value pos = putLe32 right offset value pos := by
  unfold putLe32 set
  rw [agree]

theorem putLe32_mod {offset value : Nat} :
    putLe32 buffer offset (value % 2 ^ 32) = putLe32 buffer offset value := by
  have byte : ∀ n m : Nat, n % 256 = m % 256 → UInt8.ofNat n = UInt8.ofNat m := by
    intro n m same
    apply UInt8.toNat_inj.mp
    exact same
  rw [putLe32, putLe32, byte (value % 2 ^ 32) value (by omega),
    byte (value % 2 ^ 32 / 256) (value / 256) (by omega),
    byte (value % 2 ^ 32 / 65536) (value / 65536) (by omega),
    byte (value % 2 ^ 32 / 16777216) (value / 16777216) (by omega)]

/-- Words stored one after the other, the last one first in the list. -/
def putAll (words : List (Nat × Nat)) : Buffer :=
  words.foldr (fun word rest => putLe32 rest word.1 word.2) buffer

theorem putAll_outside {buffer : Buffer} (out : ∀ word ∈ words, pos < word.1 ∨ word.1 + 4 ≤ pos) :
    putAll buffer words pos = buffer pos := by
  induction words with
  | nil => rfl
  | cons word rest ih =>
    exact (putLe32_outside _ _ (out word mem_cons_self)).trans
      (ih fun other mem => out other (mem_cons_of_mem word mem))

/-- Words stored over a memory are read back, with others that were there: all of them
are words of a memory, so no two of them are at one address. -/
theorem le32_putAll_of_words {buffer : Buffer} (All : Nat × Nat → Prop)
    (sound : ∀ word, All word → word.1 % 4 = 0 ∧ word.2 < 2 ^ 32)
    (unique : ∀ word other, All word → All other → word.1 = other.1 → word = other)
    (stored : ∀ word ∈ words, All word)
    {word : Nat × Nat} (mem : All word) (kept : word ∈ words ∨ le32 buffer word.1 = word.2) :
    le32 (putAll buffer words) word.1 = word.2 := by
  induction words with
  | nil => exact kept.resolve_left not_mem_nil
  | cons fst rest ih =>
    have isFst := stored fst mem_cons_self
    have isSound := sound word mem
    have fstSound := sound fst isFst
    by_cases here : word.1 = fst.1
    · rw [unique word fst mem isFst here]
      exact (le32_putLe32 _).trans (Nat.mod_eq_of_lt fstSound.2)
    · refine (le32_putLe32_outside _ _ (by omega)).trans
        (ih (fun other later => stored other (mem_cons_of_mem _ later)) ?_)
      refine kept.imp_left fun hit => (mem_cons.mp hit).resolve_left ?_
      exact fun equal => here (by rw [equal])

theorem le32_putAll_outside (words : List (Nat × Nat))
    (aligned : ∀ word ∈ words, word.1 % 4 = 0) (isWord : offset % 4 = 0)
    (away : ∀ word ∈ words, word.1 ≠ offset) :
    le32 (putAll buffer words) offset = le32 buffer offset := by
  apply le32_congr
  intro pos lower upper
  refine putAll_outside fun word mem => ?_
  have ne := away word mem
  have mul := aligned word mem
  omega

/-! ## Big-endian integers -/

def be32 (offset : Nat) : Nat :=
  16777216 * (buffer offset).toNat + 65536 * (buffer (offset + 1)).toNat +
    256 * (buffer (offset + 2)).toNat + (buffer (offset + 3)).toNat

def be16 (offset : Nat) : Nat :=
  256 * (buffer offset).toNat + (buffer (offset + 1)).toNat

def putBe32 (offset value : Nat) : Buffer :=
  set
    (set (set (set buffer offset (UInt8.ofNat (value / 16777216)))
        (offset + 1) (UInt8.ofNat (value / 65536))) (offset + 2) (UInt8.ofNat (value / 256)))
    (offset + 3) (UInt8.ofNat value)

def putBe16 (offset value : Nat) : Buffer :=
  set (set buffer offset (UInt8.ofNat (value / 256))) (offset + 1) (UInt8.ofNat value)

theorem be32_lt (offset : Nat) : be32 buffer offset < 2 ^ 32 := by
  obtain ⟨fst, snd, third, fourth⟩ := bytes_lt buffer offset
  unfold be32
  omega

theorem putBe32_outside (out : pos < offset ∨ offset + 4 ≤ pos) :
    putBe32 buffer offset value pos = buffer pos := by
  unfold putBe32
  rw [set_other, set_other, set_other, set_other] <;> omega

theorem putBe16_outside (out : pos < offset ∨ offset + 2 ≤ pos) :
    putBe16 buffer offset value pos = buffer pos := by
  unfold putBe16
  rw [set_other, set_other] <;> omega

@[simp]
theorem be32_putBe32 {offset value : Nat} :
    be32 (putBe32 buffer offset value) offset = value % 2 ^ 32 := by
  simp [be32, putBe32, set]
  omega

@[simp]
theorem be16_putBe16 {offset value : Nat} :
    be16 (putBe16 buffer offset value) offset = value % 2 ^ 16 := by
  simp [be16, putBe16, set]
  omega

theorem be32_congr (agree : ∀ pos, offset ≤ pos → pos < offset + 4 → left pos = right pos) :
    be32 left offset = be32 right offset := by
  unfold be32
  rw [agree offset (by omega) (by omega), agree (offset + 1) (by omega) (by omega),
    agree (offset + 2) (by omega) (by omega),
    agree (offset + 3) (by omega) (by omega)]

theorem be16_congr (agree : ∀ pos, offset ≤ pos → pos < offset + 2 → left pos = right pos) :
    be16 left offset = be16 right offset := by
  unfold be16
  rw [agree offset (by omega) (by omega), agree (offset + 1) (by omega) (by omega)]

theorem be32_putBe32_outside (apart : other + 4 ≤ offset ∨ offset + 4 ≤ other) :
    be32 (putBe32 buffer offset value) other = be32 buffer other := by
  apply be32_congr
  intro pos lower upper
  exact putBe32_outside buffer value (by omega)

theorem putBe32_putBe32 (offset fst snd : Nat) :
    putBe32 (putBe32 buffer offset fst) offset snd = putBe32 buffer offset snd := by
  funext pos
  by_cases out : pos < offset ∨ offset + 4 ≤ pos
  · rw [putBe32_outside _ _ out, putBe32_outside _ _ out, putBe32_outside _ _ out]
  unfold putBe32 set
  split
  · rfl
  split
  · rfl
  split
  · rfl
  split
  · rfl
  omega

theorem putBe32_be32 (offset : Nat) : putBe32 buffer offset (be32 buffer offset) = buffer := by
  obtain ⟨fst, snd, third, fourth⟩ := bytes_lt buffer offset
  unfold putBe32 be32
  rw [set_self buffer, set_self buffer, set_self buffer, set_self buffer] <;> omega

def segment (offset count : Nat) : List UInt8 :=
  (List.range' offset count).map buffer

theorem length_segment (offset count : Nat) : (segment buffer offset count).length = count := by
  rw [segment, length_map, length_range']

theorem segment_append (offset fst snd : Nat) :
    segment buffer offset fst ++ segment buffer (offset + fst) snd =
      segment buffer offset (fst + snd) := by
  unfold segment
  rw [← map_append, List.range'_append_1]

theorem segment_congr (agree : ∀ pos, offset ≤ pos → pos < offset + count → left pos = right pos) :
    segment left offset count = segment right offset count := by
  apply map_congr_left
  intro pos mem
  have bounds := mem_range'_1.mp mem
  exact agree pos bounds.1 bounds.2

end Buffer

end ExOs.Library
