import Mathlib.Algebra.Ring.Nat
import Mathlib.Tactic.Ring
import Mathlib.Tactic.Common

/-!
# Numbers in words

A number written in a base, its least word first.  The words of `number` may
be larger than the base, so that a row of products is a number before and after
its carries have been taken; `carry` and `borrow` are the two chains.
-/

namespace ExOs.Library

variable {base count : Nat} {word other : Nat → Nat}

/-- The value of the first `count` words. -/
def number (base : Nat) (word : Nat → Nat) : Nat → Nat
  | 0 => 0
  | count + 1 => number base word count + word count * base ^ count

theorem number_congr (same : ∀ i < count, word i = other i) :
    number base word count = number base other count := by
  induction count with
  | zero => rfl
  | succ count ih =>
    rw [number, number, same count (Nat.lt_succ_self count),
      ih fun i below => same i (Nat.lt_succ_of_lt below)]

theorem number_lt (small : ∀ i < count, word i < base) : number base word count < base ^ count := by
  induction count with
  | zero => exact Nat.one_pos
  | succ count ih =>
    have below := ih fun i less => small i (Nat.lt_succ_of_lt less)
    have top : word count + 1 ≤ base := small count (Nat.lt_succ_self count)
    calc number base word count + word count * base ^ count
        < base ^ count + word count * base ^ count := Nat.add_lt_add_right below _
      _ = (word count + 1) * base ^ count := by ring
      _ ≤ base * base ^ count := Nat.mul_le_mul_right _ top
      _ = base ^ (count + 1) := (Nat.pow_succ').symm

theorem number_add (base : Nat) (word other : Nat → Nat) (count : Nat) :
    number base (fun i => word i + other i) count =
      number base word count + number base other count := by
  induction count with
  | zero => rfl
  | succ count ih =>
    rw [number, number, number, ih]
    ring

theorem number_mul {factor count : Nat} :
    number base (fun i => word i * factor) count = number base word count * factor := by
  induction count with
  | zero => exact (Nat.zero_mul factor).symm
  | succ count ih =>
    rw [number, number, ih]
    ring

theorem number_shift :
    number base word (count + 1) = word 0 + base * number base (fun i => word (i + 1)) count := by
  induction count with
  | zero => simp [number]
  | succ count ih =>
    rw [number, ih, number]
    ring

theorem number_zeros {low : Nat} (zeros : ∀ i, low ≤ i → i < count → word i = 0)
    (within : low ≤ count) : number base word count = number base word low := by
  induction count with
  | zero => rw [Nat.le_zero.mp within]
  | succ count ih =>
    rcases Nat.lt_or_eq_of_le within with below | same
    · have le : low ≤ count := Nat.le_of_lt_succ below
      rw [number, zeros count le (Nat.lt_succ_self count), Nat.zero_mul]
      exact ih (fun i above less => zeros i above (Nat.lt_succ_of_lt less)) le
    · rw [same]

theorem number_top (top : word count ≠ 0) : base ^ count ≤ number base word (count + 1) := by
  calc base ^ count = 1 * base ^ count := (Nat.one_mul _).symm
    _ ≤ word count * base ^ count := Nat.mul_le_mul_right _ (Nat.one_le_iff_ne_zero.mpr top)
    _ ≤ _ := Nat.le_add_left _ _

theorem number_lt_number {place : Nat} (lt : place < count)
    (small : ∀ i < count, word i < base) (less : word place < other place)
    (same : ∀ i, place < i → i < count → word i = other i) :
    number base word count < number base other count := by
  induction count with
  | zero => exact absurd lt (Nat.not_lt_zero _)
  | succ count ih =>
    rw [number]
    rcases Nat.lt_or_eq_of_le (Nat.le_of_lt_succ lt) with below | last
    · rw [same count below (Nat.lt_succ_self count)]
      exact Nat.add_lt_add_right (ih below (fun i within => small i (Nat.lt_succ_of_lt within))
        (fun i above within => same i above (Nat.lt_succ_of_lt within))) _
    rw [last] at less
    have lower : number base word count < base ^ count :=
      number_lt fun i within => small i (Nat.lt_succ_of_lt within)
    have step : (word count + 1) * base ^ count ≤ other count * base ^ count :=
      Nat.mul_le_mul_right _ less
    calc number base word count + word count * base ^ count
        < base ^ count + word count * base ^ count := Nat.add_lt_add_right lower _
      _ = (word count + 1) * base ^ count := by ring
      _ ≤ other count * base ^ count := step
      _ ≤ number base other count + other count * base ^ count := Nat.le_add_left _ _

theorem number_div_mod {place : Nat} (lt : place < count) (small : ∀ i < count, word i < base) :
    number base word count / base ^ place % base = word place := by
  induction place generalizing count word with
  | zero =>
    obtain ⟨above, isCount⟩ := Nat.exists_eq_succ_of_ne_zero (Nat.ne_of_gt lt)
    rw [isCount, number_shift, Nat.pow_zero, Nat.div_one, Nat.add_mul_mod_self_left]
    exact Nat.mod_eq_of_lt (small 0 lt)
  | succ place ih =>
    obtain ⟨above, isCount⟩ :=
      Nat.exists_eq_succ_of_ne_zero (Nat.ne_of_gt (Nat.lt_of_le_of_lt (Nat.zero_le _) lt))
    rw [isCount] at lt small ⊢
    have fst : word 0 < base := small 0 (Nat.succ_pos above)
    have isAbove : number base word (above + 1) / base =
        number base (fun i => word (i + 1)) above := by
      rw [number_shift, Nat.add_mul_div_left _ _ (Nat.lt_of_le_of_lt (Nat.zero_le _) fst),
        Nat.div_eq_of_lt fst, Nat.zero_add]
    rw [Nat.pow_succ', ← Nat.div_div_eq_div_mul, isAbove]
    exact ih (Nat.lt_of_succ_lt_succ lt) fun i within => small (i + 1) (Nat.succ_lt_succ within)

theorem number_digits {base value count : Nat} :
    number base (fun i => value / base ^ i % base) count = value % base ^ count := by
  induction count with
  | zero =>
    rw [Nat.pow_zero, Nat.mod_one]
    rfl
  | succ count ih =>
    rw [number, ih, Nat.mod_pow_succ, Nat.mul_comm]

/-- What goes into each place when the words of `term` are brought below the
base, with `first` into the least one. -/
def carry (base : Nat) (term : Nat → Nat) (fst : Nat) : Nat → Nat
  | 0 => fst
  | i + 1 => (term i + carry base term fst i) / base

theorem number_carry (base : Nat) (term : Nat → Nat) (fst count : Nat) :
    number base (fun i => (term i + carry base term fst i) % base) count +
        carry base term fst count * base ^ count = number base term count + fst := by
  induction count with
  | zero =>
    rw [number, number, carry]
    ring
  | succ count ih =>
    have split := Nat.mod_add_div (term count + carry base term fst count) base
    rw [number, number, carry]
    generalize (term count + carry base term fst count) % base = low at split ⊢
    generalize (term count + carry base term fst count) / base = high at split ⊢
    calc _ = number base (fun i => (term i + carry base term fst i) % base) count +
          (low + base * high) * base ^ count := by ring
      _ = number base (fun i => (term i + carry base term fst i) % base) count +
          carry base term fst count * base ^ count + term count * base ^ count := by
        rw [split]
        ring
      _ = _ := by
        rw [ih]
        ring

/-- What each place owes to the one above it in `word - other`. -/
def borrow (word other : Nat → Nat) : Nat → Nat
  | 0 => 0
  | i + 1 => if word i < other i + borrow word other i then 1 else 0

def remainder (base : Nat) (word other : Nat → Nat) (i : Nat) : Nat :=
  if word i < other i + borrow word other i then word i + base - (other i + borrow word other i)
  else word i - (other i + borrow word other i)

/-- A sum below twice the power has a carry of one at most. -/
theorem carry_cases {low carried power sum : Nat} (total : low + carried * power = sum)
    (small : sum < 2 * power) : carried = 0 ∧ low = sum ∨ carried = 1 ∧ low + power = sum := by
  rcases Nat.lt_or_ge carried 2 with few | many
  · have isBit : carried = 0 ∨ carried = 1 := by omega
    rcases isBit with zero | isOne
    · rw [zero] at total
      omega
    · rw [isOne] at total
      omega
  · have atLeast := Nat.mul_le_mul_right power many
    omega

theorem borrow_le_one (word other : Nat → Nat) (i : Nat) : borrow word other i ≤ 1 := by
  cases i with
  | zero => exact Nat.zero_le 1
  | succ i =>
    rw [borrow]
    split
    · exact Nat.le_refl 1
    · exact Nat.zero_le 1

theorem remainder_add (word : Nat → Nat) (small : other count < base) :
    remainder base word other count + (other count + borrow word other count) =
      word count + base * borrow word other (count + 1) := by
  have atMost := borrow_le_one word other count
  rw [remainder, borrow]
  split
  · omega
  · omega

theorem number_borrow (word : Nat → Nat) (small : ∀ i < count, other i < base) :
    number base (remainder base word other) count + number base other count =
      number base word count + borrow word other count * base ^ count := by
  induction count with
  | zero => rfl
  | succ count ih =>
    have lower := ih fun i within => small i (Nat.lt_succ_of_lt within)
    have place := remainder_add word (small count (Nat.lt_succ_self count))
    rw [number, number, number]
    generalize remainder base word other count = left at place ⊢
    calc _ = (number base (remainder base word other) count + number base other count) +
          (left + other count) * base ^ count := by ring
      _ = number base word count +
          (left + (other count + borrow word other count)) * base ^ count := by
        rw [lower]
        ring
      _ = _ := by
        rw [place]
        ring

end ExOs.Library
