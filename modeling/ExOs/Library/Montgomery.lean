import Mathlib.Algebra.Ring.Nat
import Mathlib.Data.Nat.ModEq
import Mathlib.Tactic.Ring
import Mathlib.Tactic.Common

/-!
# Montgomery's reduction

The product `a * b` is taken in word by word; after each word a multiple of the
modulus makes the accumulator divisible by the base.  `Partial` is the state
after some words; the last one gives a number below twice the modulus that is
`a * b` once multiplied by the power of the base.
-/

namespace ExOs.Library

/-- After `places` words, of value `low` together, the accumulator is `sum`. -/
def Partial (base a m places low sum : Nat) : Prop :=
  low < base ^ places ∧ ∃ u < base ^ places, base ^ places * sum = a * low + u * m

section

variable {base a m places low sum next word v : Nat}

theorem Partial.zero (base a m : Nat) : Partial base a m 0 0 0 :=
  ⟨Nat.one_pos, 0, Nat.one_pos, by ring⟩

section

variable (state : Partial base a m places low sum)

include state

theorem Partial.round (wordSmall : word < base)
    (vSmall : v < base) (step : base * next = sum + a * word + v * m) :
    Partial base a m (places + 1) (low + word * base ^ places) next := by
  obtain ⟨lowSmall, u, uSmall, reached⟩ := state
  have grows : ∀ {x y : Nat}, x < base ^ places → y < base →
      x + y * base ^ places < base ^ (places + 1) := by
    intro x y xSmall ySmall
    calc x + y * base ^ places < base ^ places + y * base ^ places := Nat.add_lt_add_right xSmall _
      _ = (y + 1) * base ^ places := by ring
      _ ≤ base * base ^ places := Nat.mul_le_mul_right _ ySmall
      _ = base ^ (places + 1) := (Nat.pow_succ').symm
  refine ⟨grows lowSmall wordSmall, u + v * base ^ places, grows uSmall vSmall, ?_⟩
  calc base ^ (places + 1) * next = base ^ places * (base * next) := by ring
    _ = base ^ places * sum + (a * word + v * m) * base ^ places := by
      rw [step]
      ring
    _ = a * (low + word * base ^ places) + (u + v * base ^ places) * m := by
      rw [reached]
      ring

theorem Partial.lt (pos : 0 < m) : sum < a + m := by
  obtain ⟨lowSmall, u, uSmall, reached⟩ := state
  by_contra large
  have left : base ^ places * (a + m) ≤ base ^ places * sum :=
    Nat.mul_le_mul_left _ (Nat.le_of_not_lt large)
  have fst : a * low ≤ a * base ^ places := Nat.mul_le_mul_left _ (Nat.le_of_lt lowSmall)
  have snd : (u + 1) * m ≤ base ^ places * m := Nat.mul_le_mul_right _ uSmall
  have expanded : base ^ places * (a + m) = a * base ^ places + base ^ places * m := by ring
  have other : (u + 1) * m = u * m + m := by ring
  omega

theorem Partial.lt_two_mul
    (aSmall : a < base ^ places) (lowSmall : low ≤ m) (pos : 0 < m) : sum < 2 * m := by
  obtain ⟨_, u, uSmall, reached⟩ := state
  by_contra large
  have left : base ^ places * (2 * m) ≤ base ^ places * sum :=
    Nat.mul_le_mul_left _ (Nat.le_of_not_lt large)
  have fst : a * low ≤ a * m := Nat.mul_le_mul_left _ lowSmall
  have product : (a + 1) * m ≤ base ^ places * m := Nat.mul_le_mul_right _ aSmall
  have snd : (u + 1) * m ≤ base ^ places * m := Nat.mul_le_mul_right _ uSmall
  have expanded : base ^ places * (2 * m) = base ^ places * m + base ^ places * m := by ring
  have aOther : (a + 1) * m = a * m + m := by ring
  have other : (u + 1) * m = u * m + m := by ring
  omega

theorem Partial.modEq : sum * base ^ places ≡ a * low [MOD m] := by
  obtain ⟨_, u, _, reached⟩ := state
  have isSum : sum * base ^ places = a * low + m * u := by
    rw [Nat.mul_comm, reached]
    ring
  rw [isSum]
  exact Nat.add_mul_mod_self_left (a * low) m u

end

end

section

variable {m r x y z p q : Nat}

variable (coprime : Nat.Coprime m r)

include coprime

theorem montgomery_mul (product : z * r ≡ x * y [MOD m])
    (isX : x ≡ p * r [MOD m]) (isY : y ≡ q * r [MOD m]) : z ≡ p * q * r [MOD m] := by
  apply Nat.ModEq.cancel_right_of_coprime coprime
  calc z * r ≡ x * y [MOD m] := product
    _ ≡ p * r * (q * r) [MOD m] := isX.mul isY
    _ = p * q * r * r := by ring

theorem montgomery_out (product : z * r ≡ x * 1 [MOD m])
    (isX : x ≡ p * r [MOD m]) : z ≡ p [MOD m] := by
  apply Nat.ModEq.cancel_right_of_coprime coprime
  rw [Nat.mul_one] at product
  exact product.trans isX

theorem montgomery_in (product : z * r ≡ x * y [MOD m])
    (isSquare : y ≡ r * r [MOD m]) : z ≡ x * r [MOD m] := by
  apply Nat.ModEq.cancel_right_of_coprime coprime
  calc z * r ≡ x * y [MOD m] := product
    _ ≡ x * (r * r) [MOD m] := isSquare.mul_left x
    _ = x * r * r := by ring

end

end ExOs.Library
