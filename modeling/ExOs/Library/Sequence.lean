import Mathlib.Algebra.Ring.Nat
import Mathlib.Tactic.Common

/-!
# Sequence numbers

A position in a stream, seen through a number of 32 bits that turns round.
Two positions that are not too far apart can be told apart, and put in order,
by the difference of their numbers.
-/

namespace ExOs.Library

/-- The number of the position `p` of a stream that starts at `base`. -/
def seqNumber (base : UInt32) (p : Nat) : UInt32 := base + UInt32.ofNat p

/-- The sign of a difference read as a signed integer. -/
def isNegative (x : UInt32) : Bool := 2 ^ 31 ≤ x.toNat

section

variable {base : UInt32} {p q : Nat}

@[simp] theorem seqNumber_zero (base : UInt32) : seqNumber base 0 = base := by
  show base + 0 = base
  grind

theorem toNat_seqNumber (base : UInt32) (p : Nat) :
    (seqNumber base p).toNat = (base.toNat + p) % 2 ^ 32 := by
  rw [seqNumber, UInt32.toNat_add, UInt32.toNat_ofNat', Nat.add_mod_mod]

theorem seqNumber_add (base : UInt32) (p : Nat) (n : UInt32) :
    seqNumber base p + n = seqNumber base (p + n.toNat) := by
  apply UInt32.toNat_inj.mp
  rw [UInt32.toNat_add, toNat_seqNumber, toNat_seqNumber, Nat.mod_add_mod, Nat.add_assoc]

theorem seqNumber_sub (ahead : q ≤ p) (near : p - q < 2 ^ 32) :
    (seqNumber base p - seqNumber base q).toNat = p - q := by
  have pSmall := toNat_seqNumber base p
  have qSmall := toNat_seqNumber base q
  rw [UInt32.toNat_sub]
  omega

theorem seqNumber_sub_back (behind : p < q) (near : q - p < 2 ^ 32) :
    (seqNumber base p - seqNumber base q).toNat = 2 ^ 32 - (q - p) := by
  have pSmall := toNat_seqNumber base p
  have qSmall := toNat_seqNumber base q
  rw [UInt32.toNat_sub]
  omega

theorem seqNumber_inj (below : p < q + 2 ^ 32) (above : q < p + 2 ^ 32)
    (same : seqNumber base p = seqNumber base q) : p = q := by
  have values := congrArg UInt32.toNat same
  rw [toNat_seqNumber, toNat_seqNumber] at values
  omega

theorem isNegative_seqNumber (base : UInt32) (below : p < q + 2 ^ 31) (above : q ≤ p + 2 ^ 31) :
    isNegative (seqNumber base p - seqNumber base q) = true ↔ p < q := by
  rw [isNegative, decide_eq_true_iff]
  have pSmall := toNat_seqNumber base p
  have qSmall := toNat_seqNumber base q
  rw [UInt32.toNat_sub]
  omega

end

end ExOs.Library
