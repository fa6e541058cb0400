import Mathlib.Data.List.Basic
import Mathlib.Tactic.Common

/-!
# Counting marked indices

How many of the indices below a bound are marked, and what marking one more
does to the number.
-/

namespace ExOs.Library

open List

/-- The indices below `bound` at which `marked` holds. -/
def countBelow (bound : Nat) (marked : Nat → Bool) : Nat := (List.range bound).countP marked

variable {bound index : Nat} {pre after : Nat → Bool}

theorem countBelow_congr (same : ∀ i < bound, after i = pre i) :
    countBelow bound after = countBelow bound pre := by
  apply countP_congr
  intro i mem
  rw [same i (mem_range.mp mem)]

theorem countBelow_succ {marked : Nat → Bool} : countBelow (bound + 1) marked =
      countBelow bound marked + if marked bound then 1 else 0 := by
  rw [countBelow, range_succ, countP_append, countP_singleton]
  rfl

theorem countBelow_mark (lt : index < bound) (clear : pre index = false)
    (set : after index = true) (same : ∀ i, i ≠ index → after i = pre i) :
    countBelow bound after = countBelow bound pre + 1 := by
  induction bound with
  | zero => omega
  | succ bound ih =>
    rw [countBelow_succ, countBelow_succ]
    by_cases last : index = bound
    · have unchanged : countBelow bound after = countBelow bound pre := by
        apply countBelow_congr
        intro i small
        exact same i (by omega)
      rw [unchanged, ← last, clear, set]
      rfl
    · rw [same bound (Ne.symm last)]
      omega

theorem countBelow_le (bound : Nat) (marked : Nat → Bool) : countBelow bound marked ≤ bound := by
  have := countP_le_length (p := marked) (l := List.range bound)
  rwa [length_range] at this

theorem countBelow_lt_countBelow (lt : index < bound) (set : after index = true) :
    countBelow index after < countBelow bound after := by
  induction bound with
  | zero => omega
  | succ bound ih =>
    rw [countBelow_succ]
    by_cases last : index = bound
    · rw [← last, set]
      exact Nat.lt_succ_self _
    · omega

theorem countBelow_eq_zero (clear : ∀ i < bound, after i = false) : countBelow bound after = 0 := by
  apply countP_eq_zero.mpr
  intro i mem
  rw [clear i (mem_range.mp mem)]
  exact Bool.false_ne_true

theorem exists_clear_of_countBelow_lt
    (few : countBelow bound after < bound) : ∃ i < bound, after i = false := by
  by_contra all
  have full : countBelow bound after = (List.range bound).length := by
    apply countP_eq_length.mpr
    intro i mem
    by_contra clear
    apply all
    exact ⟨i, mem_range.mp mem, by simpa using clear⟩
  rw [length_range] at full
  omega

end ExOs.Library
