import Mathlib.Data.List.GetD

/-!
# Back references

A dictionary coder writes a part of its output again: `copyBack` appends the
elements a fixed distance back, which may be elements it has just appended.  A
part of a list that was compared with an earlier part is what it writes.
-/

namespace ExOs.Library

open List

variable {α : Type} [Inhabited α]

/-- `count` more elements, each the one `distance` back. -/
def copyBack (distance : Nat) : Nat → List α → List α
  | 0, out => out
  | count + 1, out =>
    copyBack distance count (out ++ [out.getD (out.length - distance) default])

theorem length_copyBack {distance count : Nat} (out : List α) :
    (copyBack distance count out).length = out.length + count := by
  induction count generalizing out with
  | zero => rfl
  | succ count ih =>
    rw [copyBack, ih, length_append, length_singleton]
    omega

theorem take_append_getD (whole : List α) {i : Nat} (lt : i < whole.length) :
    whole.take i ++ [whole.getD i default] = whole.take (i + 1) := by
  rw [take_add_one, List.getElem?_eq_getElem lt,
    getD_eq_getElem whole default lt, Option.toList_some]

/-- From the first `i` elements of a list to the first `i + count`, where these
`count` are equal to those `distance` before them. -/
theorem copyBack_take (whole : List α) {distance : Nat} (pos : 0 < distance) :
    ∀ (count i : Nat), distance ≤ i → i + count ≤ whole.length →
      (∀ k < count, whole[i - distance + k]? = whole[i + k]?) →
      copyBack distance count (whole.take i) = whole.take (i + count) := by
  intro count
  induction count with
  | zero =>
    intro i _ _ _
    rfl
  | succ count ih =>
    intro i reach fits same
    have lt : i < whole.length := by omega
    have length : (whole.take i).length = i := length_take_of_le (by omega)
    have earlier : (whole.take i).getD (i - distance) default = whole.getD i default := by
      rw [getD_eq_getElem?_getD, List.getElem?_take_of_lt (by omega)]
      exact congrArg (fun element => element.getD default) (same 0 (Nat.succ_pos count))
    rw [copyBack, length, earlier, take_append_getD whole lt]
    rw [ih (i + 1) (by omega) (by omega)]
    · rw [Nat.add_assoc, Nat.add_comm 1 count]
    · intro k small
      have later := same (k + 1) (Nat.succ_lt_succ small)
      rw [show i + 1 - distance + k = i - distance + (k + 1) by omega,
        show i + 1 + k = i + (k + 1) by omega]
      exact later

end ExOs.Library
