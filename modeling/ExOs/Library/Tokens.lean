import Mathlib.Data.List.Count
import Mathlib.Data.List.Flatten

/-!
# Tokens held in places

Places, each of which holds some tokens.  When one place changes, the number
of times a token occurs in the whole changes by what that place gains and
loses, so a token that is never copied stays in one place.
-/

namespace ExOs.Library

open List

variable {Place Token : Type} [DecidableEq Token] (held : Place → List Token)

theorem count_flatMap_set {places : List Place} {i : Nat} {old : Place}
    (isOld : places[i]? = some old) (new : Place) (token : Token) :
    ((places.set i new).flatMap held).count token + (held old).count token =
      (places.flatMap held).count token + (held new).count token := by
  induction places generalizing i with
  | nil => cases isOld
  | cons head tail ih =>
    cases i with
    | zero =>
      have isHead : head = old := Option.some.inj isOld
      rw [set_cons_zero, flatMap_cons, flatMap_cons, count_append, count_append, isHead]
      omega
    | succ i =>
      have inner := ih isOld
      rw [set_cons_succ, flatMap_cons, flatMap_cons, count_append, count_append]
      omega

omit [DecidableEq Token] in
theorem map_modify_of_eq {Item : Type} (change : Item → Item) (token : Item → Token)
    (same : ∀ item, token (change item) = token item) (items : List Item) {i : Nat} :
    (items.modify i change).map token = items.map token := by
  apply ext_getElem?
  intro j
  rw [List.getElem?_map, List.getElem?_map, List.getElem?_modify]
  cases items[j]? with
  | none => rfl
  | some item => by_cases here : i = j <;> simp [here, same]

theorem count_map_filter {Item : Type} (token : Item → Token) (goes : Item → Bool)
    (items : List Item)
    (k : Token) :
    ((items.filter fun item => !goes item).map token).count k +
        ((items.filter goes).map token).count k = (items.map token).count k := by
  induction items with
  | nil => rfl
  | cons item items ih =>
    cases isGone : goes item <;>
      simp only [filter_cons, isGone, Bool.not_true, Bool.not_false, Bool.false_eq_true, if_true,
        if_false, map_cons, count_cons] <;>
      omega

end ExOs.Library
