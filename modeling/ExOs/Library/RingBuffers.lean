import Mathlib.Algebra.Ring.Nat
import Mathlib.Data.List.Basic
import Mathlib.Logic.Function.Basic
import Mathlib.Tactic.Common

/-!
# Ring buffers

Elements in cells that follow one another around `size` places, from a head on.
`ring` reads them off as a list; taking from the front moves the head, and
writing at the place after the last one appends.
-/

namespace ExOs.Library

open List Function

variable {Element : Type}

/-- The `count` elements from `head` on. -/
def ring (size : Nat) (cell : Nat → Element) (head count : Nat) : List Element :=
  (List.range count).map fun i => cell ((head + i) % size)

/-- Elements written one after the other from `start` on. -/
def ringWrite (size : Nat) (cell : Nat → Element) (start : Nat) : List Element → Nat → Element
  | [] => cell
  | element :: rest =>
    ringWrite size (update cell (start % size) element) (start + 1) rest

variable {size head count : Nat} {cell : Nat → Element} {elements : List Element}

@[simp] theorem length_ring : (ring size cell head count).length = count := by
  rw [ring, length_map, length_range]

@[simp] theorem ring_zero (size : Nat) (cell : Nat → Element) (head : Nat) :
    ring size cell head 0 = [] :=
  rfl

theorem ring_succ (size : Nat) (cell : Nat → Element) (head count : Nat) :
    ring size cell head (count + 1) =
      ring size cell head count ++ [cell ((head + count) % size)] := by
  rw [ring, range_succ, map_append]
  rfl

theorem ring_mod : ring size cell (head % size) count = ring size cell head count := by
  apply map_congr_left
  intro i _
  rw [Nat.mod_add_mod]

theorem ring_add {head fst rest : Nat} : ring size cell head (fst + rest) =
      ring size cell head fst ++ ring size cell (head + fst) rest := by
  induction rest with
  | zero => rw [Nat.add_zero, ring_zero, append_nil]
  | succ rest ih =>
    rw [← Nat.add_assoc, ring_succ, ih, ring_succ, append_assoc, Nat.add_assoc]

theorem ring_take_append {taken : Nat} (enough : taken ≤ count) : ring size cell head taken ++
        ring size cell ((head + taken) % size) (count - taken) = ring size cell head count := by
  rw [ring_mod, ← ring_add, Nat.add_sub_cancel' enough]

theorem ring_congr {other : Nat → Element}
    (same : ∀ i < count, other ((head + i) % size) = cell ((head + i) % size)) :
    ring size other head count = ring size cell head count := by
  apply map_congr_left
  intro i mem
  exact same i (mem_range.mp mem)

theorem ring_place_ne {i j : Nat} (less : i < j) (short : j - i < size) :
    (head + i) % size ≠ (head + j) % size := by
  intro same
  have divides : size ∣ (head + j) - (head + i) :=
    Nat.dvd_of_mod_eq_zero (Nat.sub_mod_eq_zero_of_mod_eq same.symm)
  have zero := Nat.eq_zero_of_dvd_of_lt divides (by omega)
  omega

theorem ring_push (room : count < size) {element : Element} :
    ring size (update cell ((head + count) % size) element) head (count + 1) =
      ring size cell head count ++ [element] := by
  rw [ring_succ, update_self]
  congr 1
  apply ring_congr
  intro i pre
  exact update_of_ne (ring_place_ne pre (by omega)) _ _

theorem ringWrite_mod : ∀ (cell : Nat → Element) (start : Nat),
      ringWrite size cell (start % size) elements = ringWrite size cell start elements := by
  induction elements with
  | nil => exact fun _ _ => rfl
  | cons element rest ih =>
    intro cell start
    rw [ringWrite, ringWrite, Nat.mod_mod, ← ih _ (start % size + 1), Nat.mod_add_mod, ih]

theorem ring_write : ∀ (cell : Nat → Element) (count : Nat), count + elements.length ≤ size →
      ring size (ringWrite size cell (head + count) elements) head (count + elements.length) =
        ring size cell head count ++ elements := by
  induction elements with
  | nil =>
    intro cell count _
    rw [ringWrite, length_nil, Nat.add_zero, append_nil]
  | cons element rest ih =>
    intro cell count room
    rw [length_cons] at room ⊢
    have written := ih (update cell ((head + count) % size) element) (count + 1) (by omega)
    rw [ring_push (by omega)] at written
    rw [ringWrite, Nat.add_assoc head count 1,
      show count + (rest.length + 1) = count + 1 + rest.length by omega, written,
      append_assoc]
    rfl

end ExOs.Library
