import Mathlib.Algebra.Ring.Nat
import Mathlib.Data.List.Basic
import Mathlib.Tactic.Common

/-!
# Who sleeps on an object

`kernel/include/attese.h`: the first waiter in a field of its own and the
others in an array that doubles when it is full.  A waiter is kept once, and
the array holds one only when the field does.
-/

namespace ExOs.Ipc

open List

/-- `altri` is the part of the array in use, `posti` the length of the array. -/
structure Attese where
  uno : Nat
  altri : List Nat
  posti : Nat

namespace Attese

def vuote : Attese := { uno := 0, altri := [], posti := 0 }

variable (a : Attese)

def cE (pid : Nat) : Bool := a.uno == pid || a.altri.contains pid

def metti (pid : Nat) : Option Attese :=
  if a.cE pid then some a
  else if a.uno = 0 then some { a with uno := pid }
  else if a.posti ≤ a.altri.length then none
  else some { a with altri := a.altri ++ [pid] }

/-- The last of the array takes the place of the one that goes. -/
def togli (pid : Nat) : Attese :=
  if a.uno = pid then { a with uno := a.altri.getLastD 0, altri := a.altri.dropLast }
  else if a.altri.contains pid then
    { a with
      altri := (a.altri.set (a.altri.idxOf pid) (a.altri.getLastD 0)).dropLast }
  else a

/-- Who `attese_sveglia_locked` wakes. -/
def pid : List Nat := if a.uno = 0 then a.altri else a.uno :: a.altri

/-- `attese_sveglia_locked`: the list after everyone in it has been woken. -/
def sveglia : Attese := { a with uno := 0, altri := [] }

/-- The length that `attese_cresci` asks for. -/
def cresciPosti : Nat := if a.posti = 0 then 8 else a.posti * 2

/-- The second section of `attese_cresci`, with an array of `posti` at hand. -/
def cresci (posti : Nat) : Attese :=
  if a.posti < posti then { a with posti := posti } else a

/-- Every waiter once, and none in the array without one in the field. -/
structure Sane (a : Attese) : Prop where
  primo : a.uno = 0 → a.altri = []
  distinti : (a.uno :: a.altri).Nodup
  veri : 0 ∉ a.altri
  entro : a.altri.length ≤ a.posti

variable {a : Attese} {pid q : Nat}

theorem cE_iff : a.cE pid = true ↔ a.uno = pid ∨ pid ∈ a.altri := by
  simp [cE]

theorem nessuno_sane {posti : Nat} : Sane { uno := 0, altri := [], posti := posti } :=
  ⟨fun _ => rfl, by simp, not_mem_nil, Nat.zero_le posti⟩

theorem Sane.metti (sane : a.Sane) {a' : Attese} (real : pid ≠ 0) (done : a.metti pid = some a') :
    a'.Sane ∧ ∀ q, q ≠ 0 → q = pid ∨ a.cE q = true → a'.cE q = true := by
  rw [Attese.metti] at done
  split at done
  · next there =>
    rw [← Option.some.inj done]
    refine ⟨sane, ?_⟩
    rintro q _ (same | already)
    · rw [same]
      exact there
    · exact already
  · next there =>
    have absent : pid ∉ a.altri := fun mem => there (cE_iff.mpr (.inr mem))
    split at done
    · next fst =>
      have none := sane.primo fst
      rw [← Option.some.inj done]
      refine ⟨⟨fun zero => absurd zero real, ?_, sane.veri, sane.entro⟩, ?_⟩
      · rw [none]
        exact nodup_cons.mpr ⟨not_mem_nil, nodup_nil⟩
      · intro q nz
        rw [cE_iff, cE_iff, fst]
        rintro (same | zero | later)
        · exact .inl same.symm
        · exact absurd zero.symm nz
        · exact .inr later
    · next fst =>
      split at done
      · exact absurd done (by simp)
      rename_i full
      rw [← Option.some.inj done]
      have notFirst : a.uno ≠ pid := fun same => there (cE_iff.mpr (.inl same))
      refine ⟨⟨fun zero => absurd zero fst, ?_, ?_, ?_⟩, ?_⟩
      · have fresh : pid ∉ a.uno :: a.altri := by
          rw [mem_cons]
          rintro (same | mem)
          · exact notFirst same.symm
          · exact absent mem
        exact (perm_append_singleton pid (a.uno :: a.altri)).nodup_iff.mpr
          (nodup_cons.mpr ⟨fresh, sane.distinti⟩)
      · rw [mem_append, mem_singleton]
        rintro (mem | zero)
        · exact sane.veri mem
        · exact real zero.symm
      · rw [length_append]
        exact Nat.lt_of_not_le full
      · intro q _
        rw [cE_iff, cE_iff, mem_append, mem_singleton]
        tauto

theorem set_getLastD_dropLast_perm {l : List Nat} {i : Nat} (lt : i < l.length) :
    ((l.set i (l.getLastD 0)).dropLast).Perm (l.eraseIdx i) := by
  rcases eq_nil_or_concat l with empty | ⟨front, last, concat⟩
  · rw [empty] at lt
    exact absurd lt (Nat.not_lt_zero i)
  rw [concat_eq_append] at concat
  rw [concat, getLastD_concat]
  by_cases atEnd : i = front.length
  · rw [atEnd, set_append_right _ _ (Nat.le_refl _), Nat.sub_self, set_cons_zero, dropLast_concat,
      eraseIdx_append_of_length_le (Nat.le_refl _), Nat.sub_self, eraseIdx_cons_zero, append_nil]
  have early : i < front.length := by
    rw [concat, length_append, length_singleton] at lt
    omega
  rw [set_append_left _ _ early, dropLast_concat,
    eraseIdx_append_of_lt_length early, set_eq_take_append_cons_drop,
    if_pos early, eraseIdx_eq_take_drop_succ, append_assoc]
  exact Perm.append_left _ (perm_append_singleton last _).symm

theorem Sane.togli (sane : a.Sane) (pid : Nat) : (a.togli pid).Sane ∧
      ∀ q, q ≠ 0 → q ≠ pid ∧ a.cE q = true → (a.togli pid).cE q = true := by
  obtain ⟨apart, distinct⟩ := nodup_cons.mp sane.distinti
  rw [Attese.togli]
  split
  · next fst =>
    rcases eq_nil_or_concat a.altri with empty | ⟨front, last, concat⟩
    · rw [empty]
      refine ⟨nessuno_sane, ?_⟩
      intro q _
      rw [cE_iff, empty, fst]
      simp only [not_mem_nil, or_false]
      exact fun both => absurd both.2.symm both.1
    · rw [concat_eq_append] at concat
      rw [concat] at apart distinct
      have real := sane.veri
      have short := sane.entro
      rw [concat] at real short
      rw [length_append] at short
      simp only [mem_append, mem_singleton, not_or] at apart real
      have shuffled : (last :: front).Nodup :=
        (perm_append_singleton last front).nodup_iff.mp distinct
      rw [concat, getLastD_concat, dropLast_concat]
      refine ⟨⟨fun zero => absurd zero.symm real.2, shuffled, real.1, by
        dsimp only
        omega⟩, ?_⟩
      intro q _
      rw [cE_iff, cE_iff, concat, mem_append, mem_singleton, fst]
      rintro ⟨other, same | mem | same⟩
      · exact absurd same.symm other
      · exact .inr mem
      · exact .inl same.symm
  · next fst =>
    by_cases mem : pid ∈ a.altri
    · have lt : a.altri.idxOf pid < a.altri.length := idxOf_lt_length_of_mem mem
      have shuffled := set_getLastD_dropLast_perm lt
      rw [eraseIdx_idxOf_eq_erase] at shuffled
      rw [if_pos (contains_iff_mem.mpr mem)]
      generalize (a.altri.set (a.altri.idxOf pid) (a.altri.getLastD 0)).dropLast = altri at shuffled
      have members : ∀ q, q ∈ altri ↔ q ≠ pid ∧ q ∈ a.altri := by
        intro q
        rw [shuffled.mem_iff, distinct.mem_erase_iff]
      refine ⟨⟨?_, ?_, ?_, ?_⟩, ?_⟩
      · intro zero
        have none := sane.primo zero
        rw [none] at mem
        exact absurd mem not_mem_nil
      · apply nodup_cons.mpr
        refine ⟨?_, shuffled.nodup_iff.mpr (distinct.erase pid)⟩
        rw [members]
        exact fun both => apart both.2
      · rw [members]
        exact fun both => sane.veri both.2
      · rw [shuffled.length_eq, length_erase_of_mem mem]
        exact Nat.le_trans (Nat.sub_le _ 1) sane.entro
      · intro q _
        rw [cE_iff, cE_iff, members]
        rintro ⟨other, same | later⟩
        · exact .inl same
        · exact .inr ⟨other, later⟩
    · rw [if_neg (fun found => mem (contains_iff_mem.mp found))]
      exact ⟨sane, fun q _ both => both.2⟩

theorem sveglia_sane : a.sveglia.Sane := nessuno_sane

theorem Sane.cresci (sane : a.Sane) (posti : Nat) : (a.cresci posti).Sane := by
  rw [Attese.cresci]
  split
  · next more =>
    exact { sane with entro := Nat.le_trans sane.entro (Nat.le_of_lt more) }
  · exact sane

@[simp] theorem cE_cresci (a : Attese) (posti pid : Nat) : (a.cresci posti).cE pid = a.cE pid := by
  rw [Attese.cresci]
  split <;> rfl

end Attese

end ExOs.Ipc
