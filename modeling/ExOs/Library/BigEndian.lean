import Mathlib.Algebra.Ring.Nat
import Mathlib.Tactic.Common

/-!
# Numbers in bytes

A byte string as a number, its heaviest byte first.  Zeros in front count for nothing, and
strings of one length are different numbers when they differ.
-/

namespace ExOs.Library

open List

variable {a b : List UInt8}

def bigEndian : List UInt8 → Nat
  | [] => 0
  | b :: rest => b.toNat * 256 ^ rest.length + bigEndian rest

theorem bigEndian_zero_cons : bigEndian (0 :: b) = bigEndian b := by
  rw [bigEndian, UInt8.toNat_zero, Nat.zero_mul, Nat.zero_add]

theorem foldl_or_xor_iff (length : a.length = b.length) {acc : UInt8} :
    (a.zipWith (· ^^^ ·) b).foldl (· ||| ·) acc = 0 ↔ acc = 0 ∧ a = b := by
  induction a generalizing b acc with
  | nil => simp [eq_nil_of_length_eq_zero length.symm]
  | cons x a ih =>
    cases b with
    | nil => cases length
    | cons y b =>
      rw [zipWith_cons_cons, foldl_cons, ih (Nat.succ.inj length), UInt8.or_eq_zero_iff,
        UInt8.xor_eq_zero_iff, cons.injEq, and_assoc]

theorem bigEndian_append : bigEndian (a ++ b) = bigEndian a * 256 ^ b.length + bigEndian b := by
  induction a with
  | nil => rw [nil_append, bigEndian, Nat.zero_mul, Nat.zero_add]
  | cons x rest ih =>
    rw [cons_append, bigEndian, bigEndian, ih, length_append, Nat.pow_add, Nat.add_mul,
      Nat.mul_assoc, Nat.add_assoc]

theorem foldl_bigEndian {acc : Nat} :
    a.foldl (fun n x => n * 256 + x.toNat) acc = acc * 256 ^ a.length + bigEndian a := by
  induction a generalizing acc with
  | nil => simp [bigEndian]
  | cons x rest ih =>
    rw [foldl_cons, ih, bigEndian, length_cons, Nat.pow_succ', Nat.add_mul, Nat.mul_assoc,
      Nat.add_assoc]

theorem bigEndian_lt (b : List UInt8) : bigEndian b < 256 ^ b.length := by
  induction b with
  | nil => exact Nat.one_pos
  | cons x rest ih =>
    have digit : x.toNat + 1 ≤ 256 := UInt8.toNat_lt x
    have step := Nat.mul_le_mul_right (256 ^ rest.length) digit
    rw [Nat.add_mul] at step
    rw [bigEndian, length_cons]
    omega

theorem bigEndian_lt_bigEndian (length : a.length = b.length) (less : a < b) :
    bigEndian a < bigEndian b := by
  induction a generalizing b with
  | nil => cases eq_nil_of_length_eq_zero length.symm ▸ less
  | cons x a ih =>
    cases b with
    | nil => cases length
    | cons y b =>
      have lengths : a.length = b.length := Nat.succ.inj length
      have aLess := bigEndian_lt a
      rw [bigEndian, bigEndian, lengths]
      rw [lengths] at aLess
      rcases cons_lt_cons_iff.mp less with fst | ⟨same, rest⟩
      · have step := Nat.mul_le_mul_right (256 ^ b.length) (UInt8.lt_iff_toNat_lt.mp fst)
        rw [Nat.succ_mul] at step
        omega
      · rw [same]
        exact Nat.add_lt_add_left (ih lengths rest) _

theorem bigEndian_injective (length : a.length = b.length) (same : bigEndian a = bigEndian b) :
    a = b := by
  induction a generalizing b with
  | nil => exact (eq_nil_of_length_eq_zero length.symm).symm
  | cons x a ih =>
    cases b with
    | nil => cases length
    | cons y b =>
      have lengths : a.length = b.length := Nat.succ.inj length
      have aLess := bigEndian_lt a
      have bLess := bigEndian_lt b
      rw [bigEndian, bigEndian, lengths] at same
      rw [lengths] at aLess
      have tops := congrArg (· / 256 ^ b.length) same
      have rests := congrArg (· % 256 ^ b.length) same
      rw [Nat.add_comm, Nat.add_mul_div_right _ _ (Nat.pow_pos (by decide)), Nat.div_eq_of_lt aLess,
        Nat.add_comm _ (bigEndian b), Nat.add_mul_div_right _ _ (Nat.pow_pos (by decide)),
        Nat.div_eq_of_lt bLess, Nat.zero_add, Nat.zero_add] at tops
      rw [Nat.mul_add_mod_self_right, Nat.mul_add_mod_self_right, Nat.mod_eq_of_lt aLess,
        Nat.mod_eq_of_lt bLess] at rests
      rw [UInt8.toNat_inj.mp tops, ih lengths rests]

theorem bigEndian_dropWhile (b : List UInt8) : bigEndian (b.dropWhile (· = 0)) = bigEndian b := by
  induction b with
  | nil => rfl
  | cons x rest ih =>
    by_cases zero : x = 0
    · rw [dropWhile_cons, if_pos (decide_eq_true zero), ih, zero]
      exact (Nat.zero_add _).symm.trans (congrArg (· + _) (Nat.zero_mul _).symm)
    · rw [dropWhile_cons, if_neg (by simpa using zero)]

theorem pow_le_bigEndian_iff {k : Nat} (b : List UInt8) :
    256 ^ k ≤ bigEndian b ↔ k < (b.dropWhile (· = 0)).length := by
  rw [← bigEndian_dropWhile]
  have less := bigEndian_lt (b.dropWhile (· = 0))
  constructor
  · intro large
    exact (Nat.pow_lt_pow_iff_right (by decide)).mp (Nat.lt_of_le_of_lt large less)
  · intro long
    cases shape : b.dropWhile (· = 0) with
    | nil =>
      rw [shape] at long
      exact absurd long (Nat.not_lt_zero k)
    | cons x rest =>
      have nonZero : x ≠ 0 := by
        simpa [shape] using head_dropWhile_not (· = 0) (l := b) (by simp [shape])
      have pos : 1 ≤ x.toNat := Nat.one_le_iff_ne_zero.mpr fun zero =>
        nonZero (UInt8.toNat_inj.mp zero)
      rw [shape] at long
      calc 256 ^ k ≤ 256 ^ rest.length := Nat.pow_le_pow_right (by decide) (Nat.le_of_lt_succ long)
        _ ≤ x.toNat * 256 ^ rest.length := Nat.le_mul_of_pos_left _ pos
        _ ≤ _ := Nat.le_add_right _ _

theorem bigEndian_digits {value count : Nat} :
    bigEndian ((range count).map fun i => UInt8.ofNat (value / 256 ^ (count - 1 - i) % 256)) =
      value % 256 ^ count := by
  induction count with
  | zero => exact (Nat.mod_one value).symm
  | succ count ih =>
    have later : ((range count).map Nat.succ).map
        (fun i => UInt8.ofNat (value / 256 ^ (count + 1 - 1 - i) % 256)) =
        (range count).map fun i => UInt8.ofNat (value / 256 ^ (count - 1 - i) % 256) := by
      rw [map_map]
      refine map_congr_left fun i _ => ?_
      show UInt8.ofNat (value / 256 ^ (count - (i + 1)) % 256) = _
      rw [Nat.sub_add_eq, Nat.sub_right_comm]
    rw [range_succ_eq_map, map_cons, later, bigEndian, ih, length_map, length_range,
      UInt8.toNat_ofNat_of_lt' (Nat.mod_lt _ (by decide)), Nat.mod_pow_succ, Nat.mul_comm,
      Nat.add_comm]
    rfl

end ExOs.Library
