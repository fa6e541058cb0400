import Mathlib.Data.Nat.Prime.Basic
import ExOs.Exbig.Prodotto

/-!
# Modular exponentiation

`exbig_modexp` goes through the bits of the exponent from the highest, in
Montgomery's form: at bit `i` the accumulator is the power of the base to the
exponent without its `i` lowest bits.
-/

namespace ExOs.Exbig

open ExOs.Library

theorem contaBit_le_iff {giri : Nat} {alta : UInt32} (small : alta.toNat < 2 ^ giri) {k : Nat} :
    contaBit giri alta ≤ k ↔ alta.toNat < 2 ^ k := by
  induction giri generalizing alta k with
  | zero => exact iff_of_true (Nat.zero_le k) (Nat.lt_of_lt_of_le small (Nat.two_pow_pos k))
  | succ giri ih =>
    have half : (alta >>> 1).toNat = alta.toNat / 2 := by
      rfl
    rw [contaBit]
    split
    · next isZero =>
      rw [isZero]
      exact iff_of_true (Nat.zero_le k) (Nat.two_pow_pos k)
    rename_i isZero
    have pos : alta.toNat ≠ 0 := fun zero => isZero (UInt32.toNat_inj.mp zero)
    cases k with
    | zero => omega
    | succ k =>
      rw [Nat.succ_le_succ_iff, ih (by omega)]
      omega

theorem exbigBit_le (e : ExBig) : exbigBit e ≤ 32 * e.n := by
  rw [exbigBit]
  split
  · exact Nat.zero_le _
  · have few := (contaBit_le_iff (UInt32.toNat_lt (e.p (e.n - 1)))).mpr (UInt32.toNat_lt _)
    omega

theorem exbigBit_le_iff {e : ExBig} {m k : Nat} (isTop : e.n = m + 1) (enough : 32 * m ≤ k) :
    exbigBit e ≤ k ↔ e.val < 2 ^ k := by
  have lower := valore_lt e.p m
  have expand : e.val = valore e.p m + (e.p m).toNat * (2 ^ 32) ^ m := by
    rw [ExBig.val, isTop]
    rfl
  have top : e.val / (2 ^ 32) ^ m = (e.p m).toNat := by
    rw [expand, Nat.add_mul_div_right _ _ (Nat.pow_pos (by decide)), Nat.div_eq_of_lt lower,
      Nat.zero_add]
  have powers : 2 ^ k = 2 ^ (k - 32 * m) * (2 ^ 32) ^ m := by
    rw [← Nat.pow_mul, ← Nat.pow_add, Nat.sub_add_cancel enough]
  rw [powers, ← Nat.div_lt_iff_lt_mul (Nat.pow_pos (by decide)), top,
    ← contaBit_le_iff (UInt32.toNat_lt (e.p m)), exbigBit, if_neg (by omega), isTop,
    Nat.add_sub_cancel]
  omega

theorem val_lt_exbigBit {e : ExBig} : e.val < 2 ^ exbigBit e := by
  cases isTop : e.n with
  | zero =>
    rw [ExBig.val, isTop]
    exact Nat.two_pow_pos _
  | succ m =>
    refine (exbigBit_le_iff isTop ?_).mp (Nat.le_refl _)
    rw [exbigBit, isTop, if_neg (Nat.succ_ne_zero m)]
    omega

theorem acceso_iff {e : ExBig} {i : Nat} (lt : i < exbigBit e) :
    e.acceso i = true ↔ e.val / 2 ^ i % 2 = 1 := by
  have place : i / 32 < e.n := by
    have few := exbigBit_le e
    omega
  have word : e.val / (2 ^ 32) ^ (i / 32) % 2 ^ 32 = (e.p (i / 32)).toNat :=
    number_div_mod place fun j _ => UInt32.toNat_lt (e.p j)
  have split : 2 ^ i = (2 ^ 32) ^ (i / 32) * 2 ^ (i % 32) := by
    rw [← Nat.pow_mul, ← Nat.pow_add]
    congr 1
    omega
  have low : e.val / 2 ^ i % 2 = (e.p (i / 32)).toNat / 2 ^ (i % 32) % 2 := by
    have offset : i % 32 + 1 ≤ 32 := Nat.mod_lt i (by decide)
    rw [split, ← Nat.div_div_eq_div_mul, ← word]
    generalize e.val / (2 ^ 32) ^ (i / 32) = v
    have dvd : 2 ^ (i % 32) * 2 ∣ 2 ^ 32 := by
      exact Nat.pow_dvd_pow 2 offset
    rw [← Nat.mod_mul_right_div_self, ← Nat.mod_mul_right_div_self, Nat.mod_mod_of_dvd _ dvd]
  have isWord : ((e.p (i / 32) >>> UInt32.ofNat (i % 32)) &&& 1).toNat =
      (e.p (i / 32)).toNat / 2 ^ (i % 32) % 2 := by
    have one : (1 : UInt32).toNat = 1 := rfl
    have amount : (UInt32.ofNat (i % 32)).toNat % 32 = i % 32 := by
      rw [UInt32.toNat_ofNat']
      omega
    rw [UInt32.toNat_and, UInt32.toNat_shiftRight, amount, one, Nat.and_one_is_mod,
      Nat.shiftRight_eq_div_pow]
  rw [ExBig.acceso, decide_eq_true_iff]
  have zero : (0 : UInt32).toNat = 0 := rfl
  rw [Ne, ← UInt32.toNat_inj]
  omega

section Power

variable {x e m acc base : ExBig} {n0 : UInt32} {p i : Nat}

/-- A number of the modulus' ring, `p` in Montgomery's form. -/
structure InForma (m : ExBig) (p : Nat) (x : ExBig) : Prop where
  ok : x.Ok
  small : x.val < m.val
  isForm : x.val ≡ p * (2 ^ 32) ^ m.n [MOD m.val]

section

variable (modulo : Modulo m n0) (coprime : Nat.Coprime m.val ((2 ^ 32) ^ m.n))

include modulo coprime

theorem InForma.mul {q : Nat} {y : ExBig} (xIn : InForma m p x) (yIn : InForma m q y) :
    InForma m (p * q) (montMul x y m n0 m.n) := by
  have short := xIn.ok.n_le_of_le (Nat.le_of_lt xIn.small)
  obtain ⟨ok, small, product⟩ := montMul_spec modulo xIn.ok short yIn.ok (Nat.le_of_lt yIn.small)
  exact ⟨ok, small, montgomery_mul coprime product xIn.isForm yIn.isForm⟩

theorem InForma.into
    (xOk : x.Ok) (short : x.n ≤ m.n) : InForma m x.val (montMul x (erreQuadro m m.n) m n0 m.n) := by
  obtain ⟨rOk, rSmall, isSquare⟩ := erreQuadro_spec modulo
  obtain ⟨ok, small, product⟩ := montMul_spec modulo xOk short rOk rSmall
  exact ⟨ok, small, montgomery_in coprime product isSquare⟩

theorem InForma.out (xIn : InForma m p x) : (montMul x (exbigDaParola 1) m n0 m.n).Ok ∧
      (montMul x (exbigDaParola 1) m n0 m.n).val = p % m.val := by
  obtain ⟨oneOk, isOne⟩ := exbigDaParola_uno
  have short := xIn.ok.n_le_of_le (Nat.le_of_lt xIn.small)
  obtain ⟨ok, small, product⟩ := montMul_spec modulo xIn.ok short oneOk (by
    exact modulo.val_pos)
  have reduced := montgomery_out coprime product xIn.isForm
  exact ⟨ok, (Nat.mod_eq_of_lt small).symm.trans reduced⟩

theorem potenzaGiri_spec
    (xIn : InForma m p x) (le : i ≤ exbigBit e) (accIn : InForma m (p ^ (e.val / 2 ^ i)) acc) :
    InForma m (p ^ e.val) (potenzaGiri x e m n0 m.n acc i) := by
  induction i generalizing acc with
  | zero =>
    rw [Nat.pow_zero, Nat.div_one] at accIn
    exact accIn
  | succ i ih =>
    have square := accIn.mul modulo coprime accIn
    rw [← Nat.pow_add] at square
    have halves : e.val / 2 ^ (i + 1) = e.val / 2 ^ i / 2 := by
      rw [Nat.pow_succ, Nat.div_div_eq_div_mul]
    have bit := acceso_iff le
    apply ih (Nat.le_of_succ_le le)
    split
    · next on =>
      have isOdd := bit.mp on
      have isExponent : e.val / 2 ^ (i + 1) + e.val / 2 ^ (i + 1) + 1 = e.val / 2 ^ i := by omega
      rw [← isExponent]
      exact square.mul modulo coprime xIn
    · next on =>
      have isEven : ¬e.val / 2 ^ i % 2 = 1 := fun isOdd => on (bit.mpr isOdd)
      have isExponent : e.val / 2 ^ (i + 1) + e.val / 2 ^ (i + 1) = e.val / 2 ^ i := by omega
      rw [← isExponent]
      exact square

end

theorem odd_word : m.val % 2 = 1 ↔ m.n ≠ 0 ∧ m.p 0 &&& 1 ≠ 0 := by
  by_cases empty : m.n = 0
  · have isZero : m.val = 0 := by
      rw [ExBig.val, empty]
      rfl
    simp [isZero, empty]
  obtain ⟨k, isTop⟩ := Nat.exists_eq_succ_of_ne_zero empty
  have word : m.val % 2 ^ 32 = (m.p 0).toNat % 2 ^ 32 := by
    rw [ExBig.val, isTop]
    exact valore_modEq
  have bit : m.p 0 &&& 1 = 0 ↔ (m.p 0).toNat % 2 = 0 := by
    rw [← UInt32.toNat_inj, ← Nat.and_one_is_mod]
    rfl
  rw [and_iff_right empty, Ne, bit]
  omega

theorem Modulo.ofOdd (mOk : m.Ok) (odd : m.val % 2 = 1) : Modulo m (n0Inverso (m.p 0)) :=
  ⟨mOk, Nat.pos_of_ne_zero (odd_word.mp odd).1, n0Inverso_spec (odd_word.mp odd).2⟩

theorem coprime_power (odd : m.val % 2 = 1) : Nat.Coprime m.val ((2 ^ 32) ^ m.n) := by
  apply Nat.Coprime.pow_right
  apply Nat.Coprime.pow_right
  exact Nat.coprime_two_right.mpr (Nat.odd_iff.mpr odd)

/-- The power of the base modulo `m`, for every odd modulus, also one that fills
all the words. -/
theorem exbigModexp_eq (e : ExBig) (baseOk : base.Ok) (mOk : m.Ok) (odd : m.val % 2 = 1)
    (below : base.val < m.val) :
    ∃ r, exbigModexp base e m = some r ∧ r.Ok ∧ r.val = base.val ^ e.val % m.val := by
  have modulo := Modulo.ofOdd mOk odd
  have coprime := coprime_power odd
  obtain ⟨positive, oddWord⟩ := odd_word.mp odd
  obtain ⟨oneOk, isOne⟩ := exbigDaParola_uno
  have notAbove : ¬0 ≤ exbigCmp base m :=
    fun above => Nat.not_le_of_lt below ((exbigCmp_iff baseOk mOk).mp above)
  rw [exbigModexp, if_neg (by rintro (empty | even); exacts [positive empty, oddWord even]),
    if_neg (Nat.not_lt.mpr mOk.entro), if_neg notAbove]
  split
  · next empty =>
    have zero : e.val = 0 := by
      rw [ExBig.val, empty]
      rfl
    rw [zero, Nat.pow_zero]
    split
    · next reached =>
      have small := (exbigCmp_iff oneOk mOk).mp reached
      have isM : m.val = 1 := by omega
      rw [isM]
      exact ⟨exbigZero, rfl, exbigZero_ok, rfl⟩
    · next reached =>
      have large : ¬m.val ≤ (exbigDaParola 1).val :=
        fun small => reached ((exbigCmp_iff oneOk mOk).mpr small)
      exact ⟨exbigDaParola 1, rfl, oneOk,
        isOne.trans (Nat.mod_eq_of_lt (Nat.lt_of_not_le large)).symm⟩
  · have xIn := InForma.into modulo coprime baseOk (baseOk.n_le_of_le (Nat.le_of_lt below))
    have accIn := InForma.into modulo coprime oneOk (oneOk.n_le_of_le (by
      exact modulo.val_pos))
    -- Before the first bit the accumulator is one, the power to the exponent zero.
    have start : base.val ^ (e.val / 2 ^ exbigBit e) = (exbigDaParola 1).val := by
      rw [Nat.div_eq_of_lt val_lt_exbigBit, Nat.pow_zero, isOne]
    rw [← start] at accIn
    have power := potenzaGiri_spec modulo coprime xIn (Nat.le_refl _) accIn
    exact ⟨_, rfl, power.out modulo coprime⟩

theorem exbigModexp_odd {e r : ExBig} (isPower : exbigModexp base e m = some r) :
    m.val % 2 = 1 := by
  rw [exbigModexp] at isPower
  split at isPower
  · cases isPower
  · next odd => exact odd_word.mpr (not_or.mp odd)

end Power

/-- The cube of a number of four words. -/
theorem exbigModexp_cube : ∃ r,
    exbigModexp (daNumero (2 ^ 100 + 1)) (exbigDaParola 3) (daNumero (2 ^ 127 - 1)) = some r ∧
      r.Ok ∧ r.val = 3 * 2 ^ 100 + 3 * 2 ^ 73 + 2 ^ 46 + 1 := by
  have large : (2 ^ 32) ^ 4 ≤ tetto := Nat.pow_le_pow_right (Nat.two_pow_pos 32) (by decide)
  obtain ⟨baseOk, isBase⟩ := daNumero_spec (v := 2 ^ 100 + 1) (by omega)
  obtain ⟨mOk, isM⟩ := daNumero_spec (v := 2 ^ 127 - 1) (by omega)
  have power := exbigModexp_eq (exbigDaParola 3) baseOk mOk (by rfl) (by omega)
  exact power

end ExOs.Exbig
