import ExOs.Exbig.Modexp
import ExOs.Library.BigEndian

/-!
# Long integers and byte strings

`exbig_da_byte` and `exbig_a_byte`: the bytes are in network order, and zeros in front do
not count for the limit of 4096 bits.
-/

namespace ExOs.Exbig

open ExOs.Library Function List

/-- The words after `i` bytes. -/
def daByteGiri (b : List UInt8) : Nat → Nat → UInt32
  | 0 => fun _ => 0
  | i + 1 =>
    let p := daByteGiri b i
    let pos := b.length - 1 - i
    update p (pos / 4) (p (pos / 4) ||| (b.getD i 0).toUInt32 <<< UInt32.ofNat (pos % 4 * 8))

def exbigDaByte (b : List UInt8) : Option ExBig :=
  let b := b.dropWhile (· = 0)
  if exbigParole * 4 < b.length then none
  else some (normalizza { n := (b.length + 3) / 4, p := daByteGiri b b.length })

def exbigAByte (a : ExBig) (len : Nat) : Option (List UInt8) :=
  if len < (exbigBit a + 7) / 8 then none
  else
    some ((range len).map fun i =>
      let pos := len - 1 - i
      if pos / 4 < a.n then (a.p (pos / 4) >>> UInt32.ofNat (pos % 4 * 8)).toUInt8 else 0)

section In

variable {b : List UInt8} {i n : Nat}

theorem valore_update {p : Nat → UInt32} {j more : Nat} {w : UInt32} (lt : j < n)
    (isW : w.toNat = (p j).toNat + more) :
    valore (update p j w) n = valore p n + more * (2 ^ 32) ^ j := by
  induction n with
  | zero => exact absurd lt (Nat.not_lt_zero j)
  | succ n ih =>
    rw [valore, valore, number, number]
    rcases Nat.lt_or_eq_of_le (Nat.le_of_lt_succ lt) with below | last
    · rw [update_of_ne (Nat.ne_of_gt below)]
      have lower := ih below
      rw [valore, valore] at lower
      omega
    rw [last] at isW ⊢
    have lower : number (2 ^ 32) (fun i => (update p n w i).toNat) n =
        number (2 ^ 32) (fun i => (p i).toNat) n :=
      number_congr fun i below => by rw [update_of_ne (Nat.ne_of_lt below)]
    rw [lower, update_self, isW, Nat.add_mul, Nat.add_assoc]

theorem toNat_or_byte {w : UInt32} {t : Nat} (c : UInt8) (small : t < 4)
    (empty : 256 ^ (t + 1) ∣ w.toNat) :
    (w ||| c.toUInt32 <<< UInt32.ofNat (t * 8)).toNat = w.toNat + c.toNat * 256 ^ t := by
  obtain ⟨high, isW⟩ := empty
  have digit := UInt8.toNat_lt c
  have power : 256 ^ t = 2 ^ (t * 8) := by rw [Nat.mul_comm, Nat.pow_mul]
  have fits : c.toNat * 256 ^ t < 256 ^ (t + 1) := by
    rw [Nat.pow_succ']
    exact Nat.mul_lt_mul_of_pos_right digit (Nat.pow_pos (by decide))
  have large : 256 ^ (t + 1) ≤ 256 ^ 4 := Nat.pow_le_pow_right (by decide) small
  have amount : (UInt32.ofNat (t * 8)).toNat % 32 = t * 8 := by
    rw [UInt32.toNat_ofNat']
    omega
  rw [UInt32.toNat_or, UInt32.toNat_shiftLeft, amount, UInt8.toNat_toUInt32,
    Nat.shiftLeft_eq, ← power, Nat.mod_eq_of_lt (by omega), isW]
  have bits : 256 ^ (t + 1) = 2 ^ ((t + 1) * 8) := by rw [Nat.mul_comm, Nat.pow_mul]
  rw [bits] at fits ⊢
  exact (Nat.two_pow_add_eq_or_of_lt fits high).symm

theorem daByteGiri_spec (b : List UInt8) (enough : b.length ≤ n * 4) (i : Nat) (le : i ≤ b.length) :
    valore (daByteGiri b i) n = bigEndian (b.take i) * 256 ^ (b.length - i) := by
  induction i with
  | zero =>
    rw [take_zero, bigEndian, Nat.zero_mul]
    exact number_zeros (fun _ _ _ => rfl) (Nat.zero_le n)
  | succ i ih =>
    have pre := ih (Nat.le_of_succ_le le)
    rw [daByteGiri]
    generalize isPos : b.length - 1 - i = pos
    have isRoom : b.length - i = pos + 1 := by omega
    have place : pos / 4 < n := by omega
    have powers : (2 ^ 32) ^ (pos / 4) * 256 ^ (pos % 4) = 256 ^ pos := by
      rw [show (2 : Nat) ^ 32 = 256 ^ 4 from rfl, ← Nat.pow_mul, ← Nat.pow_add, Nat.div_add_mod]
    have word := number_div_mod place fun j _ => UInt32.toNat_lt (daByteGiri b i j)
    have empty : 256 ^ (pos % 4 + 1) ∣ (daByteGiri b i (pos / 4)).toNat := by
      have whole : valore (daByteGiri b i) n =
          bigEndian (b.take i) * 256 ^ (pos % 4 + 1) * (2 ^ 32) ^ (pos / 4) := by
        rw [pre, isRoom, Nat.pow_succ, ← powers]
        ring
      rw [← word]
      show _ ∣ valore (daByteGiri b i) n / (2 ^ 32) ^ (pos / 4) % 2 ^ 32
      rw [whole, Nat.mul_div_cancel _ (Nat.pow_pos (by decide))]
      refine (Nat.dvd_mod_iff ?_).mpr (Nat.dvd_mul_left _ _)
      exact Nat.pow_dvd_pow 256 (Nat.mod_lt pos (by decide) : pos % 4 + 1 ≤ 4)
    have more := toNat_or_byte (b.getD i 0) (Nat.mod_lt pos (by decide)) empty
    have taken : bigEndian (b.take (i + 1)) = bigEndian (b.take i) * 256 + (b.getD i 0).toNat := by
      rw [take_succ_eq_append_getElem le, bigEndian_append, getD_eq_getElem?_getD,
        getElem?_eq_getElem le]
      simp [bigEndian]
    rw [valore_update place more, pre, taken, isRoom, show b.length - (i + 1) = pos by omega,
      Nat.pow_succ, ← powers]
    ring

theorem daByteGiri_zeri (b : List UInt8) (i : Nat) (le : i ≤ b.length) {j : Nat}
    (above : (b.length + 3) / 4 ≤ j) : daByteGiri b i j = 0 := by
  induction i with
  | zero => rfl
  | succ i ih =>
    rw [daByteGiri, update_of_ne (by omega)]
    exact ih (Nat.le_of_succ_le le)

theorem exbigDaByte_spec : (256 ^ (exbigParole * 4) ≤ bigEndian b ∧ exbigDaByte b = none) ∨
      ∃ r, exbigDaByte b = some r ∧ r.Ok ∧ r.val = bigEndian b := by
  rw [pow_le_bigEndian_iff, ← bigEndian_dropWhile, exbigDaByte]
  generalize b.dropWhile (· = 0) = b
  by_cases long : exbigParole * 4 < b.length
  · exact .inl ⟨long, if_pos long⟩
  refine .inr ⟨_, if_neg long, normalizza_ok ?_ ?_, ?_⟩
  · show (b.length + 3) / 4 ≤ exbigParole
    omega
  · exact fun j above _ => daByteGiri_zeri b _ (Nat.le_refl _) above
  · have whole := daByteGiri_spec (n := (b.length + 3) / 4) b (by omega) b.length (Nat.le_refl _)
    rw [take_length, Nat.sub_self, Nat.pow_zero, Nat.mul_one] at whole
    rw [normalizza_val]
    exact whole

end In

section Out

variable {a : ExBig}

theorem ExBig.Ok.exbigBit_le_iff (ok : a.Ok) (k : Nat) : exbigBit a ≤ k ↔ a.val < 2 ^ k := by
  cases isTop : a.n with
  | zero =>
    rw [exbigBit, ExBig.val, isTop]
    exact iff_of_true (Nat.zero_le k) (Nat.two_pow_pos k)
  | succ m =>
    by_cases enough : 32 * m ≤ k
    · exact Exbig.exbigBit_le_iff isTop enough
    have large := ok.pow_le isTop
    have more : 2 ^ k ≤ (2 ^ 32) ^ m := by
      rw [← Nat.pow_mul]
      exact Nat.pow_le_pow_right (by decide) (by omega)
    rw [exbigBit, isTop, if_neg (Nat.succ_ne_zero m)]
    omega

theorem byte_eq {pos : Nat} :
    (if pos / 4 < a.n then (a.p (pos / 4) >>> UInt32.ofNat (pos % 4 * 8)).toUInt8 else 0) =
      UInt8.ofNat (a.val / 256 ^ pos % 256) := by
  have powers : 256 ^ pos = (2 ^ 32) ^ (pos / 4) * 256 ^ (pos % 4) := by
    rw [show (2 : Nat) ^ 32 = 256 ^ 4 from rfl, ← Nat.pow_mul, ← Nat.pow_add, Nat.div_add_mod]
  split
  · next lt =>
    have word : a.val / (2 ^ 32) ^ (pos / 4) % 2 ^ 32 = (a.p (pos / 4)).toNat :=
      number_div_mod lt fun j _ => UInt32.toNat_lt (a.p j)
    have amount : (UInt32.ofNat (pos % 4 * 8)).toNat % 32 = pos % 4 * 8 := by
      rw [UInt32.toNat_ofNat']
      omega
    have bits : 2 ^ (pos % 4 * 8) = 256 ^ (pos % 4) := by rw [Nat.mul_comm, Nat.pow_mul]
    have dvd : 256 ^ (pos % 4) * 256 ∣ 2 ^ 32 := by
      exact Nat.pow_dvd_pow 256 (Nat.mod_lt pos (by decide) : pos % 4 + 1 ≤ 4)
    have low : ∀ v, v % 2 ^ 32 / 256 ^ (pos % 4) % 256 = v / 256 ^ (pos % 4) % 256 := by
      intro v
      rw [← Nat.mod_mul_right_div_self, ← Nat.mod_mul_right_div_self, Nat.mod_mod_of_dvd _ dvd]
    apply UInt8.toNat_inj.mp
    rw [UInt32.toNat_toUInt8, UInt32.toNat_shiftRight, amount, Nat.shiftRight_eq_div_pow, bits,
      UInt8.toNat_ofNat_of_lt' (Nat.mod_lt _ (by decide)), powers, ← Nat.div_div_eq_div_mul, ← word]
    exact low _
  · next out =>
    have small : a.val < 256 ^ pos := by
      refine Nat.lt_of_lt_of_le a.val_lt ?_
      rw [powers]
      refine Nat.le_trans (Nat.pow_le_pow_right (by decide) (Nat.le_of_not_lt out)) ?_
      exact Nat.le_mul_of_pos_right _ (Nat.pow_pos (by decide))
    rw [Nat.div_eq_of_lt small]
    rfl

theorem exbigAByte_spec (ok : a.Ok) {len : Nat} : (256 ^ len ≤ a.val ∧ exbigAByte a len = none) ∨
      ∃ b, exbigAByte a len = some b ∧ b.length = len ∧ bigEndian b = a.val := by
  have bits := ok.exbigBit_le_iff (len * 8)
  rw [Nat.mul_comm, Nat.pow_mul, show (2 : Nat) ^ 8 = 256 from rfl] at bits
  by_cases long : len < (exbigBit a + 7) / 8
  · exact .inl ⟨by omega, if_pos long⟩
  · refine .inr ⟨_, if_neg long, ?_, ?_⟩
    · rw [length_map, length_range]
    · rw [map_congr_left fun i _ => byte_eq, bigEndian_digits, Nat.mod_eq_of_lt (by omega)]

theorem modexp_aByte_iff {base m : ExBig} (e : ExBig) (baseOk : base.Ok) (mOk : m.Ok)
    (odd : m.val % 2 = 1) (len : Nat) (b : List UInt8) :
    ((exbigModexp base e m).bind fun r => exbigAByte r len) = some b ↔
      base.val < m.val ∧ b.length = len ∧ bigEndian b = base.val ^ e.val % m.val := by
  by_cases below : base.val < m.val
  · obtain ⟨r, isR, rOk, isVal⟩ := exbigModexp_eq e baseOk mOk odd below
    rw [isR, Option.bind_some, ← isVal]
    rcases exbigAByte_spec rOk with ⟨large, isNone⟩ | ⟨b', isSome, isLength, isNumber⟩
    · rw [isNone]
      refine iff_of_false (by simp) ?_
      rintro ⟨_, sameLength, sameNumber⟩
      have less := bigEndian_lt b
      rw [sameLength] at less
      omega
    · rw [isSome, Option.some.injEq]
      constructor
      · rintro rfl
        exact ⟨below, isLength, isNumber⟩
      · rintro ⟨_, sameLength, sameNumber⟩
        exact bigEndian_injective (isLength.trans sameLength.symm) (isNumber.trans sameNumber.symm)
  · have above : 0 ≤ exbigCmp base m := (exbigCmp_iff baseOk mOk).mpr (Nat.le_of_not_lt below)
    have refused : exbigModexp base e m = none := by
      rw [exbigModexp, if_pos above, ite_self, ite_self]
    rw [refused]
    exact iff_of_false (by simp) fun wrong => below wrong.1

end Out

end ExOs.Exbig
