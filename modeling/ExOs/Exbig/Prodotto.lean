import ExOs.Library.Montgomery
import ExOs.Exbig.Parole

/-!
# Montgomery's product

The inverse of the least word of the modulus, the product, and the square of the
power of the base: each of them right for every odd modulus, also for one that
fills all the words.
-/

namespace ExOs.Exbig

open ExOs.Library Function

theorem newton_passo {m c f : UInt32} {i : Nat} (error : 1 - m * newton m i = c * f) :
    1 - m * newton m (i + 1) = c * c * (f * f) := by
  have squared : 1 - m * newton m (i + 1) = (1 - m * newton m i) * (1 - m * newton m i) := by
    rw [newton]
    grind
  grind

variable {m : UInt32}

theorem odd_eq (odd : m &&& 1 ≠ 0) : ∃ half : UInt32, m = 2 * half + 1 := by
  have bit : m.toNat % 2 = 1 := by
    have nonzero : (m &&& 1).toNat ≠ 0 := fun zero => odd (UInt32.toNat_inj.mp zero)
    have one : (1 : UInt32).toNat = 1 := rfl
    rw [UInt32.toNat_and, one, Nat.and_one_is_mod] at nonzero
    omega
  have small := UInt32.toNat_lt m
  have half : (m >>> 1).toNat = m.toNat / 2 := by
    rfl
  have one : (1 : UInt32).toNat = 1 := rfl
  have two : (2 : UInt32).toNat = 2 := rfl
  refine ⟨m >>> 1, UInt32.toNat_inj.mp ?_⟩
  rw [UInt32.toNat_add, UInt32.toNat_mul, two]
  omega

theorem mul_newton (odd : m &&& 1 ≠ 0) : m * newton m 5 = 1 := by
  obtain ⟨half, isOdd⟩ := odd_eq odd
  have start : 1 - m * newton m 0 = 2 * (0 - (2 * half * half + 2 * half)) := by
    rw [newton, isOdd]
    grind
  -- The error is even, and five squares make it a multiple of `2 ^ 32`.
  have last := newton_passo (newton_passo (newton_passo (newton_passo (newton_passo start))))
  grind

theorem n0Inverso_spec (odd : m &&& 1 ≠ 0) : (m.toNat * (n0Inverso m).toNat + 1) % 2 ^ 32 = 0 := by
  have inverse := mul_newton odd
  have isZero : m * n0Inverso m + 1 = 0 := by
    rw [n0Inverso]
    grind
  have values := congrArg UInt32.toNat isZero
  rw [← Nat.mod_add_mod]
  exact values

def prodotti (t a : Nat → UInt32) (x : UInt32) (j : Nat) : Nat :=
  (t j).toNat + (a j).toNat * x.toNat

theorem carry_prodotti_lt (t a : Nat → UInt32) (x : UInt32) (k : Nat) :
    carry (2 ^ 32) (prodotti t a x) 0 k < 2 ^ 32 := by
  induction k with
  | zero => exact Nat.two_pow_pos 32
  | succ k ih =>
    have tSmall := UInt32.toNat_lt (t k)
    have product : (a k).toNat * x.toNat ≤ (2 ^ 32 - 1) * (2 ^ 32 - 1) :=
      Nat.mul_le_mul (Nat.le_pred_of_lt (UInt32.toNat_lt _)) (Nat.le_pred_of_lt (UInt32.toNat_lt _))
    rw [carry, prodotti]
    omega

theorem riga_spec {t a : Nat → UInt32} {x : UInt32} {k : Nat} : Scritte t (riga t a x k).1 k
        (fun i => (prodotti t a x i + carry (2 ^ 32) (prodotti t a x) 0 i) % 2 ^ 32) ∧
      (riga t a x k).2.toNat = carry (2 ^ 32) (prodotti t a x) 0 k := by
  induction k with
  | zero => exact ⟨Scritte.zero t _, rfl⟩
  | succ k ih =>
    obtain ⟨written, isCarry⟩ := ih
    have small : (riga t a x k).2.toNat < 2 ^ 32 := by
      rw [isCarry]
      exact carry_prodotti_lt t a x k
    have isSum := toNat_prodotto (t k) (a k) x small
    rw [isCarry] at isSum
    rw [riga]
    rw [written.sopra k (Nat.le_refl k)]
    refine ⟨written.scrivi ?_, ?_⟩
    · rw [UInt64.toNat_toUInt32, isSum]
      rfl
    · rw [toNat_alta, isSum]
      rfl

theorem aggiungi_spec (t a : Nat → UInt32) (x : UInt32) {n : Nat}
    (room : valore t (n + 2) + valore a n * x.toNat < (2 ^ 32) ^ (n + 2)) :
    valore (aggiungi t a x n) (n + 2) = valore t (n + 2) + valore a n * x.toNat := by
  obtain ⟨⟨written, left⟩, isCarry⟩ := riga_spec
  have total := number_carry (2 ^ 32) (prodotti t a x) 0 n
  have row : number (2 ^ 32) (prodotti t a x) n = valore t n + valore a n * x.toNat := by
    refine (number_add _ _ _ n).trans ?_
    rw [number_mul]
    rfl
  rw [row, ← isCarry] at total
  have carrySmall : (riga t a x n).2.toNat < 2 ^ 32 := by
    rw [isCarry]
    exact carry_prodotti_lt t a x n
  generalize isLow : number (2 ^ 32)
    (fun i => (prodotti t a x i + carry (2 ^ 32) (prodotti t a x) 0 i) % 2 ^ 32) n = low at total
  -- The two words above the row.
  have above : ((t n).toUInt64 + (riga t a x n).2).toNat =
    (t n).toNat + (riga t a x n).2.toNat := by
    have tSmall := UInt32.toNat_lt (t n)
    rw [UInt64.toNat_add, UInt32.toNat_toUInt64]
    omega
  have expandT : valore t (n + 2) =
      valore t n + (t n).toNat * (2 ^ 32) ^ n + (t (n + 1)).toNat * (2 ^ 32) ^ (n + 1) := rfl
  have wordN : aggiungi t a x n n = ((t n).toUInt64 + (riga t a x n).2).toUInt32 := by
    rw [aggiungi]
    rw [update_of_ne (Nat.ne_of_lt (Nat.lt_succ_self n)), update_self, left n (Nat.le_refl n)]
  have wordTop : aggiungi t a x n (n + 1) =
      t (n + 1) + (((t n).toUInt64 + (riga t a x n).2) >>> 32).toUInt32 := by
    rw [aggiungi]
    rw [update_self, update_of_ne (Nat.succ_ne_self n),
      left (n + 1) (Nat.le_succ n), left n (Nat.le_refl n)]
  have lower : valore (aggiungi t a x n) n = low := by
    rw [← isLow]
    apply number_congr
    intro i below
    rw [← written i below, aggiungi]
    rw [update_of_ne (by omega), update_of_ne (Nat.ne_of_lt below)]
  have expand : valore (aggiungi t a x n) (n + 2) =
      low + (aggiungi t a x n n).toNat * (2 ^ 32) ^ n +
        (aggiungi t a x n (n + 1)).toNat * (2 ^ 32) ^ (n + 1) := by
    rw [← lower]
    rfl
  rw [expand, wordN, wordTop, UInt64.toNat_toUInt32, UInt32.toNat_add, UInt64.toNat_toUInt32,
    toNat_alta, above]
  have powersTop : ((2 ^ 32) ^ (n + 2) : Nat) = 2 ^ 32 * (2 ^ 32) ^ (n + 1) := Nat.pow_succ'
  rw [expandT] at room ⊢
  generalize (riga t a x n).2.toNat = c at total carrySmall ⊢
  have split := Nat.mod_add_div ((t n).toNat + c) (2 ^ 32)
  have highSmall : ((t n).toNat + c) / 2 ^ 32 ≤ 1 := by
    have tSmall := UInt32.toNat_lt (t n)
    omega
  generalize ((t n).toNat + c) % 2 ^ 32 = s at split ⊢
  generalize ((t n).toNat + c) / 2 ^ 32 = h at split highSmall ⊢
  have whole : low + s * (2 ^ 32) ^ n + ((t (n + 1)).toNat + h) * (2 ^ 32) ^ (n + 1) =
      valore t n + (t n).toNat * (2 ^ 32) ^ n + (t (n + 1)).toNat * (2 ^ 32) ^ (n + 1) +
        valore a n * x.toNat := by
    calc _ = low + (s + 2 ^ 32 * h) * (2 ^ 32) ^ n +
          (t (n + 1)).toNat * (2 ^ 32 * (2 ^ 32) ^ n) := by ring
      _ = low + c * (2 ^ 32) ^ n + (t n).toNat * (2 ^ 32) ^ n +
          (t (n + 1)).toNat * (2 ^ 32 * (2 ^ 32) ^ n) := by
        rw [split]
        ring
      _ = _ := by
        rw [total]
        ring
  have fits : (t (n + 1)).toNat + h < 2 ^ 32 := by
    by_contra large
    have product : 2 ^ 32 * (2 ^ 32) ^ (n + 1) ≤ ((t (n + 1)).toNat + h) * (2 ^ 32) ^ (n + 1) :=
      Nat.mul_le_mul_right _ (Nat.le_of_not_lt large)
    omega
  rw [Nat.mod_eq_of_lt (Nat.lt_of_le_of_lt highSmall (by decide)), Nat.mod_eq_of_lt fits, whole]

theorem scorri_spec (t : Nat → UInt32) (n : Nat) :
    valore t (n + 2) = (t 0).toNat + 2 ^ 32 * valore (scorri t n) (n + 2) := by
  have lower : valore (scorri t n) (n + 1) = valore (fun i => t (i + 1)) (n + 1) :=
    valore_congr fun i below => if_pos (Nat.le_of_lt_succ below)
  have top : scorri t n (n + 1) = 0 := by rw [scorri, if_neg (Nat.not_succ_le_self n), if_pos rfl]
  have expand : valore (scorri t n) (n + 2) = valore (scorri t n) (n + 1) := by
    show valore (scorri t n) (n + 1) + (scorri t n (n + 1)).toNat * (2 ^ 32) ^ (n + 1) = _
    rw [top]
    show _ + 0 * _ = _
    rw [Nat.zero_mul, Nat.add_zero]
  rw [expand, lower]
  exact number_shift

theorem togliGiri_spec {p : Nat → UInt32} {m : ExBig} {k : Nat} : Scritte p (togliGiri p m k).1 k
        (remainder (2 ^ 32) (fun i => (p i).toNat) fun i => (m.parola i).toNat) ∧
      (togliGiri p m k).2.toNat =
        borrow (fun i => (p i).toNat) (fun i => (m.parola i).toNat) k := by
  induction k with
  | zero => exact ⟨Scritte.zero p _, rfl⟩
  | succ k ih =>
    obtain ⟨written, isBorrow⟩ := ih
    have small : (togliGiri p m k).2.toNat ≤ 1 := by
      rw [isBorrow]
      exact borrow_le_one _ _ k
    obtain ⟨isLow, isHigh⟩ := toNat_differenza small
    rw [isBorrow] at isLow isHigh
    rw [togliGiri]
    rw [written.sopra k (Nat.le_refl k)]
    exact ⟨written.scrivi isLow, isHigh⟩

theorem togliM_spec {r m : ExBig} (mOk : m.Ok)
    (zeros : ∀ i, m.n ≤ i → i < exbigParole → r.p i = 0) (small : valore r.p m.n < m.val) :
    (togliM r m m.n).Ok ∧ (togliM r m m.n).val + m.val = valore r.p m.n + (2 ^ 32) ^ m.n := by
  obtain ⟨⟨written, left⟩, _⟩ := togliGiri_spec
  have isM : number (2 ^ 32) (fun i => (m.parola i).toNat) m.n = m.val :=
    m.parola_eq (Nat.le_refl _)
  have words : ∀ i < m.n, (m.parola i).toNat < 2 ^ 32 := fun i _ => UInt32.toNat_lt (m.parola i)
  have total := number_borrow (fun i => (r.p i).toNat) words
  have isVal : (togliM r m m.n).val = number (2 ^ 32)
      (remainder (2 ^ 32) (fun i => (r.p i).toNat) fun i => (m.parola i).toNat) m.n :=
    normalizza_val.trans (number_congr written)
  have isR : number (2 ^ 32) (fun i => (r.p i).toNat) m.n = valore r.p m.n := rfl
  rw [← isVal, isM] at total
  refine ⟨normalizza_ok mOk.entro fun i above below => (left i above).trans (zeros i above below),
    ?_⟩
  have atMost := borrow_le_one (fun i => (r.p i).toNat) (fun i => (m.parola i).toNat) m.n
  have choice : borrow (fun i => (r.p i).toNat) (fun i => (m.parola i).toNat) m.n = 0 ∨
      borrow (fun i => (r.p i).toNat) (fun i => (m.parola i).toNat) m.n = 1 := by omega
  rcases choice with zero | isOne
  · rw [zero] at total
    omega
  · rw [isOne, Nat.one_mul] at total
    exact total

/-! ## The product -/

/-- A modulus the functions accept, and the magic number for it. -/
structure Modulo (m : ExBig) (n0 : UInt32) : Prop where
  ok : m.Ok
  positive : 0 < m.n
  magic : ((m.p 0).toNat * n0.toNat + 1) % 2 ^ 32 = 0

section Product

variable {a b m r : ExBig} {n0 : UInt32} {i : Nat} {t : Nat → UInt32}

theorem valore_modEq {p : Nat → UInt32} {n : Nat} :
    valore p (n + 1) ≡ (p 0).toNat [MOD 2 ^ 32] := by
  have split : valore p (n + 1) = (p 0).toNat + 2 ^ 32 * valore (fun i => p (i + 1)) n :=
    number_shift
  rw [split]
  exact Nat.add_mul_mod_self_left _ _ _

theorem magic_clears {t m n0 : Nat} (magic : (m * n0 + 1) % 2 ^ 32 = 0) :
    (t + m * (t * n0 % 2 ^ 32)) % 2 ^ 32 = 0 := by
  have whole : (t + m * (t * n0)) % 2 ^ 32 = 0 := by
    have factored : t + m * (t * n0) = t * (m * n0 + 1) := by ring
    rw [factored, Nat.mul_mod, magic, Nat.mul_zero, Nat.zero_mod]
  rw [Nat.add_mod, Nat.mul_mod, Nat.mod_mod, ← Nat.mul_mod, ← Nat.add_mod]
  exact whole

/-- Where a product or a sum lies below twice the modulus, the modulus is taken
away once at most. -/
theorem reduce_once {m x y : Nat} (same : x + m = y ∨ x = y) : x ≡ y [MOD m] := by
  rcases same with less | equal
  · rw [← less]
    exact (Nat.add_mod_right x m).symm
  · rw [equal]

/-- The modulus is taken from a number that reaches it. -/
theorem riduci_spec (rOk : r.Ok) (mOk : m.Ok) : (if 0 ≤ exbigCmp r m then sottraiIn r m else r).Ok ∧
      (m.val ≤ r.val ∧ (if 0 ≤ exbigCmp r m then sottraiIn r m else r).val + m.val = r.val ∨
        r.val < m.val ∧ (if 0 ≤ exbigCmp r m then sottraiIn r m else r).val = r.val) := by
  have reaches := exbigCmp_iff rOk mOk
  split
  · next reached =>
    have above := reaches.mp reached
    obtain ⟨ok, isVal⟩ := sottraiIn_spec rOk mOk above
    exact ⟨ok, .inl ⟨above, by omega⟩⟩
  · next reached =>
    exact ⟨rOk, .inr ⟨Nat.lt_of_not_le fun above => reached (reaches.mpr above), rfl⟩⟩

section

variable (modulo : Modulo m n0)

include modulo

theorem Modulo.val_pos : 0 < m.val := by
  obtain ⟨k, isTop⟩ := Nat.exists_eq_succ_of_ne_zero (Nat.ne_of_gt modulo.positive)
  exact Nat.lt_of_lt_of_le (Nat.pow_pos (Nat.two_pow_pos 32)) (modulo.ok.pow_le isTop)

theorem montGiro_spec (x : valore t (m.n + 2) < valore a.p m.n + m.val) :
    ∃ u < 2 ^ 32, 2 ^ 32 * valore (montGiro t a b m n0 m.n i) (m.n + 2) =
      valore t (m.n + 2) + valore a.p m.n * (b.parola i).toNat + u * m.val := by
  have aSmall := valore_lt a.p m.n
  have mSmall := m.val_lt
  have xSmall := UInt32.toNat_lt (b.parola i)
  have powers : ((2 ^ 32) ^ (m.n + 2) : Nat) = 2 ^ 32 * (2 ^ 32 * (2 ^ 32) ^ m.n) := by ring
  -- A row is below the power times the base, so two of them and the accumulator fit.
  have row : ∀ {y w : Nat}, y < (2 ^ 32) ^ m.n → w < 2 ^ 32 → y * w ≤ 2 ^ 32 * (2 ^ 32) ^ m.n := by
    intro y w ySmall wSmall
    rw [Nat.mul_comm]
    exact Nat.mul_le_mul (Nat.le_of_lt wSmall) (Nat.le_of_lt ySmall)
  have firstRow := row aSmall xSmall
  have isFirst := aggiungi_spec t a.p (b.parola i) (n := m.n) (by
    omega)
  rw [montGiro]
  generalize aggiungi t a.p (b.parola i) m.n = t1 at isFirst ⊢
  generalize isU : ((t1 0).toUInt64 * n0.toUInt64).toUInt32 = u
  have uSmall := UInt32.toNat_lt u
  have uVal : u.toNat = (t1 0).toNat * n0.toNat % 2 ^ 32 := by
    rw [← isU, UInt64.toNat_toUInt32, UInt64.toNat_mul, UInt32.toNat_toUInt64,
      UInt32.toNat_toUInt64, Nat.mod_mod_of_dvd _ (Nat.pow_dvd_pow 2 (by decide : 32 ≤ 64))]
  have secondRow := row mSmall uSmall
  have isSecond := aggiungi_spec t1 m.p u (n := m.n) (by
    show _ + m.val * u.toNat < _
    omega)
  have shifted := scorri_spec (aggiungi t1 m.p u m.n) m.n
  have cleared : (aggiungi t1 m.p u m.n 0).toNat = 0 := by
    obtain ⟨k, isTop⟩ := Nat.exists_eq_succ_of_ne_zero (Nat.ne_of_gt modulo.positive)
    have congruent : valore (aggiungi t1 m.p u m.n) (m.n + 2) ≡
        (t1 0).toNat + (m.p 0).toNat * u.toNat [MOD 2 ^ 32] := by
      rw [isSecond, isTop]
      exact valore_modEq.add (valore_modEq.mul_right _)
    rw [← Nat.mod_eq_of_lt (UInt32.toNat_lt (aggiungi t1 m.p u m.n 0)),
      ← valore_modEq, congruent, uVal]
    exact magic_clears modulo.magic
  refine ⟨u.toNat, uSmall, ?_⟩
  rw [cleared, Nat.zero_add, isSecond, isFirst] at shifted
  rw [← shifted, Nat.mul_comm u.toNat]
  rfl

theorem montGiri_partial (a b : ExBig) (i : Nat) :
    Partial (2 ^ 32) (valore a.p m.n) m.val i (valore b.parola i)
      (valore (montGiri a b m n0 m.n i) (m.n + 2)) := by
  induction i with
  | zero =>
    have zeros : ∀ i, 0 ≤ i → i < m.n + 2 → montGiri a b m n0 m.n 0 i = 0 := fun _ _ _ => rfl
    have empty : valore (montGiri a b m n0 m.n 0) (m.n + 2) = 0 := valore_zeri zeros (Nat.zero_le _)
    rw [empty]
    exact Partial.zero _ _ _
  | succ i ih =>
    obtain ⟨u, uSmall, step⟩ := montGiro_spec (b := b) (i := i) modulo (ih.lt modulo.val_pos)
    exact ih.round (UInt32.toNat_lt (b.parola i)) uSmall step

theorem montMul_spec (aOk : a.Ok) (aShort : a.n ≤ m.n) (bOk : b.Ok) (bSmall : b.val ≤ m.val) :
    (montMul a b m n0 m.n).Ok ∧ (montMul a b m n0 m.n).val < m.val ∧
      (montMul a b m n0 m.n).val * (2 ^ 32) ^ m.n ≡ a.val * b.val [MOD m.val] := by
  have state := montGiri_partial modulo a b m.n
  have pos := modulo.val_pos
  rw [aOk.valore_eq aShort modulo.ok.entro, b.parola_eq (bOk.n_le_of_le bSmall)] at state
  have aBelow : a.val < (2 ^ 32) ^ m.n :=
    Nat.lt_of_lt_of_le a.val_lt (Nat.pow_le_pow_right (Nat.two_pow_pos 32) aShort)
  have twice := state.lt_two_mul aBelow bSmall pos
  have product := state.modEq
  suffices reduced : (montMul a b m n0 m.n).Ok ∧ (montMul a b m n0 m.n).val < m.val ∧
      (montMul a b m n0 m.n).val ≡ valore (montGiri a b m n0 m.n m.n) (m.n + 2) [MOD m.val] from
    ⟨reduced.1, reduced.2.1, (reduced.2.2.mul_right _).trans product⟩
  rw [montMul]
  generalize montGiri a b m n0 m.n m.n = t at twice ⊢
  have mSmall := m.val_lt
  have whole : valore t (m.n + 2) = valore t m.n + (t m.n).toNat * (2 ^ 32) ^ m.n +
      (t (m.n + 1)).toNat * (2 ^ 32) ^ (m.n + 1) := rfl
  -- Below twice the modulus: the word above the highest is at most one.
  have topZero : (t (m.n + 1)).toNat = 0 := by
    by_contra large
    have atLeast : (2 ^ 32) ^ (m.n + 1) ≤ (t (m.n + 1)).toNat * (2 ^ 32) ^ (m.n + 1) :=
      Nat.le_mul_of_pos_left _ (Nat.pos_of_ne_zero large)
    omega
  have expand : valore t (m.n + 2) = valore t m.n + (t m.n).toNat * (2 ^ 32) ^ m.n := by
    rw [whole, topZero]
    omega
  have isLow : valore (fun i => if i < m.n then t i else 0) m.n = valore t m.n :=
    valore_congr fun i below => if_pos below
  have zeros : ∀ i, m.n ≤ i → i < exbigParole → (if i < m.n then t i else 0) = 0 :=
    fun i above _ => if_neg (Nat.not_lt.mpr above)
  split
  · next carried =>
    obtain ⟨_, expand⟩ := (carry_cases expand.symm (by omega)).resolve_left
      fun absent => carried (UInt32.toNat_inj.mp absent.1)
    obtain ⟨ok, taken⟩ := togliM_spec (r := normalizza
      { n := m.n, p := fun i => if i < m.n then t i else 0 }) modulo.ok zeros (by
        show valore (fun i => if i < m.n then t i else 0) m.n < m.val
        omega)
    have takenLow : _ + m.val = valore t m.n + (2 ^ 32) ^ m.n :=
      taken.trans (congrArg (· + _) isLow)
    exact ⟨ok, by omega, reduce_once (.inl (takenLow.trans expand))⟩
  · next carried =>
    have zero : t m.n = 0 := not_not.mp carried
    rw [zero] at expand
    have rOk : (normalizza { n := m.n, p := fun i => if i < m.n then t i else 0 }).Ok :=
      normalizza_ok modulo.ok.entro zeros
    have rVal : (normalizza { n := m.n, p := fun i => if i < m.n then t i else 0 }).val =
        valore t (m.n + 2) := by
      rw [normalizza_val, expand]
      exact isLow.trans (by rw [show (0 : UInt32).toNat = 0 from rfl, Nat.zero_mul, Nat.add_zero])
    obtain ⟨ok, reduced⟩ := riduci_spec rOk modulo.ok
    exact ⟨ok, by omega, reduce_once (by omega)⟩

theorem raddoppia_spec (rOk : r.Ok) (rSmall : r.val ≤ m.val) :
    (raddoppia r m m.n).Ok ∧ (raddoppia r m m.n).val ≤ m.val ∧
      (raddoppia r m m.n).val ≡ r.val * 2 [MOD m.val] := by
  obtain ⟨dOk, total⟩ := sommaIn_spec rOk rOk
  have mSmall := m.val_lt
  rw [raddoppia]
  generalize sommaIn r r = d at dOk total ⊢
  split
  · next carried =>
    have atLeast : (2 ^ 32) ^ exbigParole ≤ d.2.toNat * (2 ^ 32) ^ exbigParole :=
      Nat.le_mul_of_pos_left _ (Nat.pos_of_ne_zero fun zero => carried (UInt32.toNat_inj.mp zero))
    -- There is a carry only when the modulus has all the words.
    have full : m.n = exbigParole := by
      by_contra notFull
      have shorter : m.n + 1 ≤ exbigParole := Nat.lt_of_le_of_ne modulo.ok.entro notFull
      have more : (2 ^ 32) ^ (m.n + 1) ≤ (2 ^ 32) ^ exbigParole :=
        Nat.pow_le_pow_right (Nat.two_pow_pos 32) shorter
      omega
    rw [full] at mSmall
    obtain ⟨_, total⟩ := (carry_cases total (by omega)).resolve_left
      fun absent => carried (UInt32.toNat_inj.mp absent.1)
    rw [← full] at total
    have isD : valore d.1.p m.n = d.1.val :=
      dOk.valore_eq (by rw [full]; exact dOk.entro) modulo.ok.entro
    obtain ⟨ok, taken⟩ := togliM_spec (r := d.1) modulo.ok
      (fun i above below => absurd below (Nat.not_lt.mpr (full ▸ above))) (by
        omega)
    refine ⟨ok, by omega, reduce_once (.inl ?_)⟩
    omega
  · next carried =>
    have zero : d.2 = 0 := not_not.mp carried
    rw [zero, show (0 : UInt32).toNat = 0 from rfl] at total
    obtain ⟨ok, reduced⟩ := riduci_spec dOk modulo.ok
    exact ⟨ok, by omega, reduce_once (by omega)⟩

theorem raddoppiGiri_spec {k : Nat} :
    (raddoppiGiri m m.n k).Ok ∧ (raddoppiGiri m m.n k).val ≤ m.val ∧
      (raddoppiGiri m m.n k).val ≡ 2 ^ k [MOD m.val] := by
  induction k with
  | zero =>
    obtain ⟨ok, isOne⟩ := exbigDaParola_uno
    have pos := modulo.val_pos
    exact ⟨ok, pos, Nat.ModEq.refl 1⟩
  | succ k ih =>
    obtain ⟨ok, small, same⟩ := ih
    obtain ⟨nextOk, nextSmall, doubled⟩ := raddoppia_spec modulo ok small
    exact ⟨nextOk, nextSmall, doubled.trans (same.mul_right 2)⟩

theorem erreQuadro_spec : (erreQuadro m m.n).Ok ∧ (erreQuadro m m.n).val ≤ m.val ∧
      (erreQuadro m m.n).val ≡ (2 ^ 32) ^ m.n * (2 ^ 32) ^ m.n [MOD m.val] := by
  have isSquare : 2 ^ (64 * m.n) = (2 ^ 32) ^ m.n * (2 ^ 32) ^ m.n := by
    rw [← Nat.pow_mul, ← Nat.pow_add]
    congr 1
    omega
  rw [← isSquare]
  exact raddoppiGiri_spec modulo

end

end Product

end ExOs.Exbig
