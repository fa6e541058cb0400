import ExOs.Exbig.Interi

/-!
# What the words of a long integer say

The number an `ExBig` stands for, and comparison, sum and difference as
functions of it.  A sum or a difference may be written over one of its
operands, since a word is read before it is written.
-/

namespace ExOs.Exbig

open ExOs.Library Function

/-- The number of the first `n` words. -/
def valore (p : Nat → UInt32) (n : Nat) : Nat := number (2 ^ 32) (fun i => (p i).toNat) n

def ExBig.val (a : ExBig) : Nat := valore a.p a.n

/-- The words above the number are zero and its highest word is not. -/
structure ExBig.Ok (a : ExBig) : Prop where
  entro : a.n ≤ exbigParole
  zeri : ∀ i, a.n ≤ i → i < exbigParole → a.p i = 0
  cima : ∀ i, a.n = i + 1 → a.p i ≠ 0

section Words

variable {p q : Nat → UInt32} {n : Nat} {s : UInt64}

theorem valore_lt (p : Nat → UInt32) (n : Nat) : valore p n < (2 ^ 32) ^ n :=
  number_lt fun i _ => UInt32.toNat_lt (p i)

theorem valore_congr (same : ∀ i < n, p i = q i) : valore p n = valore q n :=
  number_congr fun i below => congrArg UInt32.toNat (same i below)

theorem valore_zeri {low : Nat} (zeros : ∀ i, low ≤ i → i < n → p i = 0) (within : low ≤ n) :
    valore p n = valore p low := by
  apply number_zeros _ within
  intro i above below
  rw [zeros i above below]
  rfl

theorem toNat_alta (s : UInt64) : (s >>> 32).toNat = s.toNat / 2 ^ 32 := by
  rw [UInt64.toNat_shiftRight, Nat.shiftRight_eq_div_pow]
  rfl

theorem toNat_somma (x y : UInt32) {t : UInt64} (small : t.toNat ≤ 1) :
    (t + (x.toUInt64 + y.toUInt64)).toNat = x.toNat + y.toNat + t.toNat := by
  have xSmall := UInt32.toNat_lt x
  have ySmall := UInt32.toNat_lt y
  rw [UInt64.toNat_add, UInt64.toNat_add, UInt32.toNat_toUInt64, UInt32.toNat_toUInt64]
  omega

theorem toNat_prodotto (t x y : UInt32) (small : s.toNat < 2 ^ 32) :
    (t.toUInt64 + x.toUInt64 * y.toUInt64 + s).toNat = t.toNat + x.toNat * y.toNat + s.toNat := by
  have tSmall := UInt32.toNat_lt t
  have xSmall := UInt32.toNat_lt x
  have ySmall := UInt32.toNat_lt y
  have product : x.toNat * y.toNat ≤ (2 ^ 32 - 1) * (2 ^ 32 - 1) :=
    Nat.mul_le_mul (Nat.le_pred_of_lt xSmall) (Nat.le_pred_of_lt ySmall)
  rw [UInt64.toNat_add, UInt64.toNat_add, UInt64.toNat_mul, UInt32.toNat_toUInt64,
    UInt32.toNat_toUInt64, UInt32.toNat_toUInt64]
  omega

theorem toNat_differenza {x y : UInt32} (small : s.toNat ≤ 1) :
    (x.toUInt64 - y.toUInt64 - s).toUInt32.toNat =
        (if x.toNat < y.toNat + s.toNat then x.toNat + 2 ^ 32 - (y.toNat + s.toNat)
          else x.toNat - (y.toNat + s.toNat)) ∧
      (((x.toUInt64 - y.toUInt64 - s) >>> 32) &&& 1).toNat =
        (if x.toNat < y.toNat + s.toNat then 1 else 0) := by
  have xSmall := UInt32.toNat_lt x
  have ySmall := UInt32.toNat_lt y
  have one : (1 : UInt64).toNat = 1 := rfl
  rw [UInt64.toNat_and, toNat_alta, UInt64.toNat_toUInt32, UInt64.toNat_sub, UInt64.toNat_sub,
    UInt32.toNat_toUInt64, UInt32.toNat_toUInt64, one, Nat.and_one_is_mod]
  split <;> omega

end Words

/-! ## Normal form -/

variable (p : Nat → UInt32) {r a b : Variabile} {mem : Memoria} {x y : ExBig} {n : Nat}

theorem normalizzaDa_le : normalizzaDa p n ≤ n := by
  induction n with
  | zero => exact Nat.le_refl 0
  | succ n ih =>
    rw [normalizzaDa]
    split
    · exact Nat.le_succ_of_le ih
    · exact Nat.le_refl _

theorem normalizzaDa_zeri : ∀ i, normalizzaDa p n ≤ i → i < n → p i = 0 := by
  induction n with
  | zero => exact fun i _ below => absurd below (Nat.not_lt_zero i)
  | succ n ih =>
    intro i above below
    rw [normalizzaDa] at above
    split at above
    · next isZero =>
      rcases Nat.lt_or_eq_of_le (Nat.le_of_lt_succ below) with lower | last
      · exact ih i above lower
      · rw [last]
        exact isZero
    · omega

theorem normalizzaDa_cima : ∀ i, normalizzaDa p n = i + 1 → p i ≠ 0 := by
  induction n with
  | zero => exact fun i wrong => absurd wrong (by simp [normalizzaDa])
  | succ n ih =>
    intro i isTop
    rw [normalizzaDa] at isTop
    split at isTop
    · exact ih i isTop
    · next top =>
      rw [← Nat.succ.inj isTop]
      exact top

theorem normalizza_val {a : ExBig} : (normalizza a).val = a.val :=
  (valore_zeri (normalizzaDa_zeri a.p) (normalizzaDa_le a.p)).symm

theorem normalizza_ok {a : ExBig} (entro : a.n ≤ exbigParole)
    (zeri : ∀ i, a.n ≤ i → i < exbigParole → a.p i = 0) : (normalizza a).Ok where
  entro := Nat.le_trans (normalizzaDa_le a.p) entro
  zeri := by
    intro i above below
    by_cases inside : i < a.n
    · exact normalizzaDa_zeri a.p i above inside
    · exact zeri i (Nat.le_of_not_lt inside) below
  cima := normalizzaDa_cima a.p

/-- What the words can hold is below this. -/
def tetto : Nat := (2 ^ 32) ^ exbigParole

def daNumero (v : Nat) : ExBig :=
  normalizza { n := exbigParole, p := fun i => UInt32.ofNat (v / (2 ^ 32) ^ i % 2 ^ 32) }

theorem daNumero_spec {v : Nat} (small : v < tetto) : (daNumero v).Ok ∧ (daNumero v).val = v := by
  refine ⟨normalizza_ok (Nat.le_refl _) fun i above below => absurd below (Nat.not_lt.mpr above),
    ?_⟩
  have words : ∀ i < exbigParole,
      (UInt32.ofNat (v / (2 ^ 32) ^ i % 2 ^ 32)).toNat = v / (2 ^ 32) ^ i % 2 ^ 32 := by
    intro i _
    rw [UInt32.toNat_ofNat', Nat.mod_mod]
  rw [daNumero, normalizza_val]
  exact (number_congr words).trans (number_digits.trans (Nat.mod_eq_of_lt small))

theorem exbigZero_ok : exbigZero.Ok :=
  ⟨Nat.zero_le _, fun _ _ _ => rfl, fun _ wrong => absurd wrong (by simp [exbigZero])⟩

theorem exbigDaParola_spec (v : UInt32) :
    (exbigDaParola v).Ok ∧ (exbigDaParola v).val = v.toNat := by
  rw [exbigDaParola]
  by_cases zero : v = 0
  · rw [zero]
    exact ⟨exbigZero_ok, rfl⟩
  rw [if_pos zero]
  have entro : 1 ≤ exbigParole := by decide
  refine ⟨⟨entro, ?_, ?_⟩, ?_⟩
  · intro i above _
    exact update_of_ne (Nat.ne_of_gt above) _ _
  · intro i isTop
    rw [← Nat.succ.inj isTop]
    exact fun wrong => zero ((update_self 0 v exbigZero.p).symm.trans wrong)
  · show 0 + (update exbigZero.p 0 v 0).toNat * (2 ^ 32) ^ 0 = v.toNat
    rw [update_self]
    omega

theorem exbigDaParola_uno : (exbigDaParola 1).Ok ∧ (exbigDaParola 1).val = 1 := exbigDaParola_spec 1

namespace ExBig

variable {a b : ExBig}

theorem val_lt (a : ExBig) : a.val < (2 ^ 32) ^ a.n := valore_lt a.p a.n

theorem Ok.val_lt (ok : a.Ok) : a.val < tetto :=
  Nat.lt_of_lt_of_le a.val_lt (Nat.pow_le_pow_right (Nat.two_pow_pos 32) ok.entro)

theorem Ok.valore_eq (ok : a.Ok) {k : Nat} (more : a.n ≤ k) (within : k ≤ exbigParole) :
    valore a.p k = a.val :=
  valore_zeri (fun i above below => ok.zeri i above (Nat.lt_of_lt_of_le below within)) more

theorem parola_eq (a : ExBig) {k : Nat} (more : a.n ≤ k) : valore a.parola k = a.val := by
  have zeros : valore a.parola k = valore a.parola a.n := by
    apply valore_zeri _ more
    intro i above _
    exact if_neg (Nat.not_lt_of_le above)
  rw [zeros]
  exact valore_congr fun i below => if_pos below

theorem Ok.pow_le (ok : a.Ok) {i : Nat} (isTop : a.n = i + 1) : (2 ^ 32) ^ i ≤ a.val := by
  have top : (a.p i).toNat ≠ 0 := by
    intro zero
    exact ok.cima i isTop (UInt32.toNat_inj.mp zero)
  rw [val, isTop]
  exact number_top top

theorem Ok.lt_of_n_lt (ok : b.Ok) (shorter : a.n < b.n) : a.val < b.val := by
  obtain ⟨i, isTop⟩ := Nat.exists_eq_succ_of_ne_zero (Nat.ne_of_gt (Nat.zero_lt_of_lt shorter))
  calc a.val < (2 ^ 32) ^ a.n := a.val_lt
    _ ≤ (2 ^ 32) ^ i := Nat.pow_le_pow_right (by decide) (by omega)
    _ ≤ b.val := ok.pow_le isTop

theorem Ok.n_le_of_le (ok : a.Ok) (below : a.val ≤ b.val) : a.n ≤ b.n := by
  by_contra longer
  exact absurd below (Nat.not_le_of_lt (ok.lt_of_n_lt (Nat.lt_of_not_le longer)))

end ExBig

theorem cmpDa_iff {p q : Nat → UInt32} : 0 ≤ cmpDa p q n ↔ valore q n ≤ valore p n := by
  have bounds : ∀ r : Nat → UInt32, ∀ i < n, (r i).toNat < 2 ^ 32 := fun r i _ => UInt32.toNat_lt _
  -- The words above those still to be compared are equal.
  suffices step : ∀ k ≤ n, (∀ i, k ≤ i → i < n → p i = q i) →
      (0 ≤ cmpDa p q k ↔ valore q n ≤ valore p n) by
    exact step n (Nat.le_refl n) fun i above below => absurd below (Nat.not_lt_of_le above)
  intro k
  induction k with
  | zero =>
    intro _ same
    have equal : valore p n = valore q n := valore_congr fun i below => same i (Nat.zero_le i) below
    rw [equal]
    exact ⟨fun _ => Nat.le_refl _, fun _ => Int.le_refl 0⟩
  | succ k ih =>
    intro within same
    have above : ∀ i, k < i → i < n → (p i).toNat = (q i).toNat :=
      fun i larger below => congrArg UInt32.toNat (same i larger below)
    rw [cmpDa]
    by_cases equal : p k = q k
    · rw [if_neg (not_not_intro equal)]
      apply ih (Nat.le_of_succ_le within)
      intro i since below
      rcases Nat.lt_or_eq_of_le since with larger | isK
      · exact same i larger below
      · rw [← isK]
        exact equal
    · rw [if_pos equal]
      split
      · next larger =>
        have less : valore q n < valore p n :=
          number_lt_number within (bounds q) (UInt32.lt_iff_toNat_lt.mp larger)
            fun i more below => (above i more below).symm
        exact ⟨fun _ => Nat.le_of_lt less, fun _ => by decide⟩
      · next larger =>
        have smaller : (p k).toNat < (q k).toNat := by
          have ne : (p k).toNat ≠ (q k).toNat := fun same => equal (UInt32.toNat_inj.mp same)
          have notLess : ¬(q k).toNat < (p k).toNat :=
            fun less => larger (UInt32.lt_iff_toNat_lt.mpr less)
          omega
        have less : valore p n < valore q n := number_lt_number within (bounds p) smaller above
        exact ⟨nofun, fun wrong => absurd less (Nat.not_lt_of_le wrong)⟩

theorem exbigCmp_iff {a b : ExBig} (aOk : a.Ok) (bOk : b.Ok) :
    0 ≤ exbigCmp a b ↔ b.val ≤ a.val := by
  rw [exbigCmp]
  by_cases same : a.n = b.n
  · rw [if_neg (not_not_intro same), cmpDa_iff, ExBig.val, ExBig.val, same]
  rw [if_pos same]
  split
  · next longer =>
    exact ⟨fun _ => Nat.le_of_lt (aOk.lt_of_n_lt longer), fun _ => by decide⟩
  · have shorter : a.val < b.val := bOk.lt_of_n_lt (by omega)
    exact ⟨nofun, fun wrong => absurd shorter (Nat.not_lt_of_le wrong)⟩

/-! ## Sum and difference -/

/-- The first `k` words have been replaced by those of value `fuori`. -/
structure Scritte (p q : Nat → UInt32) (k : Nat) (fuori : Nat → Nat) : Prop where
  sotto : ∀ i < k, (q i).toNat = fuori i
  sopra : ∀ i, k ≤ i → q i = p i

theorem Scritte.zero (fuori : Nat → Nat) : Scritte p p 0 fuori :=
  ⟨fun i below => absurd below (Nat.not_lt_zero i), fun _ _ => rfl⟩

theorem Scritte.scrivi {p q : Nat → UInt32} {k : Nat} {fuori : Nat → Nat} {v : UInt32}
    (stored : Scritte p q k fuori) (isOut : v.toNat = fuori k) :
    Scritte p (update q k v) (k + 1) fuori := by
  refine ⟨fun i below => ?_, fun i above => ?_⟩
  · rcases Nat.lt_or_eq_of_le (Nat.le_of_lt_succ below) with lower | last
    · rw [update_of_ne (Nat.ne_of_lt lower)]
      exact stored.sotto i lower
    · rw [last, update_self]
      exact isOut
  · rw [update_of_ne (Nat.ne_of_gt above)]
    exact stored.sopra i (Nat.le_of_succ_le above)

/-- The first `k` words of `r` written, and nothing else. -/
structure Scritto (mem : Memoria) (r : Variabile) (k : Nat) (fuori : Nat → Nat)
    (mem' : Memoria) : Prop where
  altre : ∀ q, q ≠ r → mem' q = mem q
  lunga : (mem' r).n = (mem r).n
  scritte : ∀ i < k, ((mem' r).p i).toNat = fuori i
  restanti : ∀ i, k ≤ i → (mem' r).p i = (mem r).p i

section Memory

variable {mem mem' : Memoria} {r : Variabile} {k : Nat} {fuori : Nat → Nat}

theorem Scritto.zero (mem : Memoria) (r : Variabile) (fuori : Nat → Nat) :
    Scritto mem r 0 fuori mem :=
  ⟨fun _ _ => rfl, rfl, fun i below => absurd below (Nat.not_lt_zero i), fun _ _ => rfl⟩

section

variable (stored : Scritto mem r k fuori mem')

include stored

theorem Scritto.p_eq (q : Variabile) : (mem' q).p k = (mem q).p k ∧ (mem' q).n = (mem q).n := by
  by_cases mine : q = r
  · rw [mine]
    exact ⟨stored.restanti k (Nat.le_refl k), stored.lunga⟩
  · rw [stored.altre q mine]
    exact ⟨rfl, rfl⟩

theorem Scritto.parola_eq (q : Variabile) : (mem' q).parola k = (mem q).parola k := by
  rw [ExBig.parola, ExBig.parola, (stored.p_eq q).1, (stored.p_eq q).2]

theorem Scritto.scrivi {v : UInt32}
    (isOut : v.toNat = fuori k) : Scritto mem r (k + 1) fuori (scrivi mem' r k v) := by
  have mine : Exbig.scrivi mem' r k v r = { mem' r with p := update (mem' r).p k v } :=
    update_self _ _ _
  have words := (Scritte.mk stored.scritte stored.restanti).scrivi isOut
  refine ⟨?_, ?_, ?_, ?_⟩
  · intro q other
    exact (update_of_ne other _ _).trans (stored.altre q other)
  · rw [mine]
    exact stored.lunga
  · rw [mine]
    exact words.sotto
  · rw [mine]
    exact words.sopra

theorem Scritto.chiudi (within : k ≤ exbigParole) :
    (∀ q, q ≠ r → chiudi mem' r k q = mem q) ∧ (chiudi mem' r k r).Ok ∧
      (chiudi mem' r k r).val = number (2 ^ 32) fuori k := by
  have mine : Exbig.chiudi mem' r k r = normalizza
      { n := k, p := fun i => if k ≤ i ∧ i < exbigParole then 0 else (mem' r).p i } :=
    update_self _ _ _
  refine ⟨?_, ?_, ?_⟩
  · intro q other
    exact (update_of_ne other _ _).trans (stored.altre q other)
  · rw [mine]
    exact normalizza_ok within fun i above below => if_pos ⟨above, below⟩
  · rw [mine, normalizza_val]
    apply number_congr
    intro i below
    rw [← stored.scritte i below]
    exact congrArg UInt32.toNat (if_neg fun both => Nat.not_lt_of_le both.1 below)

end

end Memory

def termine (a b : ExBig) (i : Nat) : Nat := (a.parola i).toNat + (b.parola i).toNat

theorem carry_termine_le (a b : ExBig) (k : Nat) : carry (2 ^ 32) (termine a b) 0 k ≤ 1 := by
  induction k with
  | zero => exact Nat.zero_le 1
  | succ k ih =>
    have aSmall := UInt32.toNat_lt (a.parola k)
    have bSmall := UInt32.toNat_lt (b.parola k)
    rw [carry, termine]
    omega

theorem sommaGiri_scritto (mem : Memoria) (r a b : Variabile) (k : Nat) : Scritto mem r k
        (fun i =>
          (termine (mem a) (mem b) i + carry (2 ^ 32) (termine (mem a) (mem b)) 0 i) % 2 ^ 32)
        (sommaGiri mem r a b k).1 ∧
      (sommaGiri mem r a b k).2.toNat = carry (2 ^ 32) (termine (mem a) (mem b)) 0 k := by
  induction k with
  | zero => exact ⟨Scritto.zero mem r _, rfl⟩
  | succ k ih =>
    obtain ⟨stored, isCarry⟩ := ih
    have small : (sommaGiri mem r a b k).2.toNat ≤ 1 := by
      rw [isCarry]
      exact carry_termine_le _ _ k
    have isSum := toNat_somma ((mem a).parola k) ((mem b).parola k) small
    rw [isCarry] at isSum
    rw [sommaGiri]
    rw [stored.parola_eq a, stored.parola_eq b]
    constructor
    · apply stored.scrivi
      rw [UInt64.toNat_toUInt32, isSum]
      rfl
    · rw [toNat_alta, isSum]
      rfl

theorem number_termine {a b : ExBig} {k : Nat} (aShort : a.n ≤ k) (bShort : b.n ≤ k) :
    number (2 ^ 32) (termine a b) k = a.val + b.val := by
  rw [← a.parola_eq aShort, ← b.parola_eq bShort]
  exact number_add _ _ _ k

/-- The sum of two numbers, wherever it is written: the carry that comes out is
the bit that has no word. -/
theorem somma_spec (aOk : (mem a).Ok) (bOk : (mem b).Ok) :
    (∀ q, q ≠ r → (somma mem r a b).1 q = mem q) ∧ ((somma mem r a b).1 r).Ok ∧
      ((somma mem r a b).1 r).val + (somma mem r a b).2.toNat * (2 ^ 32) ^ exbigParole =
        (mem a).val + (mem b).val := by
  have isMax : (if (mem b).n < (mem a).n then (mem a).n else (mem b).n) =
      max (mem a).n (mem b).n := by
    split <;> omega
  rw [somma, isMax]
  generalize isN : max (mem a).n (mem b).n = n
  have aShort : (mem a).n ≤ n := by omega
  have bShort : (mem b).n ≤ n := by omega
  have within : n ≤ exbigParole := by
    have aWithin := aOk.entro
    have bWithin := bOk.entro
    omega
  obtain ⟨stored, isCarry⟩ := sommaGiri_scritto mem r a b n
  have total := number_carry (2 ^ 32) (termine (mem a) (mem b)) 0 n
  have small := carry_termine_le (mem a) (mem b) n
  rw [number_termine aShort bShort, ← isCarry, Nat.add_zero] at total
  generalize sommaGiri mem r a b n = giri at stored isCarry total small ⊢
  have isLow : giri.2.toUInt32.toNat = giri.2.toNat := by
    rw [UInt64.toNat_toUInt32]
    omega
  split
  · next room =>
    -- The carry has a word of its own.
    have isTop : giri.2.toNat = 1 := by
      have nonzero : giri.2.toNat ≠ 0 := fun zero => room.1 (UInt64.toNat_inj.mp zero)
      omega
    generalize isOut : (fun i => if i < n then
      (termine (mem a) (mem b) i + carry (2 ^ 32) (termine (mem a) (mem b)) 0 i) % 2 ^ 32
      else 1) = out
    have longer : Scritto mem r n out giri.1 := by
      refine { stored with scritte := ?_ }
      intro i below
      rw [stored.scritte i below, ← isOut]
      exact (if_pos below).symm
    have complete := longer.scrivi (v := giri.2.toUInt32) (by
      rw [isLow, isTop, ← isOut]
      exact (if_neg (Nat.lt_irrefl n)).symm)
    obtain ⟨others, ok, isVal⟩ := complete.chiudi room.2
    refine ⟨others, ok, ?_⟩
    have lower : number (2 ^ 32) out n = number (2 ^ 32) (fun i =>
        (termine (mem a) (mem b) i + carry (2 ^ 32) (termine (mem a) (mem b)) 0 i) % 2 ^ 32) n := by
      apply number_congr
      intro i below
      rw [← isOut]
      exact if_pos below
    have top : out n = 1 := by
      rw [← isOut]
      exact if_neg (Nat.lt_irrefl n)
    rw [isVal, number, lower, top, ← total, isTop]
    show _ + 0 * _ = _
    rw [Nat.zero_mul, Nat.add_zero]
  · next room =>
    obtain ⟨others, ok, isVal⟩ := stored.chiudi within
    refine ⟨others, ok, ?_⟩
    rw [isVal, isLow, ← total]
    -- With a carry left over the number fills all the words.
    by_cases absent : giri.2 = 0
    · rw [absent]
      show _ + 0 * _ = _ + 0 * _
      rw [Nat.zero_mul, Nat.zero_mul]
    have full : n = exbigParole := by
      have notBelow : ¬n < exbigParole := fun below => room ⟨absent, below⟩
      omega
    rw [full]

theorem sommaIn_spec (xOk : x.Ok) (yOk : y.Ok) : (sommaIn x y).1.Ok ∧
      (sommaIn x y).1.val + (sommaIn x y).2.toNat * (2 ^ 32) ^ exbigParole = x.val + y.val := by
  have fst : (locali x y (.locale 1)).Ok := xOk
  have snd : (locali x y (.locale 2)).Ok := yOk
  exact (somma_spec (r := .locale 0) fst snd).2

theorem sottraiGiri_scritto (mem : Memoria) (r a b : Variabile) (k : Nat) : Scritto mem r k
        (remainder (2 ^ 32) (fun i => ((mem a).p i).toNat) fun i => ((mem b).parola i).toNat)
        (sottraiGiri mem r a b k).1 ∧ (sottraiGiri mem r a b k).2.toNat =
        borrow (fun i => ((mem a).p i).toNat) (fun i => ((mem b).parola i).toNat) k := by
  induction k with
  | zero => exact ⟨Scritto.zero mem r _, rfl⟩
  | succ k ih =>
    obtain ⟨stored, isBorrow⟩ := ih
    have small : (sottraiGiri mem r a b k).2.toNat ≤ 1 := by
      rw [isBorrow]
      exact borrow_le_one _ _ k
    obtain ⟨isLow, isHigh⟩ := toNat_differenza small
    rw [isBorrow] at isLow isHigh
    rw [sottraiGiri]
    rw [(stored.p_eq a).1, stored.parola_eq b]
    exact ⟨stored.scrivi isLow, isHigh⟩

/-- A difference of words: what it owes in the end is zero exactly when the first
number is not below the second. -/
theorem number_remainder {p q : Nat → UInt32} (below : valore q n ≤ valore p n) :
    number (2 ^ 32) (remainder (2 ^ 32) (fun i => (p i).toNat) fun i => (q i).toNat) n =
      valore p n - valore q n := by
  have words : ∀ i < n, (q i).toNat < 2 ^ 32 := fun i _ => UInt32.toNat_lt (q i)
  have total := number_borrow (fun i => (p i).toNat) words
  have small : number (2 ^ 32) (remainder (2 ^ 32) (fun i => (p i).toNat) fun i => (q i).toNat) n <
      (2 ^ 32) ^ n := by
    apply number_lt
    intro i _
    have pSmall := UInt32.toNat_lt (p i)
    rw [remainder]
    split <;> omega
  have atMost := borrow_le_one (fun i => (p i).toNat) (fun i => (q i).toNat) n
  have isP : number (2 ^ 32) (fun i => (p i).toNat) n = valore p n := rfl
  have isQ : number (2 ^ 32) (fun i => (q i).toNat) n = valore q n := rfl
  have choice : borrow (fun i => (p i).toNat) (fun i => (q i).toNat) n = 0 ∨
      borrow (fun i => (p i).toNat) (fun i => (q i).toNat) n = 1 := by omega
  rcases choice with zero | isOne
  · rw [zero] at total
    omega
  · rw [isOne] at total
    omega

theorem sottrai_spec (aOk : (mem a).Ok) (bOk : (mem b).Ok) (below : (mem b).val ≤ (mem a).val) :
    (∀ q, q ≠ r → sottrai mem r a b q = mem q) ∧ (sottrai mem r a b r).Ok ∧
      (sottrai mem r a b r).val = (mem a).val - (mem b).val := by
  obtain ⟨stored, _⟩ := sottraiGiri_scritto mem r a b (mem a).n
  obtain ⟨others, ok, isVal⟩ := stored.chiudi aOk.entro
  have isB : valore (mem b).parola (mem a).n = (mem b).val :=
    (mem b).parola_eq (bOk.n_le_of_le below)
  refine ⟨others, ok, isVal.trans ?_⟩
  rw [number_remainder, isB]
  · rfl
  · rw [isB]
    exact below

theorem sottraiIn_spec (xOk : x.Ok) (yOk : y.Ok) (below : y.val ≤ x.val) :
    (sottraiIn x y).Ok ∧ (sottraiIn x y).val = x.val - y.val := by
  have fst : (locali x y (.locale 1)).Ok := xOk
  have snd : (locali x y (.locale 2)).Ok := yOk
  exact (sottrai_spec (r := .locale 0) fst snd below).2

end ExOs.Exbig
