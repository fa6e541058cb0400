import ExOs.Exbig.Modexp

/-!
# The ring of a prepared modulus

`exbig_mod_mul`, `exbig_mod_add` and `exbig_mod_sub`.  Where twice the modulus
does not fit in the words a sum may lose its highest bit: `somma` returns it
and nobody looks.
-/

namespace ExOs.Exbig

open ExOs.Library Function

/-- A number reduced modulo `m`. -/
structure Residuo (m x : ExBig) : Prop where
  ok : x.Ok
  small : x.val < m.val

/-- `mem'` is `mem` with a reduced number of value `v` in the variable `r`. -/
structure Rende (m : ExBig) (mem : Memoria) (r v : Nat) (mem' : Memoria) : Prop where
  residuo : Residuo m (mem' (.di r))
  isVal : (mem' (.di r)).val = v
  others : ∀ q, q ≠ r → mem' (.di q) = mem (.di q)

/-- The three operations on reduced numbers, wherever the result goes. -/
structure Giuste (c : ExBigMod) : Prop where
  mul : ∀ (mem : Memoria) (r : Nat) {a b : Nat}, Residuo c.m (mem (.di a)) →
    Residuo c.m (mem (.di b)) →
      Rende c.m mem r ((mem (.di a)).val * (mem (.di b)).val % c.m.val)
        (exbigModMul mem (.di r) (.di a) (.di b) c)
  add : ∀ (mem : Memoria) (r : Nat) {a b : Nat}, Residuo c.m (mem (.di a)) →
    Residuo c.m (mem (.di b)) →
      Rende c.m mem r (((mem (.di a)).val + (mem (.di b)).val) % c.m.val)
        (exbigModAdd mem (.di r) (.di a) (.di b) c)
  sub : ∀ (mem : Memoria) (r : Nat) {a b : Nat}, Residuo c.m (mem (.di a)) →
    Residuo c.m (mem (.di b)) →
      Rende c.m mem r (((mem (.di a)).val + (c.m.val - (mem (.di b)).val)) % c.m.val)
        (exbigModSub mem (.di r) (.di a) (.di b) c)

/-! ## The laws -/

/-- Two numbers in two variables of the caller. -/
def coppia (x y : ExBig) : Memoria
  | .di 1 => x
  | .di 2 => y
  | _ => exbigZero

def ExBigMod.per (c : ExBigMod) (x y : ExBig) : ExBig :=
  exbigModMul (coppia x y) (.di 0) (.di 1) (.di 2) c (.di 0)

def ExBigMod.piu (c : ExBigMod) (x y : ExBig) : ExBig :=
  exbigModAdd (coppia x y) (.di 0) (.di 1) (.di 2) c (.di 0)

def ExBigMod.meno (c : ExBigMod) (x y : ExBig) : ExBig :=
  exbigModSub (coppia x y) (.di 0) (.di 1) (.di 2) c (.di 0)

/-- The laws of a commutative ring, on the numbers that the words stand for. -/
structure LeggiAnello (c : ExBigMod) : Prop where
  add_comm : ∀ {x y}, Residuo c.m x → Residuo c.m y → (c.piu x y).val = (c.piu y x).val
  add_assoc : ∀ {x y z}, Residuo c.m x → Residuo c.m y → Residuo c.m z →
    (c.piu (c.piu x y) z).val = (c.piu x (c.piu y z)).val
  add_zero : ∀ {x}, Residuo c.m x → (c.piu x exbigZero).val = x.val
  sub_add : ∀ {x y}, Residuo c.m x → Residuo c.m y → (c.piu (c.meno x y) y).val = x.val
  mul_comm : ∀ {x y}, Residuo c.m x → Residuo c.m y → (c.per x y).val = (c.per y x).val
  mul_assoc : ∀ {x y z}, Residuo c.m x → Residuo c.m y → Residuo c.m z →
    (c.per (c.per x y) z).val = (c.per x (c.per y z)).val
  mul_one : ∀ {x one}, Residuo c.m x → Residuo c.m one → one.val = 1 → (c.per x one).val = x.val
  mul_add : ∀ {x y z}, Residuo c.m x → Residuo c.m y → Residuo c.m z →
    (c.per x (c.piu y z)).val = (c.piu (c.per x y) (c.per x z)).val

section Laws

variable {c : ExBigMod} {x y z : ExBig}

section

variable (giuste : Giuste c) (xIn : Residuo c.m x) (yIn : Residuo c.m y)

include giuste xIn yIn

theorem Giuste.per : Residuo c.m (c.per x y) ∧ (c.per x y).val = x.val * y.val % c.m.val :=
  have res := giuste.mul (coppia x y) 0 (a := 1) (b := 2) xIn yIn
  ⟨res.residuo, res.isVal⟩

theorem Giuste.piu : Residuo c.m (c.piu x y) ∧ (c.piu x y).val = (x.val + y.val) % c.m.val :=
  have res := giuste.add (coppia x y) 0 (a := 1) (b := 2) xIn yIn
  ⟨res.residuo, res.isVal⟩

theorem Giuste.meno :
    Residuo c.m (c.meno x y) ∧ (c.meno x y).val = (x.val + (c.m.val - y.val)) % c.m.val :=
  have res := giuste.sub (coppia x y) 0 (a := 1) (b := 2) xIn yIn
  ⟨res.residuo, res.isVal⟩

end

theorem Giuste.leggi (giuste : Giuste c) : LeggiAnello c where
  add_comm xIn yIn := by rw [(giuste.piu xIn yIn).2, (giuste.piu yIn xIn).2, Nat.add_comm]
  add_assoc xIn yIn zIn := by
    rw [(giuste.piu (giuste.piu xIn yIn).1 zIn).2, (giuste.piu xIn yIn).2,
      (giuste.piu xIn (giuste.piu yIn zIn).1).2, (giuste.piu yIn zIn).2, Nat.mod_add_mod,
      Nat.add_mod_mod, Nat.add_assoc]
  add_zero xIn := by
    have zeroIn : Residuo c.m exbigZero :=
      ⟨exbigZero_ok, Nat.lt_of_le_of_lt (Nat.zero_le _) xIn.small⟩
    have zero : exbigZero.val = 0 := rfl
    rw [(giuste.piu xIn zeroIn).2, zero, Nat.add_zero, Nat.mod_eq_of_lt xIn.small]
  sub_add {x y} xIn yIn := by
    have back : x.val + (c.m.val - y.val) + y.val = x.val + c.m.val := by
      have below := yIn.small
      omega
    rw [(giuste.piu (giuste.meno xIn yIn).1 yIn).2, (giuste.meno xIn yIn).2, Nat.mod_add_mod, back,
      Nat.add_mod_right, Nat.mod_eq_of_lt xIn.small]
  mul_comm xIn yIn := by rw [(giuste.per xIn yIn).2, (giuste.per yIn xIn).2, Nat.mul_comm]
  mul_assoc xIn yIn zIn := by
    rw [(giuste.per (giuste.per xIn yIn).1 zIn).2, (giuste.per xIn yIn).2,
      (giuste.per xIn (giuste.per yIn zIn).1).2, (giuste.per yIn zIn).2, Nat.mod_mul_mod,
      Nat.mul_mod_mod, Nat.mul_assoc]
  mul_one xIn oneIn isOne := by
    rw [(giuste.per xIn oneIn).2, isOne, Nat.mul_one, Nat.mod_eq_of_lt xIn.small]
  mul_add xIn yIn zIn := by
    rw [(giuste.per xIn (giuste.piu yIn zIn).1).2, (giuste.piu yIn zIn).2,
      (giuste.piu (giuste.per xIn yIn).1 (giuste.per xIn zIn).1).2, (giuste.per xIn yIn).2,
      (giuste.per xIn zIn).2, Nat.mul_mod_mod, Nat.mul_add, ← Nat.add_mod]

end Laws

section Operations

variable {m : ExBig} {c : ExBigMod} {mem : Memoria} {a b : Nat}

theorem exbigModPrepara_odd (mOk : m.Ok) (odd : m.val % 2 = 1) : exbigModPrepara m =
      some { m := m, rr := erreQuadro m m.n, n := m.n, n0 := n0Inverso (m.p 0) } := by
  obtain ⟨ne, oddWord⟩ := odd_word.mp odd
  rw [exbigModPrepara, if_neg (not_or.mpr ⟨ne, oddWord⟩), if_neg (Nat.not_lt.mpr mOk.entro)]

theorem exbigModAdd_spec (mem : Memoria) (mOk : m.Ok) (isM : c.m = m) (r : Nat)
    (aIn : Residuo m (mem (.di a))) (bIn : Residuo m (mem (.di b))) :
    Rende m mem r (if (mem (.di a)).val + (mem (.di b)).val < tetto then
        ((mem (.di a)).val + (mem (.di b)).val) % m.val
      else (mem (.di a)).val + (mem (.di b)).val - tetto)
      (exbigModAdd mem (.di r) (.di a) (.di b) c) := by
  obtain ⟨others, ok, total⟩ := somma_spec (r := .di r) aIn.ok bIn.ok
  have aSmall := aIn.small
  have bSmall := bIn.small
  have mSmall : m.val < tetto := mOk.val_lt
  have rSmall : ((somma mem (.di r) (.di a) (.di b)).1 (.di r)).val < tetto := ok.val_lt
  rw [exbigModAdd, isM]
  change _ + _ * tetto = _ at total
  generalize somma mem (.di r) (.di a) (.di b) = s at others ok total rSmall ⊢
  -- The value left in the variable, and the carry that nobody looks at.
  have isSum : (s.1 (.di r)).val =
      if (mem (.di a)).val + (mem (.di b)).val < tetto then (mem (.di a)).val + (mem (.di b)).val
      else (mem (.di a)).val + (mem (.di b)).val - tetto := by
    have carried := carry_cases total (by omega)
    split <;> omega
  have kept : ∀ q, q ≠ r → s.1 (.di q) = mem (.di q) :=
    fun q other => others (.di q) fun same => other (Variabile.di.inj same)
  by_cases reached : 0 ≤ exbigCmp (s.1 (.di r)) m
  · have above := (exbigCmp_iff ok mOk).mp reached
    obtain ⟨takenOk, isTaken⟩ := sottraiIn_spec ok mOk above
    rw [if_pos reached]
    have fits : (mem (.di a)).val + (mem (.di b)).val < tetto := by
      by_contra large
      rw [if_neg large] at isSum
      omega
    rw [if_pos fits] at isSum ⊢
    have isMod : ((mem (.di a)).val + (mem (.di b)).val) % m.val =
        (mem (.di a)).val + (mem (.di b)).val - m.val := by
      rw [Nat.mod_eq_sub_mod (by omega), Nat.mod_eq_of_lt (by omega)]
    refine ⟨?_, ?_, fun q other => ?_⟩
    · rw [update_self]
      exact ⟨takenOk, by omega⟩
    · rw [update_self, isTaken, isSum, isMod]
    · rw [update_of_ne fun same => other (Variabile.di.inj same)]
      exact kept q other
  · have below : ¬m.val ≤ (s.1 (.di r)).val := fun above =>
      reached ((exbigCmp_iff ok mOk).mpr above)
    rw [if_neg reached]
    refine ⟨⟨ok, Nat.lt_of_not_le below⟩, ?_, kept⟩
    rw [isSum] at below ⊢
    by_cases fits : (mem (.di a)).val + (mem (.di b)).val < tetto
    · rw [if_pos fits] at below
      rw [if_pos fits, if_pos fits, Nat.mod_eq_of_lt (Nat.lt_of_not_le below)]
    · rw [if_neg fits, if_neg fits]

theorem exbigModSub_rende (mOk : m.Ok) (isM : c.m = m) (half : 2 * m.val ≤ tetto) {r : Nat}
    (aIn : Residuo m (mem (.di a))) (bIn : Residuo m (mem (.di b))) :
    Rende m mem r (((mem (.di a)).val + (m.val - (mem (.di b)).val)) % m.val)
      (exbigModSub mem (.di r) (.di a) (.di b) c) := by
  have aSmall := aIn.small
  have bSmall := bIn.small
  -- The last `normalizza` changes nothing in what `sottrai` has left.
  suffices written : ∃ mem', exbigModSub mem (.di r) (.di a) (.di b) c =
      update mem' (.di r) (normalizza (mem' (.di r))) ∧
      Rende m mem r (((mem (.di a)).val + (m.val - (mem (.di b)).val)) % m.val) mem' by
    obtain ⟨mem', isEnd, res⟩ := written
    rw [isEnd]
    have isVal := normalizza_val.trans res.isVal
    refine ⟨?_, ?_, fun q other => ?_⟩
    · rw [update_self]
      refine ⟨normalizza_ok res.residuo.ok.entro res.residuo.ok.zeri, ?_⟩
      rw [normalizza_val]
      exact res.residuo.small
    · rw [update_self]
      exact isVal
    · rw [update_of_ne fun same => other (Variabile.di.inj same)]
      exact res.others q other
  by_cases reached : 0 ≤ exbigCmp (mem (.di a)) (mem (.di b))
  · have above := (exbigCmp_iff aIn.ok bIn.ok).mp reached
    obtain ⟨others, ok, isVal⟩ := sottrai_spec (r := .di r) aIn.ok bIn.ok above
    refine ⟨sottrai mem (.di r) (.di a) (.di b), ?_, ⟨ok, by omega⟩, ?_, ?_⟩
    · rw [exbigModSub, if_pos reached]
    · have back : (mem (.di a)).val + (m.val - (mem (.di b)).val) =
          (mem (.di a)).val - (mem (.di b)).val + m.val := by omega
      rw [isVal, back, Nat.add_mod_right, Nat.mod_eq_of_lt (by omega)]
    · exact fun q other => others (.di q) fun same => other (Variabile.di.inj same)
  · have below : ¬(mem (.di b)).val ≤ (mem (.di a)).val :=
      fun above => reached ((exbigCmp_iff aIn.ok bIn.ok).mpr above)
    obtain ⟨tOk, total⟩ := sommaIn_spec aIn.ok mOk
    change _ + _ * tetto = _ at total
    obtain ⟨_, total⟩ := (carry_cases total (by omega)).resolve_right (by omega)
    obtain ⟨mem', isMem⟩ :
        ∃ mem', mem' = update mem (.locale 0) (sommaIn (mem (.di a)) m).1 := ⟨_, rfl⟩
    have tIs : mem' (.locale 0) = (sommaIn (mem (.di a)) m).1 := by
      rw [isMem]
      exact update_self _ _ _
    have keeps : ∀ q, mem' (.di q) = mem (.di q) := by
      intro q
      have distinct : Variabile.di q ≠ .locale 0 := nofun
      rw [isMem]
      exact update_of_ne distinct _ _
    rw [← tIs] at tOk total
    have bOk := bIn.ok
    rw [← keeps] at bOk
    obtain ⟨others, ok, isVal⟩ := sottrai_spec (r := .di r) tOk bOk (by
      rw [keeps]
      omega)
    rw [keeps, total] at isVal
    refine ⟨sottrai mem' (.di r) (.locale 0) (.di b), ?_, ⟨ok, by omega⟩, ?_, ?_⟩
    · rw [exbigModSub, if_neg reached, isM, ← isMem]
    · have split : (mem (.di a)).val + (m.val - (mem (.di b)).val) =
          (mem (.di a)).val + m.val - (mem (.di b)).val := by omega
      rw [isVal, split, Nat.mod_eq_of_lt (by omega)]
    · intro q other
      exact (others (.di q) fun same => other (Variabile.di.inj same)).trans (keeps q)

section

variable (prepared : exbigModPrepara m = some c)

include prepared

theorem exbigModPrepara_some (mOk : m.Ok) :
    c = { m := m, rr := erreQuadro m m.n, n := m.n, n0 := n0Inverso (m.p 0) } ∧ m.val % 2 = 1 := by
  rw [exbigModPrepara] at prepared
  split at prepared
  · cases prepared
  rename_i refused
  rw [if_neg (Nat.not_lt.mpr mOk.entro)] at prepared
  refine ⟨(Option.some.inj prepared).symm, ?_⟩
  obtain ⟨ne, odd⟩ := not_or.mp refused
  obtain ⟨k, isTop⟩ := Nat.exists_eq_succ_of_ne_zero ne
  have word : m.val % 2 ^ 32 = (m.p 0).toNat % 2 ^ 32 := by
    rw [ExBig.val, isTop]
    exact valore_modEq
  obtain ⟨half, isOdd⟩ := odd_eq odd
  have one : (1 : UInt32).toNat = 1 := rfl
  have two : (2 : UInt32).toNat = 2 := rfl
  have isWord : (m.p 0).toNat = (2 * half.toNat % 2 ^ 32 + 1) % 2 ^ 32 := by
    rw [isOdd, UInt32.toNat_add, UInt32.toNat_mul, one, two]
  omega

theorem exbigModPrepara_m (mOk : m.Ok) : c.m = m := by
  rw [(exbigModPrepara_some prepared mOk).1]

theorem exbigModMul_rende (mOk : m.Ok) {r : Nat}
    (aIn : Residuo m (mem (.di a))) (bIn : Residuo m (mem (.di b))) :
    Rende m mem r ((mem (.di a)).val * (mem (.di b)).val % m.val)
      (exbigModMul mem (.di r) (.di a) (.di b) c) := by
  obtain ⟨isC, odd⟩ := exbigModPrepara_some prepared mOk
  have modulo := Modulo.ofOdd mOk odd
  have coprime := coprime_power odd
  obtain ⟨rrOk, rrSmall, isSquare⟩ := erreQuadro_spec modulo
  have aShort := aIn.ok.n_le_of_le (Nat.le_of_lt aIn.small)
  obtain ⟨tOk, tSmall, fst⟩ := montMul_spec modulo aIn.ok aShort bIn.ok (Nat.le_of_lt bIn.small)
  have tShort := tOk.n_le_of_le (Nat.le_of_lt tSmall)
  obtain ⟨ok, small, snd⟩ := montMul_spec modulo tOk tShort rrOk rrSmall
  have reduced := (montgomery_in coprime snd isSquare).trans fst
  rw [isC, exbigModMul]
  refine ⟨?_, ?_, fun q other => update_of_ne (fun same => other (Variabile.di.inj same)) _ _⟩
  · rw [update_self]
    exact ⟨ok, small⟩
  · rw [update_self]
    exact (Nat.mod_eq_of_lt small).symm.trans reduced

theorem giuste_of_half (mOk : m.Ok) (half : 2 * m.val ≤ tetto) : Giuste c := by
  have isM := exbigModPrepara_m prepared mOk
  constructor
  · intro mem r a b aIn bIn
    rw [isM] at aIn bIn ⊢
    exact exbigModMul_rende prepared mOk aIn bIn
  · intro mem r a b aIn bIn
    rw [isM] at aIn bIn ⊢
    have res := exbigModAdd_spec mem mOk isM r aIn bIn
    have aSmall := aIn.small
    have bSmall := bIn.small
    rw [if_pos (by omega)] at res
    exact res
  · intro mem r a b aIn bIn
    rw [isM] at aIn bIn ⊢
    exact exbigModSub_rende mOk isM half aIn bIn

end

end Operations

theorem tetto_even : tetto % 2 = 0 := by
  have factor : tetto = 2 * (2 ^ 31 * (2 ^ 32) ^ 127) := by
    rw [tetto, exbigParole]
    ring
  rw [factor]
  exact Nat.mul_mod_right 2 _

section Overflow

variable {m : ExBig} {c : ExBigMod}

/-- The sum is the residue unless it needs one word more: the bit that is lost was worth more
than the modulus. -/
theorem exbigModAdd_iff {mem : Memoria} {r a b : Nat} (mOk : m.Ok) (isM : c.m = m)
    (aIn : Residuo m (mem (.di a))) (bIn : Residuo m (mem (.di b))) :
    Rende m mem r (((mem (.di a)).val + (mem (.di b)).val) % m.val)
      (exbigModAdd mem (.di r) (.di a) (.di b) c) ↔
      (mem (.di a)).val + (mem (.di b)).val < tetto := by
  have res := exbigModAdd_spec mem mOk isM r aIn bIn
  have mSmall : m.val < tetto := mOk.val_lt
  have aSmall := aIn.small
  have bSmall := bIn.small
  constructor
  · intro right
    by_contra large
    have lost := right.isVal.symm.trans res.isVal
    rw [if_neg large, Nat.mod_eq_sub_mod (by omega), Nat.mod_eq_of_lt (by omega)] at lost
    omega
  · intro fits
    rwa [if_pos fits] at res

theorem piu_oltre {x y : ExBig} (mOk : m.Ok) (isM : c.m = m) (xIn : Residuo m x)
    (yIn : Residuo m y) (large : tetto ≤ x.val + y.val) :
    (c.piu x y).val = x.val + y.val - tetto :=
  (exbigModAdd_spec (coppia x y) (a := 1) (b := 2) mOk isM 0 xIn yIn).isVal.trans
    (if_neg (Nat.not_lt_of_le large))

/-- The operations are those of the ring of the integers modulo `m`, aliased or not, exactly when
twice the modulus fits in the words; the product always is, and a sum when it fits. -/
theorem operazioni_iff (prepared : exbigModPrepara m = some c) (mOk : m.Ok) :
    ((Giuste c ∧ LeggiAnello c) ↔ 2 * m.val ≤ tetto) ∧
    ∀ mem r a b, Residuo m (mem (.di a)) → Residuo m (mem (.di b)) →
      Rende m mem r ((mem (.di a)).val * (mem (.di b)).val % m.val)
        (exbigModMul mem (.di r) (.di a) (.di b) c) ∧
      (Rende m mem r (((mem (.di a)).val + (mem (.di b)).val) % m.val)
        (exbigModAdd mem (.di r) (.di a) (.di b) c) ↔
        (mem (.di a)).val + (mem (.di b)).val < tetto) := by
  have isM := exbigModPrepara_m prepared mOk
  refine ⟨⟨?_, fun half => ?_⟩, fun mem r a b aIn bIn =>
    ⟨exbigModMul_rende prepared mOk aIn bIn, exbigModAdd_iff mOk isM aIn bIn⟩⟩
  · rintro ⟨giuste, _⟩
    -- The highest residue added to itself: its double is even, and so is the limit.
    obtain ⟨_, odd⟩ := exbigModPrepara_some prepared mOk
    have mSmall : m.val < tetto := mOk.val_lt
    have even := tetto_even
    obtain ⟨aOk, isA⟩ := daNumero_spec (v := m.val - 1) (by omega)
    have aIn : Residuo m (daNumero (m.val - 1)) := ⟨aOk, by omega⟩
    have right := giuste.add (coppia (daNumero (m.val - 1)) (daNumero (m.val - 1))) 0
      (a := 1) (b := 2) (by rwa [isM]) (by rwa [isM])
    rw [isM, exbigModAdd_iff mOk isM aIn aIn] at right
    have twice : (daNumero (m.val - 1)).val + (daNumero (m.val - 1)).val < tetto := right
    omega
  · have giuste := giuste_of_half prepared mOk half
    exact ⟨giuste, giuste.leggi⟩

end Overflow

/-- The largest modulus for which they are. -/
theorem operazioni_mezzo : ∃ c, exbigModPrepara (daNumero (tetto / 2 - 1)) = some c ∧
    Giuste c ∧ LeggiAnello c := by
  have large : 4 ∣ tetto := Dvd.intro (2 ^ 30 * (2 ^ 32) ^ 127) (by rw [tetto, exbigParole]; ring)
  have positive : 0 < tetto := Nat.pow_pos (Nat.two_pow_pos 32)
  obtain ⟨mOk, isM⟩ := daNumero_spec (v := tetto / 2 - 1) (by omega)
  have prepared := exbigModPrepara_odd mOk (by omega)
  exact ⟨_, prepared, (operazioni_iff prepared mOk).1.mpr (by omega)⟩

/-- The largest modulus: `m - 1` twice gives `m - 3`, not `m - 2`. -/
theorem somma_perduta : ∃ c, exbigModPrepara (daNumero (tetto - 1)) = some c ∧
    Residuo c.m (daNumero (tetto - 2)) ∧
    (c.piu (daNumero (tetto - 2)) (daNumero (tetto - 2))).val = tetto - 4 ∧
    (2 * (tetto - 2)) % c.m.val = tetto - 3 := by
  have large : (2 ^ 32) ^ 1 ≤ tetto := Nat.pow_le_pow_right (Nat.two_pow_pos 32) (by decide)
  have even := tetto_even
  obtain ⟨mOk, isM⟩ := daNumero_spec (v := tetto - 1) (by omega)
  obtain ⟨aOk, isA⟩ := daNumero_spec (v := tetto - 2) (by omega)
  have prepared := exbigModPrepara_odd mOk (by omega)
  have isC := exbigModPrepara_m prepared mOk
  have aIn : Residuo (daNumero (tetto - 1)) (daNumero (tetto - 2)) := ⟨aOk, by omega⟩
  refine ⟨_, prepared, by rwa [isC], ?_, ?_⟩
  · rw [piu_oltre mOk isC aIn aIn (by omega)]
    omega
  · rw [isC, Nat.mod_eq_sub_mod (by omega), Nat.mod_eq_of_lt (by omega)]
    omega

end ExOs.Exbig
