import ExOs.Exbig.Byte
import Mathlib.Data.List.TakeWhile
import Mathlib.Data.Nat.Size

/-!
# RSA-PSS

`lib/extls/extls_pss.c` against the verification of RFC 8017.  The envelope is
checked as the RFC says; how many bytes the signature had is not looked at.
-/

namespace ExOs.Extls

open ExOs.Exbig ExOs.Library List

def hlen : Nat := 32

abbrev Impronta := { h : List UInt8 // h.length = hlen }

section Code

variable (sha256 : List UInt8 → Impronta)

def contatoreByte (contatore : UInt32) : List UInt8 :=
  [(contatore >>> 24).toUInt8, (contatore >>> 16).toUInt8, (contatore >>> 8).toUInt8,
    contatore.toUInt8]

def mgf1Giri (seme : List UInt8) (outN : Nat) : Nat → Nat → UInt32 → List UInt8
  | 0, _, _ => []
  | giri + 1, fatti, contatore =>
    if outN ≤ fatti then []
    else
      let imp := sha256 (seme ++ contatoreByte contatore)
      let quanti := if hlen < outN - fatti then hlen else outN - fatti
      imp.val.take quanti ++ mgf1Giri seme outN giri (fatti + quanti) (contatore + 1)

def mgf1 (seme : List UInt8) (outN : Nat) : List UInt8 := mgf1Giri sha256 seme outN outN 0 0

def pssBusta (emBit : Nat) (impronta : Impronta) (saleAtteso : Int) (em : List UInt8) : Bool :=
  let emLen := em.length
  if em.getD (emLen - 1) 0 ≠ 0xBC then false
  else
    let dbLen := emLen - hlen - 1
    let avanzo := 8 * emLen - emBit
    if (0 < avanzo ∧ avanzo < 8 ∧ em.getD 0 0 >>> UInt8.ofNat (8 - avanzo) ≠ 0) ∨
        avanzo = 8 ∧ em.getD 0 0 ≠ 0 then false
    else
      let h := (em.drop dbLen).take hlen
      let db := (em.take dbLen).zipWith (· ^^^ ·) (mgf1 sha256 h dbLen)
      let db :=
        if 8 ≤ avanzo then db.modifyHead fun _ => 0
        else if 0 < avanzo then db.modifyHead (· &&& 0xFF >>> UInt8.ofNat avanzo)
        else db
      match db.dropWhile (· = 0) with
      | uno :: sale =>
        if uno ≠ 1 then false
        else if 0 ≤ saleAtteso ∧ (sale.length : Int) ≠ saleAtteso then false
        else ((sha256 (replicate 8 0 ++ impronta.val ++ sale)).val.zipWith (· ^^^ ·) h).foldl
          (· ||| ·) 0 = 0
      | [] => false

def extlsRsaPssVerifica (modulo esponente : List UInt8)
    (impronta : Impronta) (firma : List UInt8) (saleAtteso : Int) : Bool :=
  match exbigDaByte modulo, exbigDaByte esponente, exbigDaByte firma with
  | some n, some e, some s =>
    let emBit := exbigBit n - 1
    let emLen := (emBit + 7) / 8
    if emLen < hlen + 2 ∨ exbigParole * 4 < emLen then false
    else
      match (exbigModexp s e n).bind fun r => exbigAByte r emLen with
      | none => false
      | some em => pssBusta sha256 emBit impronta saleAtteso em
  | _, _, _ => false

def i2osp4 (x : Nat) : List UInt8 := (range 4).map fun i => UInt8.ofNat (x / 256 ^ (3 - i))

def mgf1Rfc (seme : List UInt8) (maskLen : Nat) : List UInt8 :=
  ((range ((maskLen + hlen - 1) / hlen)).flatMap fun contatore =>
    (sha256 (seme ++ i2osp4 contatore)).val).take maskLen

/-- EMSA-PSS-VERIFY finds the envelope consistent. -/
def EmsaPss (emBits sLen : Nat) (mHash : Impronta) (em : List UInt8) : Prop :=
  let dbLen := em.length - hlen - 1
  let h := (em.drop dbLen).take hlen
  let alti := 8 * em.length - emBits
  hlen + sLen + 2 ≤ em.length ∧ em.getLast? = some 0xBC ∧
    (∀ b ∈ (em.take dbLen).head?, b.toNat < 2 ^ (8 - alti)) ∧
    ∃ sale, sale.length = sLen ∧
      ((em.take dbLen).zipWith (· ^^^ ·) (mgf1Rfc sha256 h dbLen)).modifyHead
          (fun b => UInt8.ofNat (b.toNat % 2 ^ (8 - alti))) =
        replicate (em.length - hlen - sLen - 2) 0 ++ 1 :: sale ∧
      h = (sha256 (replicate 8 0 ++ mHash.val ++ sale)).val

/-- The number of the signature is below the modulus, and its power is a consistent envelope. -/
def Consistente (n e : Nat) (mHash : Impronta) (firma : List UInt8) (saleAtteso : Int) : Prop :=
  bigEndian firma < n ∧
    ∃ em, em.length = (n.size - 1 + 7) / 8 ∧ bigEndian em = bigEndian firma ^ e % n ∧
      ∃ sLen : Nat, (0 ≤ saleAtteso → (sLen : Int) = saleAtteso) ∧
        EmsaPss sha256 (n.size - 1) sLen mHash em

def RsassaPss (n e : Nat) (mHash : Impronta) (firma : List UInt8) (saleAtteso : Int) : Prop :=
  firma.length = (n.size + 7) / 8 ∧ Consistente sha256 n e mHash firma saleAtteso

end Code

section Mask

variable {sha256 : List UInt8 → Impronta} {seme : List UInt8} {outN : Nat}

theorem contatoreByte_eq {c : Nat} (small : c < 2 ^ 32) :
    contatoreByte (UInt32.ofNat c) = i2osp4 c := by
  have isC : (UInt32.ofNat c).toNat = c := UInt32.toNat_ofNat_of_lt' small
  have byte : ∀ w : UInt32, w.toUInt8 = UInt8.ofNat w.toNat := fun w => by
    apply UInt8.toNat_inj.mp
    rw [UInt32.toNat_toUInt8, UInt8.toNat_ofNat']
  have shifted : ∀ k : UInt32, (UInt32.ofNat c >>> k).toNat = c / 2 ^ (k.toNat % 32) := fun k => by
    rw [UInt32.toNat_shiftRight, isC, Nat.shiftRight_eq_div_pow]
  rw [contatoreByte, byte, byte, byte, byte, shifted, shifted, shifted, isC]
  simp [i2osp4, range_succ]

theorem mgf1Giri_eq {giri : Nat} {c : Nat} (enough : outN ≤ hlen * c + giri)
    (small : c + giri < 2 ^ 32) :
    mgf1Giri sha256 seme outN giri (hlen * c) (UInt32.ofNat c) =
      ((range' c ((outN - hlen * c + hlen - 1) / hlen)).flatMap fun i =>
        (sha256 (seme ++ i2osp4 i)).val).take (outN - hlen * c) := by
  induction giri generalizing c with
  | zero =>
    have nothing : outN - hlen * c = 0 := by omega
    rw [nothing, take_zero, mgf1Giri]
  | succ giri ih =>
    rw [mgf1Giri]
    split
    · have nothing : outN - hlen * c = 0 := by omega
      rw [nothing, take_zero]
    have rounds : (outN - hlen * c + hlen - 1) / hlen =
        (outN - hlen * (c + 1) + hlen - 1) / hlen + 1 := by
      unfold hlen at *
      omega
    rw [rounds, range'_succ, flatMap_cons, take_append,
      (sha256 (seme ++ i2osp4 c)).property, contatoreByte_eq (by omega)]
    dsimp only
    split
    · next more =>
      have following := ih (c := c + 1) (by unfold hlen at *; omega) (by omega)
      rw [take_of_length_le (Nat.le_of_eq (sha256 _).property), take_of_length_le]
      · congr 1
        rw [UInt32.ofNat_add] at following
        exact following
      · rw [(sha256 _).property]
        exact Nat.le_of_lt more
    · have last : mgf1Giri sha256 seme outN giri (hlen * c + (outN - hlen * c))
        (UInt32.ofNat c + 1) = [] := by
        cases giri with
        | zero => rfl
        | succ giri => rw [mgf1Giri, if_pos (by omega)]
      have nothing : outN - hlen * c - hlen = 0 := by omega
      rw [last, nothing, take_zero]

theorem mgf1_eq (sha256 : List UInt8 → Impronta) (short : outN < 2 ^ 32) :
    mgf1 sha256 seme outN = mgf1Rfc sha256 seme outN := by
  have whole : mgf1Giri sha256 seme outN outN (hlen * 0) (UInt32.ofNat 0) = _ :=
    mgf1Giri_eq (by omega) (by omega)
  rw [mgf1Rfc, range_eq_range']
  exact whole

theorem length_mgf1Rfc (sha256 : List UInt8 → Impronta) {maskLen : Nat} :
    (mgf1Rfc sha256 seme maskLen).length = maskLen := by
  have each : ∀ n, ((range n).map fun c => (sha256 (seme ++ i2osp4 c)).val.length).sum =
    n * hlen := by
    intro n
    simp only [(sha256 _).property, map_const', length_range, sum_replicate_nat]
  rw [mgf1Rfc, length_take, length_flatMap, each]
  unfold hlen
  omega

end Mask

theorem maschera_eq {avanzo : Nat} (few : avanzo < 8) (b : UInt8) :
    b &&& 0xFF >>> UInt8.ofNat avanzo = UInt8.ofNat (b.toNat % 2 ^ (8 - avanzo)) := by
  have ones : ∀ a < 8, ((0xFF : UInt8) >>> UInt8.ofNat a).toNat = 2 ^ (8 - a) - 1 := by decide
  apply UInt8.toNat_inj.mp
  rw [UInt8.toNat_and, ones avanzo few, Nat.and_two_pow_sub_one_eq_mod, UInt8.toNat_ofNat_of_lt']
  exact Nat.lt_of_le_of_lt (Nat.mod_le ..) b.toNat_lt

theorem cima_iff {b : UInt8} {k : Nat} (few : k < 8) :
    b >>> UInt8.ofNat k = 0 ↔ b.toNat < 2 ^ k := by
  have amount : (UInt8.ofNat k).toNat % 8 = k := by
    rw [UInt8.toNat_ofNat']
    omega
  rw [← UInt8.toNat_inj, UInt8.toNat_shiftRight, amount, Nat.shiftRight_eq_div_pow]
  exact Nat.div_eq_zero_iff_lt (Nat.two_pow_pos k)

theorem dropWhile_zero_iff {db sale : List UInt8} :
    db.dropWhile (· = 0) = 1 :: sale ↔ ∃ k, db = replicate k 0 ++ 1 :: sale := by
  constructor
  · intro isDrop
    refine ⟨(db.takeWhile (· = 0)).length, ?_⟩
    nth_rewrite 1 [← takeWhile_append_dropWhile (p := (· = 0)) (l := db)]
    congr 1
    refine eq_replicate_iff.mpr ⟨rfl, fun b mem => ?_⟩
    have isZero := mem_takeWhile_imp mem
    exact of_decide_eq_true isZero
  · rintro ⟨k, isDb⟩
    rw [isDb]
    clear isDb
    induction k with
    | zero => rfl
    | succ k ih => exact ih

section Envelope

variable {sha256 : List UInt8 → Impronta} {emBit : Nat} {impronta : Impronta} {saleAtteso : Int}
  {em : List UInt8}

theorem pssBusta_iff (long : hlen + 2 ≤ em.length) (short : em.length < 2 ^ 32)
    (few : 8 * em.length - emBit < 8) :
    pssBusta sha256 emBit impronta saleAtteso em = true ↔ ∃ sLen : Nat,
      (0 ≤ saleAtteso → (sLen : Int) = saleAtteso) ∧ EmsaPss sha256 emBit sLen impronta em := by
  obtain ⟨fst, rest, isEm⟩ : ∃ fst rest, em = fst :: rest := exists_cons_of_length_pos (by omega)
  have isFirst : em.getD 0 0 = fst := by rw [isEm, getD_cons_zero]
  have isLast : em.getLast? = some (em.getD (em.length - 1) 0) := by
    rw [getLast?_eq_getElem?, getD_eq_getElem?_getD, getElem?_eq_getElem (by omega),
      Option.getD_some]
  have isHead : (em.take (em.length - hlen - 1)).head? = some fst := by
    rw [head?_take, if_neg (by omega), isEm, head?_cons]
  simp only [pssBusta, EmsaPss, isFirst, isLast, isHead, Option.some.injEq, Option.mem_def,
    forall_eq']
  generalize 8 * em.length - emBit = avanzo at few ⊢
  have isDb : ∀ db : List UInt8, (if 8 ≤ avanzo then db.modifyHead fun _ => 0
      else if 0 < avanzo then db.modifyHead (· &&& 0xFF >>> UInt8.ofNat avanzo) else db) =
      db.modifyHead fun b => UInt8.ofNat (b.toNat % 2 ^ (8 - avanzo)) := by
    intro db
    rw [if_neg (Nat.not_le_of_lt few)]
    split
    · rw [funext (maschera_eq few)]
    rename_i given
    rw [Nat.eq_zero_of_not_pos given]
    cases db with
    | nil => rfl
    | cons b db =>
      rw [modifyHead_cons, Nat.mod_eq_of_lt b.toNat_lt, UInt8.ofNat_toNat]
  have top : ((0 < avanzo ∧ avanzo < 8 ∧ fst >>> UInt8.ofNat (8 - avanzo) ≠ 0) ∨
      avanzo = 8 ∧ fst ≠ 0) ↔ ¬fst.toNat < 2 ^ (8 - avanzo) := by
    rcases Nat.eq_zero_or_pos avanzo with zero | given
    · have byte := fst.toNat_lt
      rw [zero]
      simp [byte]
    · rw [ne_eq, cima_iff (by omega)]
      simp [given, few, Nat.ne_of_lt few]
  simp only [isDb, top,
    mgf1_eq sha256 (Nat.lt_of_le_of_lt (Nat.sub_le ..) (Nat.lt_of_le_of_lt (Nat.sub_le ..) short))]
  generalize isH : (em.drop (em.length - hlen - 1)).take hlen = h
  have hLength : h.length = hlen := by
    rw [← isH, length_take, length_drop]
    omega
  have measure : (((em.take (em.length - hlen - 1)).zipWith (· ^^^ ·)
      (mgf1Rfc sha256 h (em.length - hlen - 1))).modifyHead
      fun b => UInt8.ofNat (b.toNat % 2 ^ (8 - avanzo))).length = em.length - hlen - 1 := by
    rw [length_modifyHead, length_zipWith, length_mgf1Rfc, length_take]
    omega
  by_cases closed : em.getD (em.length - 1) 0 = 0xBC
  · by_cases low : fst.toNat < 2 ^ (8 - avanzo)
    · rw [if_neg (not_not_intro closed), if_neg (not_not_intro low)]
      constructor
      · intro accepted
        split at accepted
        · next uno sale isDrop =>
          split at accepted
          · cases accepted
          rename_i isUno
          rw [not_not.mp isUno] at isDrop
          obtain ⟨k, isK⟩ := dropWhile_zero_iff.mp isDrop
          rw [isK, length_append, length_replicate, length_cons] at measure
          split at accepted
          · cases accepted
          rename_i asked
          have same := (foldl_or_xor_iff ((sha256 _).property.trans hLength.symm)).mp
            (of_decide_eq_true accepted)
          refine ⟨sale.length, ?_, by omega, closed, low, sale, rfl, ?_, same.2.symm⟩
          · intro given
            by_contra differ
            exact asked ⟨given, differ⟩
          · have isCount : em.length - hlen - sale.length - 2 = k := by omega
            rw [isCount]
            exact isK
        · cases accepted
      · rintro ⟨sLen, asked, _, _, _, sale, isLength, isDb', isHash⟩
        rw [dropWhile_zero_iff.mpr ⟨_, isDb'⟩]
        dsimp only
        rw [if_neg (not_not_intro rfl), if_neg]
        · exact decide_eq_true ((foldl_or_xor_iff ((sha256 _).property.trans hLength.symm)).mpr
            ⟨rfl, isHash.symm⟩)
        · rintro ⟨given, differ⟩
          exact differ (isLength ▸ asked given)
    · rw [if_neg (not_not_intro closed), if_pos low]
      refine iff_of_false (by decide) ?_
      rintro ⟨_, _, _, _, wrong, _⟩
      exact low wrong
  · rw [if_pos closed]
    refine iff_of_false (by decide) ?_
    rintro ⟨_, _, _, wrong, _⟩
    exact closed wrong

end Envelope

/-! ## The verification -/

section Verification

variable {modulo : List UInt8}

theorem exbigBit_eq {a : ExBig} (ok : a.Ok) : exbigBit a = a.val.size :=
  eq_of_forall_ge_iff fun k => (ok.exbigBit_le_iff k).trans Nat.size_le.symm

theorem verifica_iff (odd : bigEndian modulo % 2 = 1)
    (fits : bigEndian modulo < 256 ^ (exbigParole * 4))
    (sha256 : List UInt8 → Impronta) {esponente : List UInt8}
    (impronta : Impronta) {firma : List UInt8} {saleAtteso : Int} :
    extlsRsaPssVerifica sha256 modulo esponente impronta firma saleAtteso = true ↔
      Consistente sha256 (bigEndian modulo) (bigEndian esponente) impronta firma saleAtteso ∧
        bigEndian esponente < 256 ^ (exbigParole * 4) := by
  obtain ⟨n, isN, nOk, nVal⟩ := exbigDaByte_spec.resolve_left fun wrong =>
    Nat.not_le_of_lt fits wrong.1
  rw [extlsRsaPssVerifica, isN]
  rcases exbigDaByte_spec with ⟨large, isE⟩ | ⟨e, isE, eOk, eVal⟩
  · rw [isE]
    exact iff_of_false (of_decide_eq_false rfl) fun wrong => Nat.not_le_of_lt wrong.2 large
  rcases exbigDaByte_spec with ⟨large, isS⟩ | ⟨s, isS, sOk, sVal⟩
  · rw [isE, isS]
    refine iff_of_false (of_decide_eq_false rfl) ?_
    rintro ⟨⟨below, _⟩, _⟩
    omega
  rw [isE, isS]
  have isBit : exbigBit n = (bigEndian modulo).size := nVal ▸ exbigBit_eq nOk
  have power := modexp_aByte_iff e sOk nOk (nVal ▸ odd) (((bigEndian modulo).size - 1 + 7) / 8)
  rw [nVal, eVal, sVal] at power
  have words : (2 ^ 32) ^ exbigParole = 256 ^ (exbigParole * 4) := by
    rw [show (2 : Nat) ^ 32 = 256 ^ 4 from rfl, ← Nat.pow_mul, Nat.mul_comm]
  have short : bigEndian esponente < 256 ^ (exbigParole * 4) := by
    rw [← eVal, ← words]
    exact Nat.lt_of_lt_of_le e.val_lt (Nat.pow_le_pow_right (by decide) eOk.entro)
  have bits : (bigEndian modulo).size ≤ 8 * (exbigParole * 4) := by
    rw [Nat.size_le, Nat.pow_mul]
    exact fits
  dsimp only
  rw [isBit, and_iff_left short]
  split
  · refine iff_of_false (by decide) ?_
    rintro ⟨_, em, isLength, _, sLen, _, enough, _⟩
    omega
  · cases res : (exbigModexp s e n).bind fun r =>
      exbigAByte r (((bigEndian modulo).size - 1 + 7) / 8) with
    | none =>
      refine iff_of_false (of_decide_eq_false rfl) ?_
      rintro ⟨below, em, isLength, isPower, _⟩
      rw [(power em).mpr ⟨below, isLength, isPower⟩] at res
      cases res
    | some em =>
      obtain ⟨below, isLength, isPower⟩ := (power em).mp res
      unfold exbigParole at *
      rw [pssBusta_iff (by omega) (by omega) (by omega)]
      constructor
      · exact fun accepted => ⟨below, em, isLength, isPower, accepted⟩
      · rintro ⟨_, em', sameLength, samePower, accepted⟩
        rw [bigEndian_injective (isLength.trans sameLength.symm) (isPower.trans samePower.symm)]
        exact accepted

/-- For every odd modulus the function accepts what the RFC accepts, exactly when it is not the
case that the power is consistent and just one of two things holds: the exponent fits in the words,
the signature has as many bytes as the modulus. -/
theorem pss_verifica_iff (odd : bigEndian modulo % 2 = 1)
    (fits : bigEndian modulo < 256 ^ (exbigParole * 4)) (sha256 : List UInt8 → Impronta)
    (esponente : List UInt8) (impronta : Impronta) (firma : List UInt8) (saleAtteso : Int) :
    (extlsRsaPssVerifica sha256 modulo esponente impronta firma saleAtteso = true ↔
        RsassaPss sha256 (bigEndian modulo) (bigEndian esponente) impronta firma saleAtteso) ↔
      ¬(Consistente sha256 (bigEndian modulo) (bigEndian esponente) impronta firma saleAtteso ∧
        ¬(bigEndian esponente < 256 ^ (exbigParole * 4) ↔
          firma.length = ((bigEndian modulo).size + 7) / 8)) := by
  rw [verifica_iff odd fits, RsassaPss]
  by_cases core : Consistente sha256 (bigEndian modulo) (bigEndian esponente) impronta firma
    saleAtteso
  · simp only [core, true_and, and_true, not_not]
  · simp only [core, false_and, and_false, not_false_eq_true]

end Verification

/-- A modulus of 273 bits, that is of 35 bytes. -/
def modulo273 : List UInt8 := 1 :: replicate 33 0 ++ [1]

theorem size_modulo273 : (bigEndian modulo273).size = 273 :=
  Nat.le_antisymm (Nat.size_le.mpr (by decide +kernel)) (Nat.lt_size.mpr (by decide +kernel))

section Short

variable (sha256 : List UInt8 → Impronta) (impronta : Impronta)

def bustaBreve : List UInt8 :=
  let h := (sha256 (replicate 8 0 ++ impronta.val)).val
  (mgf1Rfc sha256 h 1).map (· ^^^ 1) ++ (h ++ [0xBC])

theorem length_bustaBreve : (bustaBreve sha256 impronta).length = 34 := by
  rw [bustaBreve, length_append, length_map, length_mgf1Rfc, length_append,
    (sha256 (replicate 8 0 ++ impronta.val)).property]
  rfl

theorem bustaBreve_emsa : EmsaPss sha256 272 0 impronta (bustaBreve sha256 impronta) := by
  rw [EmsaPss, length_bustaBreve, bustaBreve]
  generalize isH : sha256 (replicate 8 0 ++ impronta.val) = h
  obtain ⟨m, isM⟩ := length_eq_one_iff.mp (length_mgf1Rfc sha256)
  have body : (h.val ++ [0xBC]).take hlen = h.val := take_left' h.property
  have isOne : UInt8.ofNat ((m ^^^ 1 ^^^ m).toNat % 2 ^ 8) = 1 := by
    rw [UInt8.xor_comm, ← UInt8.xor_assoc, UInt8.xor_self]
    rfl
  rw [isM]
  refine ⟨Nat.le_refl 34, by rw [← append_assoc, getLast?_concat], fun b _ => b.toNat_lt, [],
    rfl, ?_, ?_⟩
  · rw [show (34 - hlen - 1) = 1 from rfl, map_singleton, singleton_append, drop_one, tail_cons,
      body, isM]
    exact congrArg (· :: []) isOne
  · rw [append_nil, isH]
    exact body

theorem bustaBreve_consistente {firma : List UInt8}
    (same : bigEndian firma = bigEndian (bustaBreve sha256 impronta)) :
    Consistente sha256 (bigEndian modulo273) (bigEndian [1]) impronta firma 0 := by
  have below := bigEndian_lt (bustaBreve sha256 impronta)
  rw [length_bustaBreve] at below
  have lt : bigEndian (bustaBreve sha256 impronta) < bigEndian modulo273 :=
    Nat.lt_trans below (by decide +kernel)
  rw [Consistente, size_modulo273, same]
  refine ⟨lt, _, length_bustaBreve sha256 impronta, ?_, 0, fun _ => rfl,
    bustaBreve_emsa sha256 impronta⟩
  rw [show bigEndian [1] = 1 from rfl, Nat.pow_one, Nat.mod_eq_of_lt lt]

end Short

/-- With a zero in front the envelope is a signature, whatever the hash is. -/
theorem pss_bustaBreve : bigEndian modulo273 % 2 = 1 ∧ ∀ sha256 impronta,
    extlsRsaPssVerifica sha256 modulo273 [1] impronta (0 :: bustaBreve sha256 impronta) 0 =
      true := by
  have odd : bigEndian modulo273 % 2 = 1 := by decide +kernel
  refine ⟨odd, fun sha256 impronta => ?_⟩
  have length : (0 :: bustaBreve sha256 impronta).length =
    ((bigEndian modulo273).size + 7) / 8 := by
    rw [size_modulo273, length_cons, length_bustaBreve]
  have core := bustaBreve_consistente sha256 impronta bigEndian_zero_cons
  refine ((pss_verifica_iff odd (by decide +kernel) _ _ _ _ _).mpr ?_).mpr ⟨length, core⟩
  exact fun wrong => wrong.2 (iff_of_true (by decide +kernel) length)

/-- Without the zero it is accepted as well. -/
theorem pss_senza_zero : modulo273.length = 35 ∧ ∀ sha256 impronta,
    extlsRsaPssVerifica sha256 modulo273 [1] impronta (bustaBreve sha256 impronta) 0 = true ∧
      ¬RsassaPss sha256 (bigEndian modulo273) (bigEndian [1]) impronta
        (bustaBreve sha256 impronta) 0 := by
  refine ⟨rfl, fun sha256 impronta => ⟨?_, fun ⟨length, _⟩ => ?_⟩⟩
  · rw [verifica_iff (by decide +kernel) (by decide +kernel)]
    exact ⟨bustaBreve_consistente sha256 impronta rfl, by decide +kernel⟩
  · rw [size_modulo273, length_bustaBreve] at length
    nomatch length

end ExOs.Extls
