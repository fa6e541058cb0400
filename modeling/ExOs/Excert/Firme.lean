import ExOs.Excert.FirmeRsa

/-!
# Signatures that verify

What it is for the key of one certificate to verify the signature of another: an RSA
power that is the envelope of the hash announced, or two integers in DER that the curve
of the key takes for it.
-/

namespace ExOs.Excert

open ExOs.Library List

/-- A length in DER: one byte below 128, or how many bytes and the bytes. -/
def Lunghezza (l : List UInt8) (n : Nat) : Prop :=
  (∃ b, l = [b] ∧ b.toNat = n ∧ n < 128) ∨
    ∃ b cifre, l = b :: cifre ∧ b.toNat = 128 + cifre.length ∧ cifre ≠ [] ∧ cifre.length ≤ 4 ∧
      bigEndian cifre = n

/-- The tag, the length and the value, and what comes after them. -/
def Elemento (d : List UInt8) (tag : UInt8) (valore dopo : List UInt8) : Prop :=
  ∃ l, Lunghezza l valore.length ∧ d = tag :: (l ++ (valore ++ dopo))

/-- A sequence that begins with two integers. -/
def DueInteri (firma r s : List UInt8) : Prop :=
  ∃ dentro dopo resto coda, Elemento firma 0x30 dentro dopo ∧ Elemento dentro 0x02 r resto ∧
    Elemento resto 0x02 s coda

def curvaDi : TipoChiave → Option Curva
  | .ecP256 => some .p256
  | .ecP384 => some .p384
  | _ => none

/-- The hash that an algorithm of the curves announces. -/
def annuncioEcdsa (pr : Primitive) : AlgFirma → Option (List UInt8 → List UInt8)
  | .ecdsaSha256 => some pr.sha256
  | .ecdsaSha384 => some pr.sha384
  | _ => none

/-- The key of `padre` verifies `firma` as the signature of `tbs`. -/
inductive Verifica (pr : Primitive) (alg : AlgFirma) (padre : ExCert) (tbs firma : List UInt8) :
    Prop
  | rsa {digestinfo modulo esponente : List UInt8} {sha : List UInt8 → List UInt8} :
      annuncio pr alg = some (digestinfo, sha) → ChiaveRsa padre modulo esponente →
      firma.length ≤ modulo.length → Busta modulo esponente firma digestinfo (sha tbs) →
      Verifica pr alg padre tbs firma
  | ecdsa {sha : List UInt8 → List UInt8} {curva : Curva} {punto r s : List UInt8} :
      annuncioEcdsa pr alg = some sha → curvaDi padre.tipoChiave = some curva →
      padre.chiavePunto = some punto → DueInteri firma r s →
      pr.excurvaVerifica curva punto (sha tbs) r s = true → Verifica pr alg padre tbs firma

/-! ## Elements -/

section Elements

variable {d tail : List UInt8} {off : Nat} {tag : UInt8} {e : ExDerElem}

theorem getD_of_drop {rest : List UInt8} {b : UInt8} (isTail : d.drop off = b :: rest) :
    d.getD off 0 = b ∧ d.drop (off + 1) = rest ∧ d.length = off + 1 + rest.length := by
  have long := congrArg length isTail
  rw [length_drop, length_cons] at long
  refine ⟨?_, ?_, by omega⟩
  · rw [getD_eq_getElem?_getD, ← Nat.add_zero off, ← getElem?_drop, isTail]
    rfl
  · rw [← drop_drop, isTail]
    rfl

theorem exderValore_iff (byteLung : Nat) {lung : Nat} {l : List UInt8}
    (isTail : d.drop off = tag :: (l ++ tail)) (isLength : l.length = byteLung) :
    exderValore d off tag lung byteLung = some e ↔ e.tag = tag ∧ e.intestazione = 1 + byteLung ∧
      e.valore.length = lung ∧ ∃ dopo, tail = e.valore ++ dopo := by
  obtain ⟨_, isRest, isLong⟩ := getD_of_drop isTail
  have isValue : d.drop (off + (1 + byteLung)) = tail := by
    rw [← Nat.add_assoc, ← drop_drop, isRest, ← isLength, drop_left]
  rw [length_append] at isLong
  rw [exderValore, isValue]
  split
  · refine iff_of_false (by simp) ?_
    rintro ⟨_, _, isLung, dopo, rfl⟩
    rw [length_append] at isLong
    omega
  · constructor
    · intro isE
      rw [← Option.some.inj isE]
      refine ⟨rfl, rfl, length_take_of_le (by omega), tail.drop lung, (take_append_drop ..).symm⟩
    · rintro ⟨rfl, isHeader, rfl, dopo, rfl⟩
      rw [take_left, ← isHeader]

theorem toNat_and_127 {b : UInt8} (large : ¬b < 0x80) : b.toNat = 128 + (b &&& 0x7F).toNat := by
  have above := UInt8.le_iff_toNat_le.mp (UInt8.not_lt.mp large)
  have small := UInt8.toNat_lt b
  rw [UInt8.toNat_and, show (0x7F : UInt8).toNat = 2 ^ 7 - 1 from rfl,
    Nat.and_two_pow_sub_one_eq_mod]
  change 128 ≤ _ at above
  omega

/-- The bytes begin with the element `e`, whose tag is one byte. -/
def Inizia (bytes : List UInt8) (e : ExDerElem) : Prop :=
  e.tag &&& 0x1F ≠ 0x1F ∧ ∃ l dopo, Lunghezza l e.valore.length ∧ e.intestazione = 1 + l.length ∧
    bytes = e.tag :: (l ++ (e.valore ++ dopo))

section Forms

variable {t b : UInt8} {rest : List UInt8} (single : t &&& 0x1F ≠ 0x1F)

include single

theorem inizia_breve (short : b < 0x80) :
    Inizia (t :: b :: rest) e ↔ e.tag = t ∧ e.intestazione = 1 + 1 ∧
      e.valore.length = b.toNat ∧ ∃ dopo, rest = e.valore ++ dopo := by
  have small : b.toNat < 128 := UInt8.lt_iff_toNat_lt.mp short
  constructor
  · rintro ⟨_, l, dopo, ⟨c, rfl, isLung, _⟩ | ⟨c, cifre, rfl, isCount, _⟩, isHeader, shape⟩
    · obtain ⟨isT, isRest⟩ := cons.inj shape
      obtain ⟨isB, isRest⟩ := cons.inj isRest
      exact ⟨isT.symm, isHeader, isB ▸ isLung.symm, dopo, isRest⟩
    · obtain ⟨rfl, _⟩ := cons.inj (cons.inj shape).2
      omega
  · rintro ⟨rfl, isHeader, isLung, dopo, rfl⟩
    exact ⟨single, [b], dopo, .inl ⟨b, rfl, isLung.symm, isLung ▸ small⟩, isHeader, rfl⟩

theorem inizia_lunga {count : Nat} (isCount : b.toNat = 128 + count) :
    Inizia (t :: b :: rest) e ↔ ¬(count = 0 ∨ 4 < count) ∧ count ≤ rest.length ∧
      bigEndian (rest.take count) = e.valore.length ∧ e.tag = t ∧
      e.intestazione = 1 + (count + 1) ∧ ∃ dopo, rest.drop count = e.valore ++ dopo := by
  constructor
  · rintro ⟨_, l, dopo, ⟨c, rfl, isLung, less⟩ | ⟨c, cifre, rfl, isCount', some', few, isLung⟩,
      isHeader, shape⟩
    · obtain ⟨rfl, _⟩ := cons.inj (cons.inj shape).2
      omega
    · obtain ⟨isT, isRest⟩ := cons.inj shape
      obtain ⟨isB, isRest : rest = cifre ++ (e.valore ++ dopo)⟩ := cons.inj isRest
      have isLength : cifre.length = count := by
        rw [isB] at isCount
        omega
      have positive := length_pos_iff.mpr some'
      rw [length_cons] at isHeader
      rw [isRest, ← isLength, take_left, drop_left, length_append]
      exact ⟨by omega, by omega, isLung, isT.symm, isLength ▸ isHeader, dopo, rfl⟩
  · rintro ⟨few, fits, isLung, rfl, isHeader, dopo, shape⟩
    have isLength := length_take_of_le fits
    refine ⟨single, b :: rest.take count, dopo, .inr ⟨b, _, rfl, ?_, ?_, by omega, isLung⟩, ?_, ?_⟩
    · rw [isLength, isCount]
    · exact ne_nil_of_length_pos (by omega)
    · rw [length_cons, isLength, isHeader]
    · rw [← shape, cons_append, take_append_drop]

end Forms

/-- `exder_leggi` finds an element exactly when there is one, of a tag of one byte. -/
theorem exderLeggi_iff : exderLeggi d off = some e ↔ Inizia (d.drop off) e := by
  rw [exderLeggi]
  rcases isTail : d.drop off with _ | ⟨t, _ | ⟨b, rest⟩⟩
  · rw [if_pos (.inl (drop_eq_nil_iff.mp isTail))]
    exact iff_of_false (by simp) fun ⟨_, _, _, _, _, shape⟩ => nomatch shape
  · have long := (getD_of_drop isTail).2.2
    rw [length_nil] at long
    rw [if_pos (.inr (by omega))]
    refine iff_of_false (by simp) ?_
    rintro ⟨_, l, dopo, ⟨_, rfl, _⟩ | ⟨_, _, rfl, _⟩, _, shape⟩ <;> cases shape
  obtain ⟨isTag, isRest, _⟩ := getD_of_drop isTail
  obtain ⟨isByte, isRest, long⟩ := getD_of_drop isRest
  rw [if_neg (by omega), isTag, isByte]
  by_cases wide : t &&& 0x1F = 0x1F
  · rw [if_pos wide]
    exact iff_of_false (by simp) fun ⟨single, _, _, _, _, shape⟩ =>
      single ((cons.inj shape).1 ▸ wide)
  rw [if_neg wide]
  by_cases short : b < 0x80
  · rw [if_pos short, exderValore_iff (l := [b]) 1 isTail rfl, inizia_breve wide short]
  have isCount := toNat_and_127 short
  rw [if_neg short, inizia_lunga wide isCount, isRest]
  generalize (b &&& 0x7F).toNat = count at isCount
  dsimp only
  split
  · next wrong => exact iff_of_false (by simp) fun right => right.1 wrong
  rename_i few
  split
  · exact iff_of_false (by simp) fun right => by omega
  have isLength : (rest.take count).length = count := length_take_of_le (by omega)
  rw [foldl_bigEndian, Nat.zero_mul, Nat.zero_add]
  split
  · next large =>
    refine iff_of_false (by simp) fun right => ?_
    obtain ⟨_, _, isLung, _, _, dopo, shape⟩ := right
    have ends := congrArg length shape
    rw [length_drop, length_append] at ends
    omega
  · have whole : d.drop off = t :: (b :: rest.take count ++ rest.drop count) := by
      rw [isTail, cons_append, take_append_drop]
    rw [exderValore_iff (count + 1) whole (by rw [length_cons, isLength])]
    constructor
    · rintro ⟨isT, isHeader, isLung, rest⟩
      exact ⟨few, by omega, isLung.symm, isT, isHeader, rest⟩
    · rintro ⟨_, _, isLung, isT, isHeader, rest⟩
      exact ⟨isT, isHeader, isLung.symm, rest⟩

theorem exderLeggi_elemento {valore dopo : List UInt8} (single : tag &&& 0x1F ≠ 0x1F) :
    (∃ e, exderLeggi d off = some e ∧ e.tag = tag ∧ e.valore = valore ∧
      d.drop (off + (e.intestazione + e.valore.length)) = dopo) ↔
      Elemento (d.drop off) tag valore dopo := by
  have past : ∀ {tag : UInt8} {l valore dopo : List UInt8},
    d.drop off = tag :: (l ++ (valore ++ dopo)) →
      d.drop (off + (1 + l.length + valore.length)) = dopo := by
    intro tag l valore dopo shape
    rw [← drop_drop, shape, Nat.add_assoc, Nat.add_comm 1, drop_succ_cons, ← drop_drop, drop_left,
      drop_left]
  constructor
  · rintro ⟨e, read, rfl, rfl, rfl⟩
    obtain ⟨_, l, dopo, isLength, isHeader, shape⟩ := exderLeggi_iff.mp read
    refine ⟨l, isLength, ?_⟩
    rw [isHeader, past shape]
    exact shape
  · rintro ⟨l, isLength, shape⟩
    exact ⟨⟨tag, valore, 1 + l.length⟩, exderLeggi_iff.mpr ⟨single, l, dopo, isLength, rfl, shape⟩,
      rfl, rfl, past shape⟩

theorem ecdsaRS_iff {firma r s : List UInt8} :
    ecdsaRS firma = some (r, s) ↔ DueInteri firma r s := by
  simp only [ecdsaRS, exderDentro, Option.bind_eq_bind, Option.bind_none, Option.bind_eq_some_iff,
    Option.ite_none_left_eq_some, Option.pure_def, Option.some.injEq, Prod.mk.injEq, not_not]
  have sequence : (0x30 : UInt8) &&& 0x1F ≠ 0x1F := by decide
  have integer : (0x02 : UInt8) &&& 0x1F ≠ 0x1F := by decide
  constructor
  · rintro ⟨dentro, ⟨e, read, isTag, isDentro⟩, a, readA, tagA, b, readB, tagB, isR, isS⟩
    rw [← Nat.zero_add (a.intestazione + _)] at readB
    exact ⟨dentro, _, _, _, (exderLeggi_elemento sequence).mp ⟨e, read, isTag, isDentro, rfl⟩,
      (exderLeggi_elemento integer).mp ⟨a, readA, tagA, isR, rfl⟩,
      (exderLeggi_elemento integer).mp ⟨b, readB, tagB, isS, rfl⟩⟩
  · rintro ⟨dentro, dopo, resto, coda, outer, fst, snd⟩
    obtain ⟨e, read, isTag, isDentro, _⟩ :=
      (exderLeggi_elemento sequence).mpr (drop_zero (l := firma) ▸ outer)
    obtain ⟨a, readA, tagA, isR, isResto⟩ :=
      (exderLeggi_elemento integer).mpr (drop_zero (l := dentro) ▸ fst)
    rw [Nat.zero_add] at isResto
    rw [← isResto] at snd
    obtain ⟨b, readB, tagB, isS, _⟩ := (exderLeggi_elemento integer).mpr snd
    exact ⟨dentro, ⟨e, read, isTag, isDentro⟩, a, readA, tagA, b, readB, tagB, isR, isS⟩

end Elements

/-! ## Both algorithms -/

section Valid

variable {pr : Primitive} {figlio padre : ExCert} {tbs firma : List UInt8}

theorem firmaEcdsa_iff {curva : Curva} {sha : List UInt8 → List UInt8}
    (announced : annuncioEcdsa pr figlio.algFirma = some sha) :
    firmaEcdsa pr curva figlio padre = .ok ↔ ∃ tbs firma punto r s, figlio.tbs = some tbs ∧
      figlio.firma = some firma ∧ padre.chiavePunto = some punto ∧ DueInteri firma r s ∧
      pr.excurvaVerifica curva punto (sha tbs) r s = true := by
  have hashed : ∀ tbs, (if figlio.algFirma = .ecdsaSha384 then pr.sha384 tbs else pr.sha256 tbs) =
      sha tbs := by
    cases isAlg : figlio.algFirma <;> rw [isAlg] at announced <;> cases announced <;>
      exact fun _ => rfl
  rw [firmaEcdsa]
  split
  · next tbs firma punto isTbs isFirma isPunto =>
    simp only [hashed, isTbs, isFirma, isPunto, Option.some.injEq, ← ecdsaRS_iff, ↓existsAndEq,
      true_and]
    rcases ecdsaRS firma with _ | ⟨r, s⟩
    · simp
    · by_cases good : pr.excurvaVerifica curva punto (sha tbs) r s = true <;> simp [good]
  · next absent =>
    refine iff_of_false (by decide) ?_
    rintro ⟨tbs, firma, punto, _, _, isTbs, isFirma, isPunto, _⟩
    exact absent tbs firma punto isTbs isFirma isPunto

theorem excertFirmaValida_ecdsa {sha : List UInt8 → List UInt8}
    (announced : annuncioEcdsa pr figlio.algFirma = some sha) :
    excertFirmaValida pr figlio padre =
      ((curvaDi padre.tipoChiave).map fun curva => firmaEcdsa pr curva figlio padre).getD
        .chiaveRifiutata := by
  rw [excertFirmaValida]
  cases isAlg : figlio.algFirma <;> rw [isAlg] at announced <;> cases announced <;>
    cases padre.tipoChiave <;> rfl

/-- A signature is accepted exactly when the key of the other certificate verifies it. -/
theorem excertFirmaValida_iff : excertFirmaValida pr figlio padre = .ok ↔
    ∃ tbs firma, figlio.tbs = some tbs ∧ figlio.firma = some firma ∧
      Verifica pr figlio.algFirma padre tbs firma := by
  constructor
  · intro accepted
    cases rsa : annuncio pr figlio.algFirma with
    | some announced =>
      rw [excertFirmaValida_rsa rsa] at accepted
      obtain ⟨tbs, firma, _, _, isTbs, isFirma, chiave⟩ := firmaRsa_chiave accepted
      obtain ⟨short, busta⟩ := (firmaRsa_iff chiave isTbs isFirma).mp accepted
      exact ⟨tbs, firma, isTbs, isFirma, .rsa rsa chiave short busta⟩
    | none =>
      cases ecdsa : annuncioEcdsa pr figlio.algFirma with
      | some sha =>
        rw [excertFirmaValida_ecdsa ecdsa] at accepted
        cases isCurva : curvaDi padre.tipoChiave with
        | none =>
          rw [isCurva] at accepted
          cases accepted
        | some curva =>
          rw [isCurva] at accepted
          obtain ⟨tbs, firma, _, _, _, isTbs, isFirma, isPunto, pair, good⟩ :=
            (firmaEcdsa_iff ecdsa).mp accepted
          exact ⟨tbs, firma, isTbs, isFirma, .ecdsa ecdsa isCurva isPunto pair good⟩
      | none =>
        rw [excertFirmaValida] at accepted
        cases isAlg : figlio.algFirma <;> rw [isAlg] at accepted rsa ecdsa <;>
          first | (cases rsa; done) | (cases ecdsa; done) | cases accepted
  · rintro ⟨tbs, firma, isTbs, isFirma, verifica⟩
    cases verifica with
    | rsa announced chiave short busta =>
      rw [excertFirmaValida_rsa announced]
      exact (firmaRsa_iff chiave isTbs isFirma).mpr ⟨short, busta⟩
    | ecdsa announced isCurva isPunto pair good =>
      rw [excertFirmaValida_ecdsa announced, isCurva]
      exact (firmaEcdsa_iff announced).mpr ⟨_, _, _, _, _, isTbs, isFirma, isPunto, pair, good⟩

end Valid

end ExOs.Excert
