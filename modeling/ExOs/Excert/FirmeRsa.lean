import ExOs.Excert.Certificati

/-!
# RSA signatures of certificates

The envelope is rebuilt and compared whole, so there is one for each content.  The signature
itself is taken as a number: it must not be longer than the modulus, but it may be shorter.
-/

namespace ExOs.Excert

open ExOs.Exbig ExOs.Library List

/-- The DigestInfo and the hash that an algorithm announces. -/
def annuncio (pr : Primitive) : AlgFirma → Option (List UInt8 × (List UInt8 → List UInt8))
  | .rsaSha256 => some (digestinfoSha256, pr.sha256)
  | .rsaSha384 => some (digestinfoSha384, pr.sha384)
  | .rsaSha512 => some (digestinfoSha512, pr.sha512)
  | _ => none

/-- A key that the library takes. -/
structure ChiaveRsa (padre : ExCert) (modulo esponente : List UInt8) : Prop where
  tipo : padre.tipoChiave = .rsa
  isModulo : padre.chiaveModulo = some modulo
  isEsponente : padre.chiaveEsponente.getD [] = esponente
  lungo : 64 ≤ modulo.length
  corto : modulo.length ≤ exbigParole * 4
  dispari : bigEndian modulo % 2 = 1
  entro : bigEndian esponente < 256 ^ (exbigParole * 4)

/-- The power of the signature, on as many bytes as the modulus, is the envelope. -/
def Busta (modulo esponente firma digestinfo impronta : List UInt8) : Prop :=
  bigEndian firma < bigEndian modulo ∧
    ∃ em, em.length = modulo.length ∧
      bigEndian em = bigEndian firma ^ bigEndian esponente % bigEndian modulo ∧
      ∃ riempimento, 8 ≤ riempimento ∧ em = atteso riempimento digestinfo impronta

theorem confronta_iff {a b : List UInt8} (length : a.length = b.length) :
    confronta a b = true ↔ a = b := by
  rw [confronta, decide_eq_true_iff, foldl_or_xor_iff length]
  exact and_iff_right rfl

theorem length_atteso {riempimento : Nat} {digestinfo impronta : List UInt8} :
    (atteso riempimento digestinfo impronta).length =
      riempimento + 3 + digestinfo.length + impronta.length := by
  simp only [atteso, length_append, length_cons, length_nil, length_replicate]
  omega

theorem busta_iff {em digestinfo impronta : List UInt8} :
    (if em.length < 3 + digestinfo.length + impronta.length then EsitoCert.malformato
      else if em.length - 3 - digestinfo.length - impronta.length < 8 then .malformato
      else if confronta em
          (atteso (em.length - 3 - digestinfo.length - impronta.length) digestinfo impronta) =
            true then .ok
      else .firmaSbagliata) = .ok ↔
      ∃ riempimento, 8 ≤ riempimento ∧ em = atteso riempimento digestinfo impronta := by
  have measure : ∀ riempimento, em = atteso riempimento digestinfo impronta →
      em.length = riempimento + 3 + digestinfo.length + impronta.length :=
        fun riempimento isEnvelope =>
    (congrArg length isEnvelope).trans length_atteso
  split
  · refine iff_of_false (by decide) ?_
    rintro ⟨riempimento, _, isEnvelope⟩
    have isLength := measure riempimento isEnvelope
    omega
  generalize isFew : em.length - 3 - digestinfo.length - impronta.length = few
  split
  · refine iff_of_false (by decide) ?_
    rintro ⟨riempimento, _, isEnvelope⟩
    have isLength := measure riempimento isEnvelope
    omega
  rename_i less
  have same : em.length = (atteso few digestinfo impronta).length := by
    rw [length_atteso]
    omega
  constructor
  · intro accepted
    split at accepted
    · next compared => exact ⟨few, Nat.le_of_not_lt less, (confronta_iff same).mp compared⟩
    · cases accepted
  · rintro ⟨riempimento, _, isEnvelope⟩
    have isLength := measure riempimento isEnvelope
    have isFilled : riempimento = few := by omega
    rw [if_pos ((confronta_iff same).mpr (isFilled ▸ isEnvelope))]

section Key

variable {figlio padre : ExCert} {modulo esponente tbs firma digestinfo : List UInt8}
  {sha : List UInt8 → List UInt8}

theorem firmaRsa_iff (chiave : ChiaveRsa padre modulo esponente) (isTbs : figlio.tbs = some tbs)
    (isFirma : figlio.firma = some firma) :
    firmaRsa digestinfo sha figlio padre = .ok ↔
      firma.length ≤ modulo.length ∧ Busta modulo esponente firma digestinfo (sha tbs) := by
  have limit : ∀ b : List UInt8, b.length ≤ modulo.length → bigEndian b < 256 ^ (exbigParole * 4) :=
    fun b short => Nat.lt_of_lt_of_le (bigEndian_lt b)
      (Nat.pow_le_pow_right (by decide) (Nat.le_trans short chiave.corto))
  have read : ∀ b, bigEndian b < 256 ^ (exbigParole * 4) →
      ∃ r, exbigDaByte b = some r ∧ r.Ok ∧ r.val = bigEndian b := fun b fits =>
    exbigDaByte_spec.resolve_left fun wrong => Nat.not_le_of_lt fits wrong.1
  have taken : ¬(modulo.length < 64 ∨ exbigParole * 4 < modulo.length) := by
    have lungo := chiave.lungo
    have corto := chiave.corto
    omega
  rw [firmaRsa, if_neg (not_not_intro chiave.tipo), isTbs, isFirma, chiave.isModulo,
    chiave.isEsponente]
  dsimp only
  rw [if_neg taken]
  split
  · next long =>
    exact iff_of_false (by decide) fun wrong => Nat.not_le_of_lt long wrong.1
  rename_i long
  have short := Nat.le_of_not_lt long
  obtain ⟨n, isN, nOk, nVal⟩ := read modulo (limit _ (Nat.le_refl _))
  obtain ⟨e, isE, _, eVal⟩ := read esponente chiave.entro
  obtain ⟨s, isS, sOk, sVal⟩ := read firma (limit _ short)
  have power := modexp_aByte_iff e sOk nOk (nVal ▸ chiave.dispari) modulo.length
  rw [nVal, eVal, sVal] at power
  rw [isN, isE, isS, and_iff_right short, Busta]
  dsimp only
  cases res : (exbigModexp s e n).bind fun r => exbigAByte r modulo.length with
  | none =>
    refine iff_of_false (of_decide_eq_false rfl) ?_
    rintro ⟨below, em, isLength, isPower, _⟩
    rw [(power em).mpr ⟨below, isLength, isPower⟩] at res
    cases res
  | some em =>
    obtain ⟨below, isLength, isPower⟩ := (power em).mp res
    -- the only string of this length with this value
    have only : (∃ em', em'.length = modulo.length ∧ bigEndian em' =
          bigEndian firma ^ bigEndian esponente % bigEndian modulo ∧
          ∃ riempimento, 8 ≤ riempimento ∧ em' = atteso riempimento digestinfo (sha tbs)) ↔
        ∃ riempimento, 8 ≤ riempimento ∧ em = atteso riempimento digestinfo (sha tbs) := by
      constructor
      · rintro ⟨em', sameLength, samePower, isEnvelope⟩
        rw [bigEndian_injective (isLength.trans sameLength.symm) (isPower.trans samePower.symm)]
        exact isEnvelope
      · exact fun isEnvelope => ⟨em, isLength, isPower, isEnvelope⟩
    rw [and_iff_right below, only, ← isLength]
    exact busta_iff

/-- What is accepted has all its parts, and a key that the library takes. -/
theorem firmaRsa_chiave (accepted : firmaRsa digestinfo sha figlio padre = .ok) :
    ∃ tbs firma modulo esponente, figlio.tbs = some tbs ∧ figlio.firma = some firma ∧
      ChiaveRsa padre modulo esponente := by
  rw [firmaRsa] at accepted
  split at accepted
  · cases accepted
  rename_i isRsa
  split at accepted
  case h_2 => cases accepted
  rename_i tbs firma modulo isTbs isFirma isModulo
  dsimp only at accepted
  split at accepted
  · cases accepted
  split at accepted
  · cases accepted
  split at accepted
  case h_2 => cases accepted
  rename_i n e s isN isE isS
  refine ⟨tbs, firma, modulo, _, isTbs, isFirma, not_not.mp isRsa, isModulo, rfl, by omega,
    by omega, ?_, ?_⟩
  · cases isPower : exbigModexp s e n with
    | none =>
      rw [isPower] at accepted
      cases accepted
    | some r =>
      rcases exbigDaByte_spec with ⟨_, isNone⟩ | ⟨n', isN', _, isVal⟩
      · cases isN.symm.trans isNone
      · rw [← isVal, Option.some.inj (isN'.symm.trans isN)]
        exact exbigModexp_odd isPower
  · rcases exbigDaByte_spec with ⟨_, isNone⟩ | ⟨e', isE', ok, isVal⟩
    · cases isE.symm.trans isNone
    · rw [← isVal, Nat.pow_mul]
      exact ok.val_lt

theorem Busta.unica {firma' impronta : List UInt8}
    (busta : Busta modulo esponente firma digestinfo impronta)
    (busta' : Busta modulo esponente firma' digestinfo impronta) :
    bigEndian firma' ^ bigEndian esponente % bigEndian modulo =
      bigEndian firma ^ bigEndian esponente % bigEndian modulo := by
  obtain ⟨_, em, isLength, isPower, r, _, isEnvelope⟩ := busta
  obtain ⟨_, em', isLength', isPower', r', _, isEnvelope'⟩ := busta'
  rw [isEnvelope, length_atteso] at isLength
  rw [isEnvelope', length_atteso] at isLength'
  have same : r' = r := by omega
  rw [← isPower, ← isPower', isEnvelope, isEnvelope', same]

theorem excertFirmaValida_rsa {pr : Primitive}
    (announced : annuncio pr figlio.algFirma = some (digestinfo, sha)) :
    excertFirmaValida pr figlio padre = firmaRsa digestinfo sha figlio padre := by
  rw [excertFirmaValida]
  cases isAlg : figlio.algFirma with
  | rsaSha256 | rsaSha384 | rsaSha512 =>
    rw [isAlg] at announced
    cases announced
    rfl
  | _ =>
    rw [isAlg] at announced
    cases announced

/-- A signature of the length of the modulus is accepted exactly when its power is the envelope of
the content, and so is a shorter one, which is the exception; there is one such power. -/
theorem firma_rsa_iff {pr : Primitive} (chiave : ChiaveRsa padre modulo esponente)
    (announced : annuncio pr figlio.algFirma = some (digestinfo, sha))
    (isTbs : figlio.tbs = some tbs)
    (isFirma : figlio.firma = some firma) :
    ((excertFirmaValida pr figlio padre = .ok ↔
        firma.length = modulo.length ∧ Busta modulo esponente firma digestinfo (sha tbs)) ↔
      ¬(firma.length < modulo.length ∧ Busta modulo esponente firma digestinfo (sha tbs))) ∧
    ∀ altra, excertFirmaValida pr figlio padre = .ok →
      excertFirmaValida pr { figlio with firma := some altra } padre = .ok →
      bigEndian altra ^ bigEndian esponente % bigEndian modulo =
        bigEndian firma ^ bigEndian esponente % bigEndian modulo := by
  constructor
  · rw [excertFirmaValida_rsa announced, firmaRsa_iff chiave isTbs isFirma]
    constructor
    · rintro agree ⟨short, busta⟩
      exact Nat.ne_of_lt short (agree.mp ⟨Nat.le_of_lt short, busta⟩).1
    · intro notShort
      constructor
      · rintro ⟨short, busta⟩
        rcases Nat.lt_or_eq_of_le short with less | same
        · exact absurd ⟨less, busta⟩ notShort
        · exact ⟨same, busta⟩
      · rintro ⟨same, busta⟩
        exact ⟨Nat.le_of_eq same, busta⟩
  · intro altra accepted other
    rw [excertFirmaValida_rsa announced, firmaRsa_iff chiave isTbs isFirma] at accepted
    have again : annuncio pr { figlio with firma := some altra }.algFirma =
      some (digestinfo, sha) :=
      announced
    have content : { figlio with firma := some altra }.tbs = some tbs := isTbs
    rw [excertFirmaValida_rsa again, firmaRsa_iff chiave content rfl] at other
    exact accepted.2.unica other.2

end Key

/-- A key whose power is the number itself. -/
def chiaveUno : ExCert :=
  { ExCert.vuoto with
    tipoChiave := .rsa, chiaveModulo := some (replicate 64 0xFF), chiaveEsponente := some [1] }

theorem chiaveUno_rsa : ChiaveRsa chiaveUno (replicate 64 0xFF) [1] :=
  ⟨rfl, rfl, rfl, by decide, by decide, by decide +kernel, by decide +kernel⟩

/-- The envelope of a content, which is also its signature with that key. -/
def bustaUno (pr : Primitive) (tbs : List UInt8) : List UInt8 :=
  atteso 10 digestinfoSha256 (pr.sha256 tbs)

theorem length_bustaUno {pr : Primitive} {tbs : List UInt8} : (bustaUno pr tbs).length = 64 := by
  rw [bustaUno, length_atteso, pr.sha256_length]
  rfl

theorem bigEndian_bustaUno {pr : Primitive} {tbs : List UInt8} :
    bigEndian (bustaUno pr tbs).tail = bigEndian (bustaUno pr tbs) :=
  bigEndian_zero_cons.symm

theorem busta_bustaUno {pr : Primitive} {tbs firma : List UInt8}
    (isNumber : bigEndian firma = bigEndian (bustaUno pr tbs)) :
    Busta (replicate 64 0xFF) [1] firma digestinfoSha256 (pr.sha256 tbs) := by
  have below : bigEndian (bustaUno pr tbs) < bigEndian (replicate 64 0xFF) := by
    have small := bigEndian_lt (bustaUno pr tbs).tail
    rw [bigEndian_bustaUno, length_tail, length_bustaUno] at small
    exact Nat.lt_trans small (by decide +kernel)
  rw [Busta, isNumber]
  refine ⟨below, _, length_bustaUno, ?_, 10, by decide, rfl⟩
  rw [show bigEndian [1] = 1 from rfl, Nat.pow_one, Nat.mod_eq_of_lt below]

def firmatoRsa (firma : List UInt8) : ExCert :=
  { ExCert.vuoto with tbs := some [], algFirma := .rsaSha256, firma := some firma }

theorem firmatoRsa_annuncio (pr : Primitive) (firma : List UInt8) :
    annuncio pr (firmatoRsa firma).algFirma = some (digestinfoSha256, pr.sha256) := rfl

theorem firma_rsa_bustaUno : ChiaveRsa chiaveUno (replicate 64 0xFF) [1] ∧
    ∀ pr, excertFirmaValida pr (firmatoRsa (bustaUno pr [])) chiaveUno = .ok := by
  refine ⟨chiaveUno_rsa, fun pr => ?_⟩
  have agree :=
    (firma_rsa_iff chiaveUno_rsa (firmatoRsa_annuncio pr (bustaUno pr [])) rfl rfl).1.mpr
    fun wrong => Nat.ne_of_lt wrong.1 length_bustaUno
  exact agree.mpr ⟨length_bustaUno, busta_bustaUno rfl⟩

/-- The zero in front may be left out. -/
theorem firma_senza_zero : ChiaveRsa chiaveUno (replicate 64 0xFF) [1] ∧
    ∀ pr, (bustaUno pr []).tail.length = 63 ∧
      excertFirmaValida pr (firmatoRsa (bustaUno pr []).tail) chiaveUno = .ok := by
  refine ⟨chiaveUno_rsa, fun pr => ?_⟩
  have short : (bustaUno pr []).tail.length = 63 := by rw [length_tail, length_bustaUno]
  refine ⟨short, ?_⟩
  rw [excertFirmaValida_rsa (firmatoRsa_annuncio pr _), firmaRsa_iff chiaveUno_rsa rfl rfl, short]
  exact ⟨by decide, busta_bustaUno bigEndian_bustaUno⟩

end ExOs.Excert
