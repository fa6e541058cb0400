import ExOs.Excert.Firme

/-!
# The chain of certificates

The walk along the chain, up to a certificate that a root of the store has
signed.
-/

namespace ExOs.Excert

open List

/-- The order of the dates: that of their first fourteen characters. -/
def Precede (a b : List UInt8) (n : Nat) : Prop :=
  ∃ k < n, (∀ j < k, a.getD j 0 = b.getD j 0) ∧ (a.getD k 0).toInt8 < (b.getD k 0).toInt8

/-- Inside the validity dates, if there is a date to look at. -/
def Dentro (adesso : Option Stringa) (c : ExCert) : Prop :=
  ∀ ora, adesso = some ora → ora.byte ≠ [] →
    ¬Precede ora.byte c.nonPrima.byte 14 ∧ ¬Precede c.nonDopo.byte ora.byte 14

/-- `padre` is a CA, has the name of the issuer of `figlio`, and its key verifies the signature. -/
def Firmato (pr : Primitive) (figlio padre : ExCert) : Prop :=
  (∃ nome, figlio.emittente = some nome ∧ padre.soggetto = some nome) ∧ padre.eCa = true ∧
    ∃ tbs firma, figlio.tbs = some tbs ∧ figlio.firma = some firma ∧
      Verifica pr figlio.algFirma padre tbs firma

/-- The links hold up to `i`, which a root of the store has signed. -/
structure FinoA (pr : Primitive) (magazzino : List ExCert) (adesso : Option Stringa)
    (catena : List ExCert) (i : Nat) : Prop where
  nella : i < catena.length
  date : ∀ j ≤ i, ∀ c, catena[j]? = some c → Dentro adesso c
  anelli : ∀ j < i, ∀ figlio padre, catena[j]? = some figlio → catena[j + 1]? = some padre →
    Firmato pr figlio padre
  radice : ∀ c, catena[i]? = some c → ∃ r ∈ magazzino, Firmato pr c r

theorem primaDa_iff (giri : Nat) {a b : List UInt8} (aNul : 0 ∉ a) (bNul : 0 ∉ b) :
    primaDa giri a b = true ↔ Precede a b giri := by
  induction giri generalizing a b with
  | zero => simp [primaDa, Precede]
  | succ giri ih =>
    have heads : ∀ l : List UInt8, l.headD 0 = l.getD 0 0 := fun l => by cases l <;> rfl
    have tails : ∀ (l : List UInt8) (j : Nat), l.tail.getD j 0 = l.getD (j + 1) 0 := by
      intro l j
      cases l <;> simp
    rw [primaDa, heads, heads]
    split
    · next differ =>
      rw [decide_eq_true_iff]
      constructor
      · exact fun less =>
          ⟨0, Nat.succ_pos giri, fun j wrong => absurd wrong (Nat.not_lt_zero j), less⟩
      · rintro ⟨k, _, same, less⟩
        cases k with
        | zero => exact less
        | succ k => exact absurd (same 0 (Nat.succ_pos k)) differ
    · next differ =>
      have same := not_not.mp differ
      split
      · next ended =>
        have empty : ∀ {l : List UInt8}, 0 ∉ l → l.getD 0 0 = 0 → l = [] := by
          intro l noNul isNul
          cases l with
          | nil => rfl
          | cons x l => exact absurd (isNul ▸ mem_cons_self) noNul
        rw [empty aNul ended, empty bNul (same.symm.trans ended)]
        simp [Precede]
      · rw [ih (fun zero => aNul (mem_of_mem_tail zero)) fun zero => bNul (mem_of_mem_tail zero)]
        constructor
        · rintro ⟨k, lt, equal, less⟩
          rw [tails, tails] at less
          refine ⟨k + 1, Nat.succ_lt_succ lt, fun j pre => ?_, less⟩
          cases j with
          | zero => exact same
          | succ j =>
            have later := equal j (Nat.lt_of_succ_lt_succ pre)
            rw [tails, tails] at later
            exact later
        · rintro ⟨k, lt, equal, less⟩
          cases k with
          | zero =>
            rw [same] at less
            exact absurd less Int8.lt_irrefl
          | succ k =>
            refine ⟨k, Nat.lt_of_succ_lt_succ lt, fun j pre => ?_, ?_⟩
            · rw [tails, tails]
              exact equal (j + 1) (Nat.succ_lt_succ pre)
            · rw [tails, tails]
              exact less

theorem dateAPosto_iff {c : ExCert} {adesso : Option Stringa} :
    dateAPosto c adesso = .ok ↔ Dentro adesso c := by
  cases adesso with
  | none => simp [dateAPosto, Dentro]
  | some ora =>
    have early := primaDa_iff 14 ora.senzaNul c.nonPrima.senzaNul
    have late := primaDa_iff 14 c.nonDopo.senzaNul ora.senzaNul
    rw [dateAPosto]
    split
    · next empty => simp [Dentro, empty]
    rename_i full
    simp only [Dentro, Option.some.injEq, forall_eq', ← early, ← late, prima]
    by_cases pre : primaDa 14 ora.byte c.nonPrima.byte = true
    · simp [pre, full]
    · by_cases after : primaDa 14 c.nonDopo.byte ora.byte = true
      · simp [pre, after, full]
      · simp [pre, after]

theorem excertStessoNome_iff (a b : ExDer) :
    excertStessoNome a b = true ↔ ∃ nome, a = some nome ∧ b = some nome := by
  cases a <;> cases b <;> simp [excertStessoNome, eq_comm]

theorem radiceDi_iff {pr : Primitive} {c : ExCert} {magazzino : List ExCert} :
    (radiceDi pr c magazzino).isSome = true ↔ ∃ r ∈ magazzino, Firmato pr c r := by
  rw [radiceDi, find?_isSome]
  simp only [Bool.and_eq_true, decide_eq_true_iff, excertStessoNome_iff, excertFirmaValida_iff,
    Firmato, and_assoc]

/-! ## Link by link -/

section Links

variable {pr : Primitive} {magazzino dopo : List ExCert} {adesso : Option Stringa} {x y : ExCert}
  {k : Nat}

theorem finoA_zero : FinoA pr magazzino adesso (x :: dopo) 0 ↔
    Dentro adesso x ∧ ∃ r ∈ magazzino, Firmato pr x r := by
  constructor
  · exact fun good => ⟨good.date 0 (Nat.le_refl 0) x rfl, good.radice x rfl⟩
  · rintro ⟨dates, root⟩
    refine ⟨Nat.succ_pos _, ?_, fun j wrong => absurd wrong (Nat.not_lt_zero j), ?_⟩
    · intro j fst c isC
      rw [Nat.le_zero.mp fst] at isC
      exact Option.some.inj isC ▸ dates
    · exact fun c isC => Option.some.inj isC ▸ root

theorem finoA_succ : FinoA pr magazzino adesso (x :: y :: dopo) (k + 1) ↔
    Dentro adesso x ∧ Firmato pr x y ∧ FinoA pr magazzino adesso (y :: dopo) k := by
  constructor
  · intro good
    refine ⟨good.date 0 (Nat.zero_le _) x rfl, good.anelli 0 (Nat.succ_pos k) x y rfl rfl, ?_⟩
    refine ⟨Nat.lt_of_succ_lt_succ good.nella, ?_, ?_, good.radice⟩
    · exact fun j lt c isC => good.date (j + 1) (Nat.succ_le_succ lt) c isC
    · exact fun j lt figlio padre => good.anelli (j + 1) (Nat.succ_lt_succ lt) figlio padre
  · rintro ⟨dates, signed, good⟩
    refine ⟨Nat.succ_lt_succ good.nella, ?_, ?_, good.radice⟩
    · intro j lt c isC
      cases j with
      | zero => exact Option.some.inj isC ▸ dates
      | succ j => exact good.date j (Nat.le_of_succ_le_succ lt) c isC
    · intro j lt figlio padre isFiglio isPadre
      cases j with
      | zero => exact Option.some.inj isFiglio ▸ Option.some.inj isPadre ▸ signed
      | succ j => exact good.anelli j (Nat.lt_of_succ_lt_succ lt) figlio padre isFiglio isPadre

theorem FinoA.dentro (good : FinoA pr magazzino adesso (x :: dopo) k) : Dentro adesso x :=
  good.date 0 (Nat.zero_le k) x rfl

theorem catenaDa_iff {passo : Nat → Bool} (goes : ∀ i, passo i = true) {catena : List ExCert}
    {i : Nat} :
    (catenaDa pr magazzino adesso passo i catena).1 = .ok ↔
      ∃ k, FinoA pr magazzino adesso catena k := by
  induction catena generalizing i with
  | nil => exact iff_of_false (by simp [catenaDa]) fun ⟨k, good⟩ => Nat.not_lt_zero k good.nella
  | cons x dopo ih =>
    rw [catenaDa.eq_def]
    dsimp only
    by_cases dates : dateAPosto x adesso = .ok
    · have inside := dateAPosto_iff.mp dates
      rw [if_neg (not_not_intro dates), if_neg (by rw [goes]; decide)]
      split
      · next root =>
        exact iff_of_true rfl ⟨0, finoA_zero.mpr ⟨inside, radiceDi_iff.mp root⟩⟩
      rename_i root
      have noRoot := mt radiceDi_iff.mpr root
      cases dopo with
      | nil =>
        refine iff_of_false (by simp) ?_
        rintro ⟨k, good⟩
        cases k with
        | zero => exact noRoot (finoA_zero.mp good).2
        | succ k => exact absurd good.nella (by simp)
      | cons y dopo =>
        have later : (∃ k, FinoA pr magazzino adesso (x :: y :: dopo) k) ↔
            Firmato pr x y ∧ ∃ k, FinoA pr magazzino adesso (y :: dopo) k := by
          constructor
          · rintro ⟨k, good⟩
            cases k with
            | zero => exact absurd (finoA_zero.mp good).2 noRoot
            | succ k => exact ⟨(finoA_succ.mp good).2.1, k, (finoA_succ.mp good).2.2⟩
          · rintro ⟨signed, k, good⟩
            exact ⟨k + 1, finoA_succ.mpr ⟨inside, signed, good⟩⟩
        rw [later]
        dsimp only
        by_cases named : excertStessoNome x.emittente y.soggetto = true
        · rw [if_neg (by simp [named])]
          by_cases ca : y.eCa = true
          · rw [if_neg (by simp [ca])]
            by_cases valid : excertFirmaValida pr x y = .ok
            · have signed : Firmato pr x y :=
                ⟨(excertStessoNome_iff _ _).mp named, ca, excertFirmaValida_iff.mp valid⟩
              rw [if_neg (not_not_intro valid), ih, and_iff_right signed]
            · rw [if_pos valid]
              exact iff_of_false valid fun both => valid (excertFirmaValida_iff.mpr both.1.2.2)
          · rw [if_pos (by simpa using ca)]
            exact iff_of_false (by simp) fun both => ca both.1.2.1
        · rw [if_pos (by simpa using named)]
          exact iff_of_false (by simp) fun both => named ((excertStessoNome_iff _ _).mpr both.1.1)
    · rw [if_pos dates]
      exact iff_of_false dates fun ⟨k, good⟩ => dates (dateAPosto_iff.mpr good.dentro)

theorem FinoA.congr {catena catena' : List ExCert} (good : FinoA pr magazzino adesso catena k)
    (same : ∀ j ≤ k, catena'[j]? = catena[j]?) : FinoA pr magazzino adesso catena' k := by
  refine ⟨?_, ?_, ?_, ?_⟩
  · have there := same k (Nat.le_refl k)
    rw [getElem?_eq_getElem good.nella] at there
    exact (List.getElem?_eq_some_iff.mp there).1
  · intro j lt c isC
    exact good.date j lt c (same j lt ▸ isC)
  · intro j lt figlio padre isFiglio isPadre
    exact good.anelli j lt figlio padre (same j (Nat.le_of_lt lt) ▸ isFiglio)
      (same (j + 1) lt ▸ isPadre)
  · intro c isC
    exact good.radice c (same k (Nat.le_refl k) ▸ isC)

end Links

section Chain

variable {pr : Primitive} {catena magazzino : List ExCert} {adesso : Option Stringa}
  {passo : Nat → Nat → Bool}

theorem excertCatenaValida_iff (nonempty : 1 ≤ catena.length) (few : catena.length ≤ 10)
    (goes : ∀ i n, passo i n = true) :
    (excertCatenaValida pr catena magazzino adesso passo).1 = .ok ↔
      ∃ i, FinoA pr magazzino adesso catena i := by
  rw [excertCatenaValida, if_neg (by omega), if_neg (Nat.not_lt.mpr few)]
  exact catenaDa_iff (fun i => goes i _)

/-- A chain of one to ten certificates is accepted exactly when its links hold up to one that a
root of the store has signed; what comes after the first such link has no influence. -/
theorem catena_valida_iff (nonempty : 1 ≤ catena.length) (few : catena.length ≤ 10)
    (goes : ∀ i n, passo i n = true) :
    ((excertCatenaValida pr catena magazzino adesso passo).1 = .ok ↔
        ∃ i, FinoA pr magazzino adesso catena i) ∧
      ∀ i, FinoA pr magazzino adesso catena i → (∀ j < i, ¬FinoA pr magazzino adesso catena j) →
        ∀ altri, (catena.take (i + 1) ++ altri).length ≤ 10 →
          (excertCatenaValida pr (catena.take (i + 1) ++ altri) magazzino adesso passo).1 =
            (excertCatenaValida pr catena magazzino adesso passo).1 := by
  refine ⟨excertCatenaValida_iff nonempty few goes, ?_⟩
  intro i good _ altri short
  have length : (catena.take (i + 1)).length = i + 1 := length_take_of_le good.nella
  have still : FinoA pr magazzino adesso (catena.take (i + 1) ++ altri) i := by
    refine good.congr fun j inside => ?_
    rw [getElem?_append_left (by omega), getElem?_take_of_lt (Nat.lt_succ_of_le inside)]
  have long : 1 ≤ (catena.take (i + 1) ++ altri).length := by
    rw [length_append]
    omega
  rw [(excertCatenaValida_iff nonempty few goes).mpr ⟨i, good⟩,
    (excertCatenaValida_iff long short goes).mpr ⟨i, still⟩]

end Chain

/-- The first instant of a year from 2020 on. -/
def capodanno (anno : Fin 10) : Stringa :=
  ⟨[50, 48, 50, 48 + UInt8.ofNat anno, 48, 49, 48, 49, 48, 48, 48, 48, 48, 48], by
    revert anno
    decide⟩

/-- A certificate of the years 2025 and 2026, signed with the key it also has. -/
def emesso (pr : Primitive) (emittente soggetto : List UInt8) (eCa : Bool) : ExCert :=
  { chiaveUno with
    tbs := some soggetto
    emittente := some emittente
    soggetto := some soggetto
    algFirma := .rsaSha256
    firma := some (bustaUno pr soggetto)
    nonPrima := capodanno 5
    nonDopo := capodanno 7
    eCa := eCa }

theorem emesso_firmato (pr : Primitive) {nome emittente soggetto : List UInt8} {eCa : Bool} :
    Firmato pr (emesso pr nome soggetto eCa) (emesso pr emittente nome true) := by
  have chiave : ChiaveRsa (emesso pr emittente nome true) (replicate 64 0xFF) [1] :=
    ⟨rfl, rfl, rfl, chiaveUno_rsa.lungo, chiaveUno_rsa.corto, chiaveUno_rsa.dispari,
      chiaveUno_rsa.entro⟩
  exact ⟨⟨nome, rfl, rfl⟩, rfl, soggetto, _, rfl, rfl,
    .rsa rfl chiave (Nat.le_of_eq length_bustaUno) (busta_bustaUno rfl)⟩

/-- A site, the authority that signed it, and the root of the store that signed the authority. -/
theorem catena_valida_tre : (capodanno 6).byte.length = 14 ∧ ∀ pr,
    (excertCatenaValida pr [emesso pr [2] [3] false, emesso pr [1] [2] true]
    [emesso pr [1] [1] true] (some (capodanno 6)) fun _ _ => true).1 = .ok := by
  refine ⟨rfl, fun pr => ?_⟩
  have dates : ∀ emittente soggetto eCa,
      Dentro (some (capodanno 6)) (emesso pr emittente soggetto eCa) :=
    fun _ _ _ => dateAPosto_iff.mp rfl
  refine (catena_valida_iff (by simp) (by simp) fun _ _ => rfl).1.mpr ⟨1, finoA_succ.mpr ?_⟩
  exact ⟨dates _ _ _, emesso_firmato pr, finoA_zero.mpr ⟨dates _ _ _, _, mem_singleton_self _,
    emesso_firmato pr⟩⟩

end ExOs.Excert
