import Mathlib.Data.Nat.Digits.Lemmas
import ExOs.Ipc.Nomi

/-!
# Service names over a run

As long as the counter of the pids has not gone past the signed numbers a pid
is given once: an entry of the table is alive exactly when the process that
wrote it is.
-/

namespace ExOs.Ipc

open ExOs.Library List Function

/-! ## Names -/

variable {resto : Nat}

theorem nomeUgualeDa_iff {a b : Stringa} :
    ∀ j, nomeUgualeDa a b j resto = true ↔ testoDa a j resto = testoDa b j resto := by
  induction resto with
  | zero => exact fun j => ⟨fun _ => rfl, fun _ => rfl⟩
  | succ resto ih =>
    intro j
    rw [nomeUgualeDa, testoDa, testoDa]
    by_cases same : a j = b j
    · rw [if_neg (not_not_intro same), ← same]
      by_cases ended : a j = 0
      · rw [if_pos ended, if_pos ended, if_pos ended]
        exact ⟨fun _ => rfl, fun _ => rfl⟩
      · rw [if_neg ended, if_neg ended, if_neg ended, ih (j + 1)]
        exact ⟨congrArg _, fun equal => (List.cons.inj equal).2⟩
    · rw [if_pos same]
      refine ⟨fun wrong => by simp at wrong, ?_⟩
      intro equal
      split at equal
      · next ended =>
        rw [if_neg (fun other => same (ended.trans other.symm))] at equal
        simp at equal
      · split at equal
        · simp at equal
        · exact absurd (List.cons.inj equal).1 same

theorem nomeUguale_iff (a b : Stringa) : nomeUguale a b = true ↔ testo a = testo b :=
  nomeUgualeDa_iff 0

variable (name : Stringa)

theorem copiaNome_prima :
    ∀ (nome : Stringa) (k : Nat) {i : Nat}, i < k → copiaNome nome name k resto i = nome i := by
  induction resto with
  | zero => exact fun nome k i _ => rfl
  | succ resto ih =>
    intro nome k i pre
    have written : update nome k (name k) i = nome i := update_of_ne (Nat.ne_of_lt pre) _ _
    rw [copiaNome]
    split
    · exact written
    · exact (ih _ (k + 1) (Nat.lt_succ_of_lt pre)).trans written

theorem testoDa_copiaNome : ∀ (nome : Stringa) (k : Nat),
      testoDa (copiaNome nome name k resto) k resto = testoDa name k resto := by
  induction resto with
  | zero => exact fun nome k => rfl
  | succ resto ih =>
    intro nome k
    have written : update nome k (name k) k = name k := update_self _ _ _
    rw [copiaNome, testoDa, testoDa]
    by_cases ended : name k = 0
    · rw [if_pos ended, if_pos ended, if_pos (written.trans ended)]
    · have kept : copiaNome (update nome k (name k)) name (k + 1) resto k = name k :=
        (copiaNome_prima name _ (k + 1) (Nat.lt_succ_self k)).trans written
      rw [if_neg ended, if_neg ended, kept, if_neg ended, ih]

theorem testo_copiaNome {nome name : Stringa} :
    testo (copiaNome nome name 0 ipcNameLen) = testo name :=
  testoDa_copiaNome name nome 0

theorem combacia_prefix {cifre : List UInt8} :
    ∀ (k : Nat) {resto : Nat}, combacia name k cifre = true → (∀ c ∈ cifre, c ≠ 0) →
      cifre.length ≤ resto → cifre <+: testoDa name k resto := by
  induction cifre with
  | nil => exact fun k resto _ _ _ => nil_prefix
  | cons c cifre ih =>
    intro k resto agrees nonzero short
    cases resto with
    | zero => exact absurd short (by simp)
    | succ resto =>
      rw [combacia] at agrees
      split at agrees
      · simp at agrees
      rename_i same
      have isC : name k = c := not_not.mp same
      rw [testoDa, isC, if_neg (nonzero c mem_cons_self)]
      refine cons_prefix_cons.mpr ⟨rfl, ?_⟩
      exact ih (k + 1) agrees (fun d mem => nonzero d (mem_cons_of_mem c mem))
        (Nat.le_of_succ_le_succ short)

theorem rovescia_eq {v : Nat} :
    rovescia v = (Nat.digits 10 v).map fun d => UInt8.ofNat (48 + d) := by
  induction v using Nat.strongRecOn with
  | ind v ih =>
    rw [rovescia]
    split
    · next zero =>
      rw [zero]
      rfl
    rename_i pos
    have smaller : v / 10 < v := Nat.div_lt_self (Nat.pos_of_ne_zero pos) (by decide)
    rw [ih _ smaller, Nat.digits_def' (by decide) (Nat.pos_of_ne_zero pos)]
    rfl

variable {uid : UInt32}

theorem atteso_eq (user : uid ≠ 0) :
    atteso uid = (Nat.digits 10 uid.toNat).reverse.map (fun d => UInt8.ofNat (48 + d)) ++ [58] := by
  rw [atteso, if_neg user, rovescia_eq, map_reverse]

theorem atteso_nonzero (user : uid ≠ 0) : ∀ c ∈ atteso uid, c ≠ 0 := by
  intro c mem
  rw [atteso_eq user] at mem
  rcases mem_append.mp mem with digit | colon
  · obtain ⟨d, isDigit, isC⟩ := mem_map.mp digit
    have small : d < 10 := Nat.digits_lt_base (by decide) (mem_reverse.mp isDigit)
    rw [← isC]
    intro zero
    have values := congrArg UInt8.toNat zero
    rw [UInt8.toNat_ofNat_of_lt' (by rw [UInt8.size]; omega)] at values
    have noZero : (0 : UInt8).toNat = 0 := rfl
    omega
  · rw [mem_singleton.mp colon]
    decide

theorem atteso_length (user : uid ≠ 0) : (atteso uid).length ≤ ipcNameLen := by
  have digits : (Nat.digits 10 uid.toNat).length ≤ 10 :=
    (Nat.digits_length_le_iff (by decide) _).mpr
      (Nat.lt_of_lt_of_le (UInt32.toNat_lt uid) (by decide))
  rw [atteso_eq user, length_append, length_map, length_reverse, length_singleton, ipcNameLen]
  omega

namespace Anagrafe

def Viva (c : Anagrafe) (v : Voce) : Prop :=
  v.pid ≠ 0 ∧ ∃ p < c.posti, (c.proc p).pid = v.pid ∧ (c.proc p).stato.vivo = true

/-- A process is known by its pid, and its pid says when it was born. -/
structure Numerati (c : Anagrafe) : Prop where
  nextPid : c.nextPid.toNat = c.nati + 1
  pochi : c.nati < 2 ^ 31
  numerati : ∀ p < c.posti, (c.proc p).stato ≠ .unused → (c.proc p).numerato = true →
    (c.proc p).pid.toNat = (c.proc p).seriale + 1 ∧ (c.proc p).seriale < c.nati
  senza : ∀ p < c.posti, (c.proc p).stato ≠ .unused → (c.proc p).numerato = false →
    (c.proc p).pid = 0
  unici : ∀ p < c.posti, ∀ q < c.posti, (c.proc p).stato ≠ .unused → (c.proc q).stato ≠ .unused →
    (c.proc p).pid ≠ 0 → (c.proc p).pid = (c.proc q).pid → p = q

/-- The names: an entry in use is of a registration, a live process has the
entries it registered, and no two live entries have one name. -/
structure Sana (c : Anagrafe) : Prop extends Numerati c where
  voci : ∀ i < ipcNomiMax, (c.nomi i).pid ≠ 0 →
    (c.nomi i).pid.toNat = (c.nomi i).chi + 1 ∧
      ∃ r ∈ c.registrati, r.chi = (c.nomi i).chi ∧ r.nome = testo (c.nomi i).nome
  nati : ∀ r ∈ c.registrati, r.chi < c.nati
  presenti : ∀ p < c.posti, (c.proc p).stato.vivo = true → (c.proc p).numerato = true →
    ∀ r ∈ c.registrati, r.chi = (c.proc p).seriale →
      ∃ i < ipcNomiMax, (c.nomi i).pid = (c.proc p).pid ∧ testo (c.nomi i).nome = r.nome
  una : ∀ i < ipcNomiMax, ∀ j < ipcNomiMax, c.Viva (c.nomi i) → c.Viva (c.nomi j) →
    testo (c.nomi i).nome = testo (c.nomi j).nome → i = j
  prefissi : ∀ r ∈ c.registrati, r.uid ≠ 0 → atteso r.uid <+: r.nome

variable {c c' : Anagrafe}

theorem vivo_ne_unused {stato : Stato} (alive : stato.vivo = true) : stato ≠ .unused := by
  intro free
  rw [free] at alive
  simp [Stato.vivo] at alive

/-- A slot changes: what is in use in it after was there before, or has no pid
yet; what is alive and has a pid was alive. -/
structure Cambia (c : Anagrafe) (p : Nat) (posto : Posto) : Prop where
  usato : posto.stato ≠ .unused →
    (c.proc p).stato ≠ .unused ∧ posto.numerato = (c.proc p).numerato ∧
        posto.pid = (c.proc p).pid ∧ posto.seriale = (c.proc p).seriale ∨
      posto.numerato = false ∧ posto.pid = 0
  vivo : posto.stato.vivo = true → posto.numerato = true → (c.proc p).stato.vivo = true

theorem conPosto_self (c : Anagrafe) (p : Nat) (posto : Posto) :
    (c.conPosto p posto).proc p = posto := update_self _ _ _

variable {p i k : Nat} {posto : Posto} {name : Stringa} {self : Nat}

theorem conPosto_other (c : Anagrafe) {q : Nat} (other : q ≠ p) (posto : Posto) :
    (c.conPosto p posto).proc q = c.proc q := update_of_ne other _ _

/-- What is in use in `c'` was in use in `c`, or has no pid yet; what is alive and has
a pid was alive. -/
structure Segue (c c' : Anagrafe) : Prop where
  tabelle : c'.nomi = c.nomi ∧ c'.registrati = c.registrati
  conto : c'.nextPid = c.nextPid ∧ c'.nati = c.nati
  usato : ∀ q < c'.posti, (c'.proc q).stato ≠ .unused →
    (q < c.posti ∧ (c.proc q).stato ≠ .unused ∧ (c'.proc q).numerato = (c.proc q).numerato ∧
        (c'.proc q).pid = (c.proc q).pid ∧ (c'.proc q).seriale = (c.proc q).seriale) ∨
      (c'.proc q).numerato = false ∧ (c'.proc q).pid = 0
  vivo : ∀ q < c'.posti, (c'.proc q).stato.vivo = true → (c'.proc q).numerato = true →
    (c.proc q).stato.vivo = true

theorem Segue.prima (segue : Segue c c') {q : Nat} (lt : q < c'.posti)
    (used : (c'.proc q).stato ≠ .unused)
    (hasPid : (c'.proc q).pid ≠ 0 ∨ (c'.proc q).numerato = true) :
    q < c.posti ∧ (c.proc q).stato ≠ .unused ∧ (c'.proc q).numerato = (c.proc q).numerato ∧
      (c'.proc q).pid = (c.proc q).pid ∧ (c'.proc q).seriale = (c.proc q).seriale := by
  refine (segue.usato q lt used).resolve_right ?_
  rintro ⟨noNumber, noPid⟩
  rcases hasPid with hasPid | numbered
  · exact hasPid noPid
  · exact absurd (noNumber.symm.trans numbered) (by simp)

section

variable (numbered : c.Numerati)

include numbered

theorem Numerati.voceViva_iff {v : Voce} : c.voceViva v = true ↔ c.Viva v := by
  rw [voceViva]
  split
  · next free =>
    exact ⟨fun wrong => by simp at wrong, fun alive => absurd free alive.1⟩
  rename_i free
  cases found : procGetByPid c.posti (fun i => (c.proc i).toScheda) v.pid with
  | none =>
    refine ⟨fun wrong => by simp at wrong, ?_⟩
    rintro ⟨_, p, lt, isPid, alive⟩
    have unused : (c.proc p).stato = .unused := procGetByPid_none found lt isPid
    exact absurd unused (vivo_ne_unused alive)
  | some p =>
    obtain ⟨lt, isPid, used⟩ := procGetByPid_some found
    refine ⟨fun alive => ⟨free, p, lt, isPid, alive⟩, ?_⟩
    rintro ⟨_, q, insideQ, isPidQ, alive⟩
    have same : q = p := numbered.unici q insideQ p lt (vivo_ne_unused alive) used
      (by rw [isPidQ]; exact free) (isPidQ.trans isPid.symm)
    rw [← same]
    exact alive

/-! ## Steps of a process -/

theorem Numerati.segue (segue : Segue c c') : c'.Numerati where
  nextPid := by
    rw [segue.conto.1, segue.conto.2]
    exact numbered.nextPid
  pochi := by
    rw [segue.conto.2]
    exact numbered.pochi
  numerati := by
    intro q lt used isNumbered
    obtain ⟨pre, usedBefore, sameFlag, samePid, sameSerial⟩ :=
      segue.prima lt used (.inr isNumbered)
    rw [samePid, sameSerial, segue.conto.2]
    exact numbered.numerati q pre usedBefore (sameFlag.symm.trans isNumbered)
  senza := by
    intro q lt used noNumber
    rcases segue.usato q lt used with ⟨pre, usedBefore, sameFlag, samePid, _⟩ | ⟨_, noPid⟩
    · rw [samePid]
      exact numbered.senza q pre usedBefore (sameFlag.symm.trans noNumber)
    · exact noPid
  unici := by
    intro q insideQ r insideR usedQ usedR hasPid same
    obtain ⟨beforeQ, usedQ, _, pidQ, _⟩ := segue.prima insideQ usedQ (.inl hasPid)
    obtain ⟨beforeR, usedR, _, pidR, _⟩ := segue.prima insideR usedR (.inl (same ▸ hasPid))
    rw [pidQ] at hasPid same
    rw [pidR] at same
    exact numbered.unici q beforeQ r beforeR usedQ usedR hasPid same

theorem Numerati.numerato (lt : p < c.posti)
    (used : (c.proc p).stato ≠ .unused) (hasPid : (c.proc p).pid ≠ 0) :
    (c.proc p).numerato = true := by
  cases flag : (c.proc p).numerato with
  | true => rfl
  | false => exact absurd (numbered.senza p lt used flag) hasPid

theorem Numerati.pid_ne_zero (lt : p < c.posti)
    (used : (c.proc p).stato ≠ .unused) (isNumbered : (c.proc p).numerato = true) :
    (c.proc p).pid ≠ 0 := by
  intro zero
  have isPid := (numbered.numerati p lt used isNumbered).1
  rw [zero] at isPid
  exact absurd isPid (by simp)

theorem Numerati.cercaNome_none (absent : c.cercaNome name = none) (lt : i < ipcNomiMax)
    (alive : c.Viva (c.nomi i)) : testo (c.nomi i).nome ≠ testo name := by
  intro same
  have empty := List.find?_eq_none.mp absent i (mem_range.mpr lt)
  rw [numbered.voceViva_iff.mpr alive, (nomeUguale_iff _ _).mpr same] at empty
  exact empty rfl

theorem Numerati.cercaNome_some (found : c.cercaNome name = some i) :
    i < ipcNomiMax ∧ c.Viva (c.nomi i) ∧ testo (c.nomi i).nome = testo name := by
  have lt := mem_range.mp (mem_of_find?_eq_some found)
  have holds := List.find?_some found
  rw [Bool.and_eq_true] at holds
  exact ⟨lt, numbered.voceViva_iff.mp holds.1, (nomeUguale_iff _ _).mp holds.2⟩

theorem Numerati.voceLibera_some
    (found : c.voceLibera = some i) : i < ipcNomiMax ∧ ¬c.Viva (c.nomi i) := by
  have lt := mem_range.mp (mem_of_find?_eq_some found)
  have holds := List.find?_some found
  refine ⟨lt, ?_⟩
  intro alive
  rw [numbered.voceViva_iff.mpr alive] at holds
  simp at holds

end

theorem Segue.viva (segue : Segue c c') (numbered : c.Numerati) {v : Voce} (alive : c'.Viva v) :
    c.Viva v := by
  obtain ⟨hasPid, q, lt, isPid, aliveQ⟩ := alive
  have used := vivo_ne_unused aliveQ
  have isNumbered := (numbered.segue segue).numerato lt used (isPid ▸ hasPid)
  obtain ⟨pre, _, _, samePid, _⟩ := segue.prima lt used (.inr isNumbered)
  exact ⟨hasPid, q, pre, samePid.symm.trans isPid, segue.vivo q lt aliveQ isNumbered⟩

theorem Sana.segue (sana : c.Sana) (segue : Segue c c') : c'.Sana := by
  obtain ⟨sameNames, sameHistory⟩ := segue.tabelle
  refine ⟨sana.toNumerati.segue segue, ?_, ?_, ?_, ?_, ?_⟩
  · rw [sameNames, sameHistory]
    exact sana.voci
  · rw [sameHistory, segue.conto.2]
    exact sana.nati
  · rw [sameNames, sameHistory]
    intro q lt alive isNumbered r registered isChi
    obtain ⟨pre, _, sameFlag, samePid, sameSerial⟩ :=
      segue.prima lt (vivo_ne_unused alive) (.inr isNumbered)
    rw [samePid]
    rw [sameSerial] at isChi
    exact sana.presenti q pre (segue.vivo q lt alive isNumbered)
      (sameFlag.symm.trans isNumbered) r registered isChi
  · rw [sameNames]
    exact fun i lt j insideJ aliveI aliveJ same => sana.una i lt j insideJ
      (segue.viva sana.toNumerati aliveI) (segue.viva sana.toNumerati aliveJ) same
  · rw [sameHistory]
    exact sana.prefissi

theorem Sana.conPosto (sana : c.Sana) (changes : Cambia c p posto) : (c.conPosto p posto).Sana := by
  refine sana.segue ⟨⟨rfl, rfl⟩, ⟨rfl, rfl⟩, fun q lt used => ?_, fun q _ alive isNumbered => ?_⟩
  · by_cases mine : q = p
    · rw [mine, conPosto_self] at used ⊢
      exact (changes.usato used).imp_left fun same => ⟨mine ▸ lt, same⟩
    · rw [conPosto_other c mine] at used ⊢
      exact .inl ⟨lt, used, rfl, rfl, rfl⟩
  · by_cases mine : q = p
    · rw [mine, conPosto_self] at alive isNumbered
      rw [mine]
      exact changes.vivo alive isNumbered
    · rw [conPosto_other c mine] at alive
      exact alive

theorem Sana.cresce (sana : c.Sana) (posti : Nat) : (c.passo (.cresce posti)).Sana := by
  have old : ∀ p, ((c.passo (.cresce posti)).proc p).stato ≠ .unused →
      p < c.posti ∧ (c.passo (.cresce posti)).proc p = c.proc p := by
    intro p used
    by_cases lt : p < c.posti
    · exact ⟨lt, if_pos lt⟩
    · exact absurd (congrArg (fun posto : Posto => posto.stato) (if_neg lt)) used
  refine sana.segue ⟨⟨rfl, rfl⟩, ⟨rfl, rfl⟩, fun q _ used => ?_, fun q _ alive _ => ?_⟩
  · obtain ⟨lt, same⟩ := old q used
    rw [same] at used ⊢
    exact .inl ⟨lt, used, rfl, rfl, rfl⟩
  · rw [(old q (vivo_ne_unused alive)).2] at alive
    exact alive

theorem Sana.numera (sana : c.Sana) (p : Nat) (uid : UInt32) (few : c.nati + 1 < 2 ^ 31) :
    Sana { c.conPosto p
        { c.proc p with pid := c.nextPid, uid := uid, numerato := true, seriale := c.nati } with
      nextPid := c.nextPid + 1
      nati := c.nati + 1 } := by
  generalize isPosto : { c.proc p with
    pid := c.nextPid, uid := uid, numerato := true, seriale := c.nati } = posto
  have isPid : posto.pid = c.nextPid := by rw [← isPosto]
  have isSerial : posto.seriale = c.nati := by rw [← isPosto]
  have isNumbered : posto.numerato = true := by rw [← isPosto]
  have isNext := sana.nextPid
  -- The pid is above all that were given before.
  have fresh : ∀ q < c.posti, (c.proc q).stato ≠ .unused → (c.proc q).pid ≠ c.nextPid := by
    intro q insideQ used same
    cases flag : (c.proc q).numerato with
    | true =>
      obtain ⟨isPidQ, older⟩ := sana.numerati q insideQ used flag
      rw [same] at isPidQ
      omega
    | false =>
      rw [sana.senza q insideQ used flag] at same
      rw [← same] at isNext
      exact absurd isNext (by simp)
  have living : ∀ i < ipcNomiMax, Viva
      { c.conPosto p posto with nextPid := c.nextPid + 1, nati := c.nati + 1 } (c.nomi i) →
      c.Viva (c.nomi i) := by
    rintro i insideI ⟨hasPid, q, insideQ, isPidQ, alive⟩
    by_cases mine : q = p
    · rw [mine, conPosto_self, isPid] at isPidQ
      obtain ⟨isChi, r, registered, sameChi, _⟩ := sana.voci i insideI hasPid
      have older := sana.nati r registered
      rw [← isPidQ] at isChi
      omega
    · rw [conPosto_other c mine] at isPidQ alive
      exact ⟨hasPid, q, insideQ, isPidQ, alive⟩
  refine ⟨⟨?_, few, ?_, ?_, ?_⟩, sana.voci, ?_, ?_, ?_, sana.prefissi⟩
  · show (c.nextPid + 1).toNat = c.nati + 1 + 1
    have one : (1 : UInt32).toNat = 1 := rfl
    rw [UInt32.toNat_add]
    omega
  · intro q insideQ used flag
    by_cases mine : q = p
    · rw [mine, conPosto_self, isPid, isSerial]
      exact ⟨isNext, Nat.lt_succ_self _⟩
    rw [conPosto_other c mine] at used flag ⊢
    obtain ⟨isPidQ, older⟩ := sana.numerati q insideQ used flag
    exact ⟨isPidQ, Nat.lt_succ_of_lt older⟩
  · intro q insideQ used flag
    by_cases mine : q = p
    · rw [mine, conPosto_self, isNumbered] at flag
      simp at flag
    · rw [conPosto_other c mine] at used flag ⊢
      exact sana.senza q insideQ used flag
  · intro q insideQ r insideR usedQ usedR hasPid same
    by_cases mineQ : q = p
    · by_cases mineR : r = p
      · rw [mineQ, mineR]
      · rw [mineQ, conPosto_self, conPosto_other c mineR, isPid] at same
        rw [conPosto_other c mineR] at usedR
        exact absurd same.symm (fresh r insideR usedR)
    · rw [conPosto_other c mineQ] at usedQ hasPid same
      by_cases mineR : r = p
      · rw [mineR, conPosto_self, isPid] at same
        exact absurd same (fresh q insideQ usedQ)
      · rw [conPosto_other c mineR] at usedR same
        exact sana.unici q insideQ r insideR usedQ usedR hasPid same
  · exact fun r registered => Nat.lt_succ_of_lt (sana.nati r registered)
  · intro q insideQ alive flag r registered isChi
    by_cases mine : q = p
    · rw [mine, conPosto_self] at isChi
      have older := sana.nati r registered
      omega
    · rw [conPosto_other c mine] at alive flag isChi ⊢
      exact sana.presenti q insideQ alive flag r registered isChi
  · exact fun i insideI j insideJ aliveI aliveJ same =>
      sana.una i insideI j insideJ (living i insideI aliveI) (living j insideJ aliveJ) same

theorem Sana.scrivi (sana : c.Sana) (lt : self < c.posti)
    (alive : (c.proc self).stato.vivo = true) (isNumbered : (c.proc self).numerato = true)
    (absent : c.cercaNome name = none) (free : c.voceLibera = some i)
    (allowed : (c.proc self).uid ≠ 0 → atteso (c.proc self).uid <+: testo name) :
    (c.scrivi self i name).Sana := by
  obtain ⟨insideI, dead⟩ := sana.toNumerati.voceLibera_some free
  have used := vivo_ne_unused alive
  obtain ⟨isPid, older⟩ := sana.numerati self lt used isNumbered
  have mine : (c.scrivi self i name).nomi i =
      { pid := (c.proc self).pid
        nome := copiaNome (c.nomi i).nome name 0 ipcNameLen
        chi := (c.proc self).seriale } := update_self _ _ _
  have other : ∀ j, j ≠ i → (c.scrivi self i name).nomi j = c.nomi j :=
    fun j ne => update_of_ne ne _ _
  refine ⟨{ sana with }, ?_, ?_, ?_, ?_, ?_⟩
  · intro j insideJ hasPid
    by_cases isI : j = i
    · rw [isI, mine]
      exact ⟨isPid, _, mem_append_right _ mem_cons_self, rfl, testo_copiaNome.symm⟩
    · rw [other j isI] at hasPid ⊢
      obtain ⟨isChi, r, registered, same⟩ := sana.voci j insideJ hasPid
      exact ⟨isChi, r, mem_append_left _ registered, same⟩
  · intro r registered
    rcases mem_append.mp registered with old | new
    · exact sana.nati r old
    · rw [mem_singleton.mp new]
      exact older
  · intro q insideQ aliveQ flagQ r registered isChi
    rcases mem_append.mp registered with old | new
    · obtain ⟨j, insideJ, samePid, sameName⟩ := sana.presenti q insideQ aliveQ flagQ r old isChi
      have kept : j ≠ i := by
        intro isI
        rw [isI] at samePid
        have hasPid := sana.toNumerati.pid_ne_zero insideQ (vivo_ne_unused aliveQ) flagQ
        exact dead ⟨by rw [samePid]; exact hasPid, q, insideQ, samePid.symm, aliveQ⟩
      refine ⟨j, insideJ, ?_⟩
      rw [other j kept]
      exact ⟨samePid, sameName⟩
    · rw [mem_singleton.mp new] at isChi ⊢
      obtain ⟨isPidQ, _⟩ := sana.numerati q insideQ (vivo_ne_unused aliveQ) flagQ
      have samePid : (c.proc q).pid = (c.proc self).pid := by
        apply UInt32.toNat_inj.mp
        rw [isPidQ, isPid]
        exact congrArg (· + 1) isChi.symm
      refine ⟨i, insideI, ?_⟩
      rw [mine]
      exact ⟨samePid.symm, testo_copiaNome⟩
  · have absentFor : ∀ j < ipcNomiMax, j ≠ i → (c.scrivi self i name).Viva (c.nomi j) →
        testo (c.nomi j).nome ≠ testo name :=
      fun j insideJ _ aliveJ => sana.toNumerati.cercaNome_none absent insideJ aliveJ
    intro j insideJ k insideK aliveJ aliveK same
    by_cases isJ : j = i
    · by_cases isK : k = i
      · rw [isJ, isK]
      · rw [other k isK] at aliveK same
        rw [isJ, mine, testo_copiaNome] at same
        exact absurd same.symm (absentFor k insideK isK aliveK)
    · rw [other j isJ] at aliveJ same
      by_cases isK : k = i
      · rw [isK, mine, testo_copiaNome] at same
        exact absurd same (absentFor j insideJ isJ aliveJ)
      · rw [other k isK] at aliveK same
        exact sana.una j insideJ k insideK aliveJ aliveK same
  · intro r registered
    rcases mem_append.mp registered with old | new
    · exact sana.prefissi r old
    · rw [mem_singleton.mp new]
      exact allowed

/-- A refused registration changes nothing, and an accepted one writes a free
entry with a name that is allowed and not taken. -/
theorem ipcRegister_cases (c : Anagrafe) {name : Option Stringa} :
    ((c.ipcRegister self name).1 = c ∧ ∃ e, (c.ipcRegister self name).2 = .error e) ∨
      ∃ text i, name = some text ∧ c.ipcRegister self name = (c.scrivi self i text, .ok ()) ∧
        c.cercaNome text = none ∧ c.voceLibera = some i ∧
        ((c.proc self).uid ≠ 0 → atteso (c.proc self).uid <+: testo text) := by
  cases name with
  | none => exact .inl ⟨rfl, _, rfl⟩
  | some text =>
    rw [ipcRegister]
    split
    · exact .inl ⟨rfl, _, rfl⟩
    split
    · exact .inl ⟨rfl, _, rfl⟩
    split
    · exact .inl ⟨rfl, _, rfl⟩
    rename_i absent
    split
    · exact .inl ⟨rfl, _, rfl⟩
    rename_i allowed
    split
    · exact .inl ⟨rfl, _, rfl⟩
    rename_i i free
    refine .inr ⟨text, i, rfl, rfl, absent, free, ?_⟩
    intro user
    have agrees : combacia text 0 (atteso (c.proc self).uid) = true := by
      cases agrees : combacia text 0 (atteso (c.proc self).uid) with
      | true => rfl
      | false => exact absurd ⟨user, agrees⟩ allowed
    exact combacia_prefix text 0 agrees (atteso_nonzero user) (atteso_length user)

theorem Sana.ipcRegister (sana : c.Sana) (name : Option Stringa)
    (lt : self < c.posti) (alive : (c.proc self).stato.vivo = true)
    (isNumbered : (c.proc self).numerato = true) : (c.ipcRegister self name).1.Sana := by
  rcases c.ipcRegister_cases with
    ⟨same, _⟩ | ⟨text, i, _, isResult, absent, free, allowed⟩
  · rw [same]
    exact sana
  · rw [isResult]
    exact sana.scrivi lt alive isNumbered absent free allowed

theorem Sana.ipcCleanupProcess (sana : c.Sana) (lt : p < c.posti)
    (dead : (c.proc p).stato = .zombie) : (c.ipcCleanupProcess (c.proc p).pid).Sana := by
  -- An entry still in use has not been touched.
  have kept : ∀ i, ((c.ipcCleanupProcess (c.proc p).pid).nomi i).pid ≠ 0 →
      (c.ipcCleanupProcess (c.proc p).pid).nomi i = c.nomi i := by
    intro i hasPid
    by_cases mine : (c.nomi i).pid = (c.proc p).pid
    · exact absurd (congrArg Voce.pid (if_pos mine)) hasPid
    · exact if_neg mine
  refine ⟨{ sana with }, ?_, sana.nati, ?_, ?_, sana.prefissi⟩
  · intro i insideI hasPid
    have same := kept i hasPid
    rw [same] at hasPid ⊢
    exact sana.voci i insideI hasPid
  · intro q insideQ alive flag r registered isChi
    obtain ⟨i, insideI, samePid, sameName⟩ := sana.presenti q insideQ alive flag r registered isChi
    have used := vivo_ne_unused alive
    have hasPid := sana.toNumerati.pid_ne_zero insideQ used flag
    have notMine : (c.nomi i).pid ≠ (c.proc p).pid := by
      intro mine
      have same : q = p := sana.unici q insideQ p lt used (by rw [dead]; simp) hasPid
        (samePid.symm.trans mine)
      have aliveThen : (c.proc q).stato.vivo = true := alive
      rw [same, dead] at aliveThen
      simp [Stato.vivo] at aliveThen
    have isEntry : (c.ipcCleanupProcess (c.proc p).pid).nomi i = c.nomi i := if_neg notMine
    refine ⟨i, insideI, ?_⟩
    rw [isEntry]
    exact ⟨samePid, sameName⟩
  · intro i insideI j insideJ aliveI aliveJ same
    have isI := kept i aliveI.1
    have isJ := kept j aliveJ.1
    rw [isI] at aliveI same
    rw [isJ] at aliveJ same
    exact sana.una i insideI j insideJ aliveI aliveJ same

/-! ## Runs -/

/-- A pid is given only while there are fewer than the signed numbers. -/
def Pochi (c : Anagrafe) : EventoNomi → Prop
  | .numera _ _ => c.nati + 1 < 2 ^ 31
  | _ => True

theorem Sana.passo (sana : c.Sana) {evento : EventoNomi} (few : c.Pochi evento) :
    (c.passo evento).Sana := by
  cases evento with
  | cresce posti => exact sana.cresce posti
  | alloca =>
    rw [Anagrafe.passo]
    split
    · exact sana
    · exact sana.conPosto ⟨fun _ => .inr ⟨rfl, rfl⟩,
        fun _ noNumber => by simp [Posto.vuoto] at noNumber⟩
  | numera p uid =>
    rw [Anagrafe.passo]
    split
    · exact sana.numera p uid few
    · exact sana
  | fallisce p =>
    rw [Anagrafe.passo]
    split
    · exact sana.conPosto ⟨fun used => absurd rfl used, fun alive => by simp [Stato.vivo] at alive⟩
    · exact sana
  | setuid p uid =>
    rw [Anagrafe.passo]
    split
    · next guard =>
      exact sana.conPosto
        ⟨fun _ => .inl ⟨vivo_ne_unused guard.2, rfl, rfl, rfl⟩, fun _ _ => guard.2⟩
    · exact sana
  | registra p name =>
    rw [Anagrafe.passo]
    split
    · next guard =>
      exact sana.ipcRegister name guard.1 (by rw [guard.2.1]; rfl) guard.2.2
    · exact sana
  | ripulisce p =>
    rw [Anagrafe.passo]
    split
    · next guard =>
      have dead : (c.proc p).stato ≠ .unused := by
        rw [guard.2]
        simp
      exact (sana.ipcCleanupProcess guard.1 guard.2).conPosto
        ⟨fun _ => .inl ⟨dead, rfl, rfl, rfl⟩, fun alive _ => alive⟩
    · exact sana
  | libera p =>
    rw [Anagrafe.passo]
    split
    · exact sana.conPosto ⟨fun used => absurd rfl used, fun alive => by simp [Stato.vivo] at alive⟩
    · exact sana
  | _ =>
    rw [Anagrafe.passo]
    split
    · next guard =>
      exact sana.conPosto
        ⟨fun _ => .inl ⟨vivo_ne_unused guard.2.1, rfl, rfl, rfl⟩, fun _ _ => guard.2.1⟩
    · exact sana

theorem Iniziale.sana (start : c.Iniziale) : c.Sana := by
  obtain ⟨empty, noNames, isNext, zero, nothing⟩ := start
  have free : ∀ {holds : Prop}, ∀ p < c.posti, (c.proc p).stato ≠ .unused → holds := by
    intro holds p lt used
    rw [empty p lt] at used
    exact absurd rfl used
  have noEntry : ∀ {holds : Prop}, ∀ i < ipcNomiMax, (c.nomi i).pid ≠ 0 → holds :=
    fun i lt hasPid => absurd (noNames i lt) hasPid
  refine ⟨⟨?_, ?_, fun p lt used _ => free p lt used, fun p lt used _ => free p lt used,
    fun p lt _ _ used _ _ _ => free p lt used⟩, fun i lt hasPid => noEntry i lt hasPid, ?_,
    fun p lt alive _ _ _ _ => free p lt (vivo_ne_unused alive),
    fun i lt _ _ alive _ _ => noEntry i lt alive.1, ?_⟩
  · rw [isNext, zero]
    rfl
  · rw [zero]
    decide
  · simp [nothing]
  · simp [nothing]

def Corsa (ammesso : Anagrafe → EventoNomi → Prop) : Anagrafe → Prop :=
  Reached Iniziale fun c evento c' => ammesso c evento ∧ c' = c.passo evento

theorem Corsa.sana (corsa : Corsa Pochi c) : c.Sana :=
  Reached.invariant Sana (fun _ => Iniziale.sana) (fun pre evento after good taken => by
      rw [taken.2]
      exact good.passo taken.1) corsa

theorem Corsa.poi {ammesso : Anagrafe → EventoNomi → Prop} (corsa : Corsa ammesso c)
    (evento : EventoNomi) (admitted : ammesso c evento) : Corsa ammesso (c.passo evento) :=
  Reached.next corsa ⟨admitted, rfl⟩

/-- A live process that has registered this name. -/
def Registrante (c : Anagrafe) (p : Nat) (nome : List UInt8) : Prop :=
  p < c.posti ∧ (c.proc p).stato.vivo = true ∧ (c.proc p).numerato = true ∧
    ∃ r ∈ c.registrati, r.chi = (c.proc p).seriale ∧ r.nome = nome

theorem toInt_of_small {pid : UInt32} (small : pid.toNat < 2 ^ 31) :
    pid.toInt32.toInt = (pid.toNat : Int) := by
  apply BitVec.toInt_eq_toNat_of_lt
  show 2 * pid.toNat < 2 ^ 32
  omega

theorem Sana.cercaNome_some (sana : c.Sana) (found : c.cercaNome name = some i) :
    ∃ p, c.Registrante p (testo name) ∧
      (c.nomi i).pid.toInt32.toInt = ((c.proc p).pid.toNat : Int) := by
  obtain ⟨lt, ⟨hasPid, p, insideP, isPid, alive⟩, sameName⟩ := sana.toNumerati.cercaNome_some found
  have used := vivo_ne_unused alive
  have flag := sana.toNumerati.numerato insideP used (isPid ▸ hasPid)
  obtain ⟨isSerial, older⟩ := sana.numerati p insideP used flag
  obtain ⟨isChi, r, registered, sameChi, isName⟩ := sana.voci i lt hasPid
  rw [isPid] at isSerial
  have isWriter : r.chi = (c.proc p).seriale := by omega
  refine ⟨p, ⟨insideP, alive, flag, r, registered, isWriter, isName.trans sameName⟩, ?_⟩
  rw [isPid]
  apply toInt_of_small
  have few := sana.pochi
  omega

theorem Sana.cercaNome_none (sana : c.Sana) (absent : c.cercaNome name = none)
    (p : Nat) : ¬c.Registrante p (testo name) := by
  rintro ⟨lt, alive, flag, r, registered, isChi, isName⟩
  obtain ⟨i, insideI, samePid, sameName⟩ := sana.presenti p lt alive flag r registered isChi
  have hasPid := sana.toNumerati.pid_ne_zero lt (vivo_ne_unused alive) flag
  exact sana.toNumerati.cercaNome_none absent insideI
    ⟨by rw [samePid]; exact hasPid, p, lt, samePid.symm, alive⟩ (sameName.trans isName)

/-- As long as fewer than `2 ^ 31` pids have been given: at most one live entry has
a name; a name finds the live process that registered it, and is not found when
there is none; the names of the users start with their decimal number and a
colon; a refused registration changes nothing. -/
theorem corsa_nomi (corsa : Corsa Pochi c) :
    (∀ i < ipcNomiMax, ∀ j < ipcNomiMax, c.voceViva (c.nomi i) = true →
      c.voceViva (c.nomi j) = true → testo (c.nomi i).nome = testo (c.nomi j).nome → i = j) ∧
    (∀ name : Stringa, name 0 ≠ 0 → (∃ p, c.Registrante p (testo name) ∧
          c.ipcLookup (some name) = .ok ((c.proc p).pid.toNat : Int)) ∨
        (∀ p, ¬c.Registrante p (testo name)) ∧ c.ipcLookup (some name) = .error .enoent) ∧
    (∀ r ∈ c.registrati, r.uid ≠ 0 →
      (Nat.digits 10 r.uid.toNat).reverse.map (fun d => UInt8.ofNat (48 + d)) ++ [58] <+: r.nome) ∧
    ∀ self name e, (c.ipcRegister self name).2 = .error e → (c.ipcRegister self name).1 = c := by
  have sana := corsa.sana
  refine ⟨?_, ?_, ?_, ?_⟩
  · intro i insideI j insideJ aliveI aliveJ same
    exact sana.una i insideI j insideJ (sana.voceViva_iff.mp aliveI)
      (sana.voceViva_iff.mp aliveJ) same
  · intro name started
    rw [ipcLookup, if_neg started]
    cases found : c.cercaNome name with
    | none => exact .inr ⟨sana.cercaNome_none found, rfl⟩
    | some i =>
      obtain ⟨p, registrant, isPid⟩ := sana.cercaNome_some found
      exact .inl ⟨p, registrant, congrArg Except.ok isPid⟩
  · intro r registered user
    rw [← atteso_eq user]
    exact sana.prefissi r registered user
  · intro self name e refused
    rcases c.ipcRegister_cases with ⟨same, _⟩ | ⟨_, _, _, isResult, _⟩
    · exact same
    · rw [isResult] at refused
      simp at refused

def vuota : Anagrafe where
  posti := 2
  proc := fun _ => Posto.vuoto
  nomi := fun _ => { pid := 0, nome := fun _ => 0, chi := 0 }
  nextPid := 1
  nati := 0
  registrati := []

theorem vuota_iniziale : vuota.Iniziale := ⟨fun _ _ => rfl, fun _ _ => rfl, rfl, rfl, rfl⟩

def nomeA : Stringa := fun i => if i = 0 then 97 else 0

/-- Two processes are born; the second one, pid 2, registers a name. -/
def registrata : Anagrafe :=
  (((((vuota.passo .alloca).passo (.numera 0 0)).passo .alloca).passo (.numera 1 0)).passo
    (.muta 1 .running)).passo (.registra 1 (some nomeA))

theorem registrata_corsa : Corsa Pochi registrata := by
  have started : Corsa Pochi vuota := Reached.start vuota_iniziale
  have fst := (started.poi .alloca trivial).poi (.numera 0 0)
    (by decide : (vuota.passo .alloca).nati + 1 < 2 ^ 31)
  have snd := (fst.poi .alloca trivial).poi (.numera 1 0)
    (by decide : (((vuota.passo .alloca).passo (.numera 0 0)).passo .alloca).nati + 1 < 2 ^ 31)
  exact (snd.poi (.muta 1 .running) trivial).poi (.registra 1 (some nomeA)) trivial

theorem corsa_nomi_registrata :
    registrata.ipcLookup (some nomeA) = .ok 2 ∧ ∃ p, registrata.Registrante p (testo nomeA) := by
  have isTwo : registrata.ipcLookup (some nomeA) = .ok 2 := by decide +kernel
  refine ⟨isTwo, ?_⟩
  rcases (corsa_nomi registrata_corsa).2.1 nomeA (by decide) with
    ⟨p, registrant, _⟩ | ⟨_, absent⟩
  · exact ⟨p, registrant⟩
  · rw [isTwo] at absent
    simp at absent

/-! ## A pid given twice -/

/-- The first slot is free again, the process of the second one, pid 2, is a
zombie whose name is still in the table, and `3 + k` pids have been passed. -/
structure Giro (k : Nat) (c : Anagrafe) : Prop where
  posti : c.posti = 2
  libero : (c.proc 0).stato = .unused
  zombie : (c.proc 1).stato = .zombie
  pid : (c.proc 1).pid = 2
  voce : (c.nomi 0).pid = 2 ∧ testo (c.nomi 0).nome = testo nomeA
  nextPid : c.nextPid = UInt32.ofNat (3 + k)
  nati : c.nati = 2 + k
  registrati : c.registrati = [⟨1, 0, testo nomeA⟩]

def nato (c : Anagrafe) : Anagrafe := (c.passo .alloca).passo (.numera 0 0)

def morto (c : Anagrafe) : Anagrafe := ((c.passo (.esce 0)).passo (.ripulisce 0)).passo (.libera 0)

theorem morto_eq (pos : 0 < c.posti) (alive : (c.proc 0).stato.vivo = true)
    (flag : (c.proc 0).numerato = true) :
    c.morto = (c.ipcCleanupProcess (c.proc 0).pid).conPosto 0
      { c.proc 0 with stato := .unused, pid := 0, raccolto := true } := by
  have exits : c.passo (.esce 0) = c.conPosto 0 { c.proc 0 with stato := .zombie } := by
    rw [Anagrafe.passo, if_pos ⟨pos, alive, flag⟩]
  have cleaned : (c.passo (.esce 0)).passo (.ripulisce 0) =
      (c.ipcCleanupProcess (c.proc 0).pid).conPosto 0
        { c.proc 0 with stato := .zombie, raccolto := true } := by
    rw [exits, Anagrafe.passo, if_pos ⟨pos, rfl⟩]
    simp only [conPosto, ipcCleanupProcess, update_idem]
    rfl
  rw [morto, cleaned, Anagrafe.passo, conPosto_self, if_pos ⟨pos, rfl, rfl⟩]
  simp only [conPosto, update_idem]

section

variable (turn : Giro k c)

include turn

theorem Giro.primoLibero : c.primoLibero = some 0 := by
  apply List.find?_range_eq_some.mpr
  refine ⟨by rw [turn.libero]; rfl, ?_, by simp⟩
  rw [turn.posti]
  decide

theorem Giro.nato_eq : c.nato = { c.conPosto 0 { Posto.vuoto with
            stato := .nascente, pid := c.nextPid, numerato := true, seriale := c.nati } with
        nextPid := c.nextPid + 1
        nati := c.nati + 1 } := by
  have taken : c.passo .alloca = c.conPosto 0 { Posto.vuoto with stato := .nascente } := by
    rw [Anagrafe.passo, turn.primoLibero]
  rw [nato, taken, Anagrafe.passo, if_pos]
  · simp only [conPosto, update_idem]
    rfl
  · refine ⟨?_, rfl, rfl⟩
    show 0 < c.posti
    rw [turn.posti]
    decide

theorem Giro.nato_second : c.nato.proc 1 = c.proc 1 := by
  rw [turn.nato_eq]
  exact conPosto_other c Nat.one_ne_zero
    { Posto.vuoto with stato := .nascente, pid := c.nextPid, numerato := true, seriale := c.nati }

theorem Giro.nato_first : c.nato.proc 0 = { Posto.vuoto with
        stato := .nascente, pid := c.nextPid, numerato := true, seriale := c.nati } := by
  rw [turn.nato_eq]
  exact conPosto_self c 0 _

theorem Giro.nato_posti : c.nato.posti = 2 := by
  rw [turn.nato_eq]
  exact turn.posti

theorem Giro.avanti (below : k + 1 < 2 ^ 32) : Giro (k + 1) c.nato.morto := by
  have born := turn.nato_eq
  have isPosto := turn.nato_first
  have isPosti := turn.nato_posti
  have died := morto_eq (c := c.nato) (by rw [isPosti]; decide) (by rw [isPosto]; rfl)
    (by rw [isPosto])
  have snd : c.nato.morto.proc 1 = c.proc 1 := by
    rw [died]
    exact turn.nato_second
  -- The name of the zombie is not given back: its pid is another.
  have notTwo : c.nextPid ≠ 2 := by
    rw [turn.nextPid]
    intro same
    have values := congrArg UInt32.toNat same
    rw [UInt32.toNat_ofNat'] at values
    have two : (2 : UInt32).toNat = 2 := rfl
    omega
  have sameName : c.nato.morto.nomi 0 = c.nomi 0 := by
    rw [died]
    show (if (c.nato.nomi 0).pid = (c.nato.proc 0).pid then _ else c.nato.nomi 0) = c.nomi 0
    rw [born, if_neg]
    · rfl
    · show (c.nomi 0).pid ≠ c.nextPid
      rw [turn.voce.1]
      exact notTwo.symm
  refine ⟨?_, ?_, ?_, ?_, ?_, ?_, ?_, ?_⟩
  · rw [died]
    exact isPosti
  · rw [died, conPosto_self]
  · rw [snd]
    exact turn.zombie
  · rw [snd]
    exact turn.pid
  · rw [sameName]
    exact turn.voce
  · rw [died, born]
    show c.nextPid + 1 = _
    rw [turn.nextPid]
    apply UInt32.toNat_inj.mp
    rw [UInt32.toNat_add, UInt32.toNat_ofNat', UInt32.toNat_ofNat']
    have one : (1 : UInt32).toNat = 1 := rfl
    omega
  · rw [died, born]
    show c.nati + 1 = _
    rw [turn.nati]
    omega
  · rw [died, born]
    exact turn.registrati

end

/-- Both processes die, the first one is collected. -/
def giroZero : Anagrafe := (registrata.passo (.esce 1)).morto

theorem giro_raggiunto (k : Nat) (below : k < 2 ^ 32) :
    ∃ c, Corsa (fun _ _ => True) c ∧ Giro k c := by
  induction k with
  | zero =>
    have registered : Corsa (fun _ _ => True) registrata :=
      Reached.invariant (Corsa fun _ _ => True) (fun _ => Reached.start)
        (fun pre evento after good taken => by
          rw [taken.2]
          exact good.poi evento trivial) registrata_corsa
    have dead := registered.poi (.esce 1) trivial
    have corsa : Corsa (fun _ _ => True) giroZero :=
      ((dead.poi (.esce 0) trivial).poi (.ripulisce 0) trivial).poi (.libera 0) trivial
    exact ⟨giroZero, corsa, by decide +kernel, by decide +kernel, by decide +kernel,
      by decide +kernel, by decide +kernel, by decide +kernel, by decide +kernel, rfl⟩
  | succ k ih =>
    obtain ⟨c, corsa, turn⟩ := ih (Nat.lt_of_succ_lt below)
    have born : Corsa (fun _ _ => True) c.nato :=
      (corsa.poi .alloca trivial).poi (.numera 0 0) trivial
    have died : Corsa (fun _ _ => True) c.nato.morto :=
      ((born.poi (.esce 0) trivial).poi (.ripulisce 0) trivial).poi (.libera 0) trivial
    exact ⟨c.nato.morto, died, turn.avanti below⟩

/-- After the counter has gone round, the name of a dead process finds a new one
that has its pid. -/
theorem nome_di_un_altro : ∃ c, Corsa (fun _ _ => True) c ∧ c.ipcLookup (some nomeA) = .ok 2 ∧
      ∀ p, ¬c.Registrante p (testo nomeA) := by
  obtain ⟨c, corsa, turn⟩ := giro_raggiunto (2 ^ 32 - 1) (by decide)
  have born := turn.nato_eq
  have isTwo : c.nextPid = 2 := by
    rw [turn.nextPid]
    decide
  have isPosto := turn.nato_first
  have isPosti := turn.nato_posti
  have isName : c.nato.nomi 0 = c.nomi 0 := by rw [born]; rfl
  refine ⟨c.nato, (corsa.poi .alloca trivial).poi (.numera 0 0) trivial, ?_, ?_⟩
  · have fst : procGetByPid c.nato.posti (fun i => (c.nato.proc i).toScheda) 2 = some 0 := by
      apply List.find?_range_eq_some.mpr
      refine ⟨decide_eq_true ?_, ?_, by simp⟩
      · show (c.nato.proc 0).pid = 2 ∧ (c.nato.proc 0).stato ≠ .unused
        rw [isPosto]
        exact ⟨isTwo, by simp⟩
      · rw [isPosti]
        decide
    have alive : c.nato.voceViva (c.nato.nomi 0) = true := by
      rw [voceViva, isName, turn.voce.1, fst]
      show (c.nato.proc 0).stato.vivo = true
      rw [isPosto]
      rfl
    have found : c.nato.cercaNome nomeA = some 0 := by
      apply List.find?_range_eq_some.mpr
      refine ⟨?_, by decide, by simp⟩
      rw [alive, isName, (nomeUguale_iff _ _).mpr turn.voce.2]
      rfl
    rw [ipcLookup, found]
    show Except.ok (c.nato.nomi 0).pid.toInt32.toInt = _
    rw [isName, turn.voce.1]
    rfl
  · rintro p ⟨inside, aliveP, _, r, registered, isChi, _⟩
    have isRegistered : r = ⟨1, 0, testo nomeA⟩ := by
      rw [born] at registered
      have old : r ∈ c.registrati := registered
      rw [turn.registrati] at old
      exact mem_singleton.mp old
    rw [isRegistered] at isChi
    have either : p = 0 ∨ p = 1 := by omega
    rcases either with zero | isOne
    · rw [zero, isPosto] at isChi
      have late := turn.nati
      have isNati : 1 = c.nati := isChi
      omega
    · rw [isOne, turn.nato_second, turn.zombie] at aliveP
      simp [Stato.vivo] at aliveP

end Anagrafe

end ExOs.Ipc
