import ExOs.Mm.Pmm
import Mathlib.Data.Nat.Bitwise

/-!
# The table of references past the byte

`oltre_trova`, `oltre_aggiungi` and `oltre_togli` keep a map from pages to
numbers of references.
-/

namespace ExOs.Mm

open ExOs.Library ExOs.Library.ProbeTable Function RifOltre

theorem RifOltre.chiave_vuoto : vuoto.chiave = none := rfl

theorem RifOltre.chiave_eq_some {r : RifOltre} {a : Nat} :
    r.chiave = some a ↔ a ≠ 0 ∧ r.pagina = a := by
  unfold chiave
  split
  · next free =>
    constructor
    · simp
    · rintro ⟨nz, same⟩
      exact absurd (same.symm.trans free) nz
  · next free =>
    rw [Option.some.injEq]
    constructor
    · intro same
      exact ⟨same ▸ free, same⟩
    · exact fun both => both.2

namespace Oltre

/-- Slots are a power of two, at most half of them used, and an entry counts at
least one reference. -/
structure Sana (t : Oltre) : Prop where
  potenza : t.posti = 0 ∨ ∃ k, t.posti = 2 ^ k
  corta : t.posti * 16 < 2 ^ 32
  sound : Sound chiave (casa t.posti) t.posti t.slot
  pieni : filled chiave t.posti t.slot ≤ t.usati
  mezza : t.usati * 2 ≤ t.posti
  valori : ∀ a e, Holds chiave t.posti t.slot a e → 0 < e.inPiu ∧ e.inPiu < 2 ^ 32

variable {t : Oltre}

theorem avanti_round {k : Nat} : Round (avanti (2 ^ k)) (2 ^ k) := by
  intro i lt
  rw [avanti, Nat.and_two_pow_sub_one_eq_mod]
  split
  · next last => rw [last, Nat.mod_self]
  · exact Nat.mod_eq_of_lt (by omega)

theorem casa_lt (k a : Nat) : casa (2 ^ k) a < 2 ^ k := by
  rw [casa, Nat.and_two_pow_sub_one_eq_mod]
  exact Nat.mod_lt _ (Nat.two_pow_pos k)

variable {a : Nat} {t' : Oltre}

theorem holds_posti {e : RifOltre}
    (held : Holds chiave t.posti t.slot a e) : t.posti ≠ 0 := by
  obtain ⟨_, q, lt, _⟩ := held
  omega

theorem Sana.nuova : Sana { slot := fun _ => .vuoto, posti := 0, usati := 0 } where
  potenza := .inl rfl
  corta := by decide
  sound := Sound.blank rfl
  pieni := Nat.le_refl 0
  mezza := Nat.le_refl 0
  valori := by
    rintro a e ⟨_, q, lt, _⟩
    exact absurd lt (Nat.not_lt_zero q)

/-- A table with another count for one page. -/
structure Cambia (t t' : Oltre) (a n : Nat) : Prop where
  sana : t'.Sana
  qui : t'.di a = n
  altrove : ∀ b, b ≠ a → t'.di b = t.di b

section

variable (sana : t.Sana) {memoria : Bool}

include sana

theorem Sana.round (used : t.posti ≠ 0) : Round (avanti t.posti) t.posti := by
  obtain ⟨k, isPower⟩ := sana.potenza.resolve_left used
  rw [isPower]
  exact avanti_round

theorem Sana.casa_lt (used : t.posti ≠ 0) (a : Nat) : casa t.posti a < t.posti := by
  obtain ⟨k, isPower⟩ := sana.potenza.resolve_left used
  rw [isPower]
  exact Oltre.casa_lt k a

theorem Sana.trova_eq_some {i : Nat} (found : t.trova a = some i) :
    i < t.posti ∧ (t.slot i).chiave = some a := by
  unfold trova at found
  split at found
  · simp at found
  · next used =>
    exact (sana.sound.find_eq_some_iff (sana.round used) (sana.casa_lt used a)).mp found

theorem Sana.trova_eq_none (missing : t.trova a = none)
    (e : RifOltre) : ¬ Holds chiave t.posti t.slot a e := by
  intro held
  have used := holds_posti held
  unfold trova at missing
  rw [if_neg used] at missing
  exact sana.sound.find_eq_none (sana.round used) (sana.casa_lt used a) missing e held

theorem Sana.di_holds {e : RifOltre}
    (held : Holds chiave t.posti t.slot a e) : t.di a = e.inPiu := by
  unfold di
  cases found : t.trova a with
  | none => exact absurd held (sana.trova_eq_none found e)
  | some i =>
    obtain ⟨lt, keyed⟩ := sana.trova_eq_some found
    rw [sana.sound.entry_unique held ⟨keyed, i, lt, rfl⟩]

theorem Sana.di_absent (absent : ∀ e, ¬ Holds chiave t.posti t.slot a e) : t.di a = 0 := by
  unfold di
  cases found : t.trova a with
  | none => rfl
  | some i =>
    obtain ⟨lt, keyed⟩ := sana.trova_eq_some found
    exact absurd ⟨keyed, i, lt, rfl⟩ (absent (t.slot i))

theorem Sana.di_zero (zero : a = 0) : t.di a = 0 := by
  apply sana.di_absent
  rintro e ⟨keyed, _⟩
  exact (chiave_eq_some.mp keyed).1 zero

theorem Sana.di_congr (sana' : t'.Sana) (same : ∀ e, Holds chiave t'.posti t'.slot a e ↔
      Holds chiave t.posti t.slot a e) : t'.di a = t.di a := by
  by_cases present : ∃ e, Holds chiave t.posti t.slot a e
  · obtain ⟨e, held⟩ := present
    rw [sana.di_holds held, sana'.di_holds ((same e).mpr held)]
  have absent : ∀ e, ¬ Holds chiave t.posti t.slot a e := by
    intro e held
    exact present ⟨e, held⟩
  rw [sana.di_absent absent, sana'.di_absent]
  intro e held
  exact absent e ((same e).mp held)

theorem Sana.riscrivi {i n : Nat} (lt : i < t.posti)
    (keyed : (t.slot i).chiave = some a) (pos : 0 < n) (short : n < 2 ^ 32) :
    Cambia t { t with slot := update t.slot i { t.slot i with inPiu := n } } a n := by
  have same : chiave { t.slot i with inPiu := n } = (t.slot i).chiave := rfl
  have holds := holds_update (e := { t.slot i with inPiu := n }) lt (same.trans keyed)
    (fun p pin pKeyed =>
      sana.sound.distinct p pin i lt a pKeyed keyed)
    (fun k isKey => Option.some.inj (isKey.symm.trans keyed))
  have sana' : Sana { t with
      slot := update t.slot i { t.slot i with inPiu := n } } := by
    refine ⟨sana.potenza, sana.corta, sana.sound.replace same, ?_, sana.mezza, ?_⟩
    · have count := filled_replace (m := t.posti) same
      exact Nat.le_trans (Nat.le_of_eq count) sana.pieni
    · intro b e held
      have was := (holds b e).mp held
      split at was
      · rw [was]
        exact ⟨pos, short⟩
      · exact sana.valori b e was
  refine ⟨sana', ?_, ?_⟩
  · exact sana'.di_holds ((holds a _).mpr (by rw [if_pos rfl]))
  · intro b other
    apply sana.di_congr sana'
    intro e
    have agrees := holds b e
    rwa [if_neg other] at agrees

theorem Sana.doppi : ∃ k, doppi t.posti = 2 ^ k := by
  unfold Oltre.doppi
  by_cases fresh : t.posti = 0
  · exact ⟨6, if_pos fresh⟩
  · obtain ⟨k, isPower⟩ := sana.potenza.resolve_left fresh
    exact ⟨k + 1, by rw [if_neg fresh, isPower, Nat.pow_succ]⟩

theorem Sana.cresci (grown : t.cresci memoria = some t') :
    t'.Sana ∧ t'.posti ≠ 0 ∧ (t'.usati + 1) * 2 ≤ t'.posti ∧
      ∀ a e, Holds chiave t'.posti t'.slot a e ↔
        Holds chiave t.posti t.slot a e := by
  unfold Oltre.cresci at grown
  dsimp only at grown
  split at grown
  · next allowed =>
    injection grown with isT
    have mezza := sana.mezza
    have pieni := sana.pieni
    have larger : (t.usati + 1) * 2 ≤ Oltre.doppi t.posti := by
      unfold Oltre.doppi
      split <;> omega
    obtain ⟨k, isPower⟩ := sana.doppi
    rw [isPower] at isT allowed larger
    obtain ⟨sound, holds, count⟩ := rehash_spec avanti_round
      (Oltre.casa_lt k) chiave_vuoto sana.sound.distinct
      (by omega)
    rw [← isT]
    refine ⟨⟨.inr ⟨k, rfl⟩, allowed.2, sound, ?_, ?_, ?_⟩, ?_, larger, holds⟩
    · exact Nat.le_trans (Nat.le_of_eq count) pieni
    · show t.usati * 2 ≤ 2 ^ k
      omega
    · intro a e held
      exact sana.valori a e ((holds a e).mp held)
    · exact Nat.ne_of_gt (Nat.two_pow_pos k)
  · simp at grown

/-- An entry in the first free slot from its home, when half the slots are
enough with it. -/
theorem Sana.metti (used : t.posti ≠ 0) (room : (t.usati + 1) * 2 ≤ t.posti)
    (absent : ∀ e, ¬ Holds chiave t.posti t.slot a e) :
    let slot := update t.slot
      (firstFree chiave (avanti t.posti) t.slot t.posti (casa t.posti a))
      { pagina := a, inPiu := 1 }
    let t' : Oltre := { t with slot := slot, usati := t.usati + 1 }
    t'.Sana ∧ ∀ b e, Holds chiave t.posti slot b e ↔
      if b = a ∧ a ≠ 0 then e = { pagina := a, inPiu := 1 }
      else Holds chiave t.posti t.slot b e := by
  have pieni := sana.pieni
  obtain ⟨lt, free, path⟩ := firstFree_of_few (sana.round used)
    (by omega : filled chiave t.posti t.slot < t.posti) (sana.casa_lt used a)
  by_cases zero : a = 0
  · -- An entry for page 0 looks like an empty slot.
    have same : chiave { pagina := a, inPiu := 1 } =
        (t.slot (firstFree chiave (avanti t.posti) t.slot t.posti
          (casa t.posti a))).chiave := by
      rw [free, chiave, if_pos zero]
    have holds : ∀ b e, Holds chiave t.posti
        (update t.slot (firstFree chiave (avanti t.posti) t.slot
          t.posti (casa t.posti a)) { pagina := a, inPiu := 1 }) b e ↔
        Holds chiave t.posti t.slot b e := by
      intro b e
      constructor
      · rintro ⟨keyed, p, pin, isE⟩
        refine ⟨keyed, p, pin, ?_⟩
        rw [← isE, update_of_ne]
        intro here
        rw [here, update_self] at isE
        rw [← isE, same, free] at keyed
        simp at keyed
      · rintro ⟨keyed, p, pin, isE⟩
        refine ⟨keyed, p, pin, ?_⟩
        rw [update_of_ne]
        · exact isE
        · intro here
          rw [← isE, here, free] at keyed
          simp at keyed
    refine ⟨⟨sana.potenza, sana.corta, sana.sound.replace same, ?_, room, ?_⟩, ?_⟩
    · have count := filled_replace (m := t.posti) same
      exact Nat.le_trans (Nat.le_of_eq count) (Nat.le_succ_of_le pieni)
    · intro b e held
      exact sana.valori b e ((holds b e).mp held)
    · intro b e
      rw [if_neg (fun both => both.2 zero)]
      exact holds b e
  · have keyed : chiave { pagina := a, inPiu := 1 } = some a :=
      chiave_eq_some.mpr ⟨zero, rfl⟩
    have holds := holds_update lt keyed (fun p pin pKeyed =>
        absurd ⟨pKeyed, p, pin, rfl⟩ (absent (t.slot p)))
      (fun k isKey => by rw [free] at isKey; simp at isKey)
    refine ⟨⟨sana.potenza, sana.corta, sana.sound.insert free keyed absent path, ?_, room, ?_⟩, ?_⟩
    · have count := filled_update (e := { pagina := a, inPiu := 1 }) lt free (by rw [keyed]; rfl)
      exact Nat.le_trans (Nat.le_of_eq count) (Nat.succ_le_succ pieni)
    · intro b e held
      have was := (holds b e).mp held
      split at was
      · rw [was]
        exact ⟨Nat.one_pos, Nat.one_lt_two_pow (by decide)⟩
      · exact sana.valori b e was
    · intro b e
      rw [holds b e]
      simp only [ne_eq, zero, not_false_eq_true, and_true]

theorem Sana.aggiungi (more : t.di a + 1 < 2 ^ 32) (added : t.aggiungi a memoria = some t') :
    Cambia t t' a (if a = 0 then 0 else t.di a + 1) := by
  unfold Oltre.aggiungi at added
  cases found : t.trova a with
  | some i =>
    rw [found] at added
    dsimp only at added
    obtain ⟨lt, keyed⟩ := sana.trova_eq_some found
    have count := sana.di_holds ⟨keyed, i, lt, rfl⟩
    have nz : a ≠ 0 := (chiave_eq_some.mp keyed).1
    split at added
    · simp at added
    injection added with isT
    rw [← isT, if_neg nz, count]
    rw [count] at more
    exact sana.riscrivi lt keyed (Nat.succ_pos _) more
  | none =>
    rw [found] at added
    obtain ⟨t₀, room, isT⟩ := Option.map_eq_some_iff.mp added
    have absent := sana.trova_eq_none found
    have ready : t₀.Sana ∧ t₀.posti ≠ 0 ∧ (t₀.usati + 1) * 2 ≤ t₀.posti ∧
        ∀ b e, Holds chiave t₀.posti t₀.slot b e ↔
          Holds chiave t.posti t.slot b e := by
      split at room
      · exact sana.cresci room
      injection room with same
      rw [← same]
      exact ⟨sana, by omega, by omega, fun _ _ => Iff.rfl⟩
    obtain ⟨sana₀, used, space, holds₀⟩ := ready
    obtain ⟨sana', holds⟩ := sana₀.metti used space (fun e held => absent e ((holds₀ a e).mp held))
    rw [← isT]
    refine ⟨sana', ?_, ?_⟩
    · split
      · next zero =>
        exact sana'.di_zero zero
      rename_i zero
      rw [sana.di_absent absent]
      have held := (holds a { pagina := a, inPiu := 1 }).mpr (by rw [if_pos ⟨rfl, zero⟩])
      rw [sana'.di_holds held]
    · intro b other
      apply sana.di_congr sana'
      intro e
      have agrees := holds b e
      rw [if_neg (fun both => other both.1)] at agrees
      exact agrees.trans (holds₀ b e)

theorem Sana.togli_none (missing : t.togli a = none) : t.di a = 0 := by
  apply sana.di_absent
  apply sana.trova_eq_none
  unfold Oltre.togli at missing
  cases found : t.trova a with
  | none => rfl
  | some i =>
    rw [found] at missing
    dsimp only at missing
    split at missing <;> simp at missing

theorem Sana.togli (taken : t.togli a = some t') : 0 < t.di a ∧ Cambia t t' a (t.di a - 1) := by
  unfold Oltre.togli at taken
  cases found : t.trova a with
  | none =>
    rw [found] at taken
    simp at taken
  | some i =>
    rw [found] at taken
    dsimp only at taken
    obtain ⟨lt, keyed⟩ := sana.trova_eq_some found
    have held : Holds chiave t.posti t.slot a (t.slot i) := ⟨keyed, i, lt, rfl⟩
    obtain ⟨pos, short⟩ := sana.valori a _ held
    have count := sana.di_holds held
    rw [meno_eq pos short] at taken
    rw [count]
    refine ⟨pos, ?_⟩
    split at taken
    · next more =>
      injection taken with isT
      rw [← isT]
      exact sana.riscrivi lt keyed (by omega) (by omega)
    injection taken with isT
    have used : t.posti ≠ 0 := by omega
    have pieni := sana.pieni
    have mezza := sana.mezza
    obtain ⟨sound, holds, fewer⟩ := sana.sound.remove (sana.round used)
      (sana.casa_lt used) chiave_vuoto lt keyed (by omega)
    rw [← isT]
    have sana' : Sana { t with
        slot := closeGap chiave (avanti t.posti) (casa t.posti)
          .vuoto t.posti (update t.slot i .vuoto) i (avanti t.posti i)
        usati := t.usati - 1 } := by
      refine ⟨sana.potenza, sana.corta, sound, ?_, ?_, ?_⟩
      · exact Nat.le_sub_one_of_lt (Nat.lt_of_lt_of_le
          (Nat.lt_of_succ_le (Nat.le_of_eq fewer)) pieni)
      · show (t.usati - 1) * 2 ≤ t.posti
        omega
      · intro b e still
        exact sana.valori b e ((holds b e).mp still).2
    refine ⟨sana', ?_, ?_⟩
    · have absent : (t.slot i).inPiu - 1 = 0 := by omega
      rw [absent]
      apply sana'.di_absent
      intro e still
      exact ((holds a e).mp still).1 rfl
    · intro b other
      apply sana.di_congr sana'
      intro e
      exact (holds b e).trans (and_iff_right other)

theorem Sana.togli_eq_none : t.togli a = none ↔ t.di a = 0 := by
  refine ⟨sana.togli_none, fun absent => ?_⟩
  cases taken : t.togli a with
  | none => rfl
  | some t' =>
    have pos := (sana.togli taken).1
    omega

theorem Sana.aggiungi_eq_none : t.aggiungi a memoria = none ↔ t.di a = 0xFFFFFFFF ∨
      t.di a = 0 ∧ t.posti < (t.usati + 1) * 2 ∧ t.cresci memoria = none := by
  unfold Oltre.aggiungi di
  cases found : t.trova a with
  | some i =>
    obtain ⟨lt, keyed⟩ := sana.trova_eq_some found
    have pos := (sana.valori a _ ⟨keyed, i, lt, rfl⟩).1
    simp only [ite_eq_left_iff, reduceCtorEq, imp_false, not_not]
    omega
  | none =>
    simp only [Option.map_eq_none_iff, reduceCtorEq]
    split <;> simp_all

theorem Sana.di_lt : t.di a < 2 ^ 32 := by
  unfold di
  cases found : t.trova a with
  | none => exact Nat.two_pow_pos 32
  | some i =>
    obtain ⟨lt, keyed⟩ := sana.trova_eq_some found
    exact (sana.valori a _ ⟨keyed, i, lt, rfl⟩).2

theorem Sana.trova_eq : (t.trova a).map t.slot = if t.di a = 0 then none else some ⟨a, t.di a⟩ := by
  unfold di
  cases found : t.trova a with
  | none => rfl
  | some i =>
    obtain ⟨lt, keyed⟩ := sana.trova_eq_some found
    have pos := (sana.valori a _ ⟨keyed, i, lt, rfl⟩).1
    dsimp only [Option.map_some]
    rw [if_neg (Nat.ne_of_gt pos), ← (chiave_eq_some.mp keyed).2]

end

/-! ## Runs of the table -/

inductive Mossa where
  | aggiungi (a : Nat) (memoria : Bool)
  | togli (a : Nat)

def Mossa.pagina : Mossa → Nat
  | .aggiungi a _ | .togli a => a

/-- The table beside a map from pages to counts.  A call that fails returns
before it has stored anything. -/
def segui : Oltre × (Nat → Nat) → Mossa → Oltre × (Nat → Nat)
  | (t, conto), .aggiungi a memoria =>
    match t.aggiungi a memoria with
    | some t' => (t', update conto a (conto a + 1))
    | none => (t, conto)
  | (t, conto), .togli a => ((t.togli a).getD t, update conto a (conto a - 1))

/-- From every slot the probing meets an empty one. -/
def Incontra (posti : Nat) (slot : Nat → RifOltre) : Prop := ∀ i < posti,
  (slot (firstFree chiave (avanti posti) slot posti i)).chiave = none

/-- The table stands for the map `conto`: its calls answer by it, and their
loops end on an empty slot, in the table, in each table of a growth and behind
a removed entry. -/
structure Rappresenta (t : Oltre) (conto : Nat → Nat) : Prop where
  trova : ∀ a ≠ 0, (t.trova a).map t.slot = if conto a = 0 then none else some ⟨a, conto a⟩
  aggiungi : ∀ a ≠ 0, ∀ memoria, t.aggiungi a memoria = none ↔ conto a = 0xFFFFFFFF ∨
    conto a = 0 ∧ t.posti < (t.usati + 1) * 2 ∧ t.cresci memoria = none
  togli : ∀ a ≠ 0, t.togli a = none ↔ conto a = 0
  sonde : Incontra t.posti t.slot
  crescita : ∀ n ≤ t.posti, Incontra (doppi t.posti) (rehash chiave
    (avanti (doppi t.posti)) (casa (doppi t.posti)) .vuoto (doppi t.posti) t.slot n)
  chiusura : ∀ i < t.posti, (t.slot i).pagina ≠ 0 → gapCloses chiave (avanti t.posti)
    (casa t.posti) .vuoto t.posti (update t.slot i .vuoto) i (avanti t.posti i)

theorem Sana.rappresenta (sana : t.Sana) {conto : Nat → Nat}
    (same : ∀ a ≠ 0, t.di a = conto a) : Rappresenta t conto := by
  have mezza := sana.mezza
  have pieni := sana.pieni
  refine ⟨?_, ?_, ?_, ?_, ?_, ?_⟩
  · intro a nz
    rw [← same a nz]
    exact sana.trova_eq
  · intro a nz memoria
    rw [← same a nz]
    exact sana.aggiungi_eq_none
  · intro a nz
    rw [← same a nz]
    exact sana.togli_eq_none
  · intro i lt
    exact (firstFree_of_few (sana.round (by omega)) (by omega) lt).2.1
  · intro n small i lt
    obtain ⟨k, isPower⟩ := sana.doppi
    have larger : t.usati < Oltre.doppi t.posti := by
      unfold Oltre.doppi
      split <;> omega
    have fewer : filled chiave n t.slot ≤ filled chiave t.posti t.slot :=
      (List.range_sublist.mpr small).countP_le
    rw [isPower] at lt larger ⊢
    obtain ⟨_, _, count⟩ := rehash_spec (n := n) avanti_round (Oltre.casa_lt k)
      chiave_vuoto
      (fun p pin q qin => sana.sound.distinct p (by omega) q (by omega)) (by omega)
    exact (firstFree_of_few avanti_round (by omega) lt).2.1
  · intro i lt busy
    refine gapCloses_of_few (sana.round (by omega)) lt ?_ (by omega)
    rw [chiave, if_neg busy]
    rfl

theorem Sana.segui (sana : t.Sana) {conto : Nat → Nat} (same : ∀ a ≠ 0, t.di a = conto a)
    {mossa : Mossa} (nz : mossa.pagina ≠ 0) : (Oltre.segui (t, conto) mossa).1.Sana ∧
      ∀ a ≠ 0, (Oltre.segui (t, conto) mossa).1.di a = (Oltre.segui (t, conto) mossa).2 a := by
  have after : ∀ {t' a n}, Cambia t t' a n →
      t'.Sana ∧ ∀ b ≠ 0, t'.di b = update conto a n b := by
    intro t' a n cambia
    refine ⟨cambia.sana, fun b nz => ?_⟩
    by_cases here : b = a
    · rw [here, update_self, cambia.qui]
    · rw [update_of_ne here, cambia.altrove b here, same b nz]
  cases mossa with
  | aggiungi a memoria =>
    have nz : a ≠ 0 := nz
    rw [Oltre.segui]
    cases added : t.aggiungi a memoria with
    | none => exact ⟨sana, same⟩
    | some t' =>
      have short := sana.di_lt (a := a)
      have more : t.di a ≠ 0xFFFFFFFF := by
        intro full
        cases added.symm.trans (sana.aggiungi_eq_none.mpr (.inl full))
      have cambia := sana.aggiungi (by omega) added
      rw [if_neg nz, same a nz] at cambia
      exact after cambia
  | togli a =>
    rw [Oltre.segui, ← same a nz]
    cases taken : t.togli a with
    | none =>
      have absent : t.di a - 1 = conto a := by
        rw [← same a nz, sana.togli_none taken]
      rw [absent, update_eq_self]
      exact ⟨sana, same⟩
    | some t' => exact after (sana.togli taken).2

def vuota : Oltre := { slot := fun _ => .vuoto, posti := 0, usati := 0 }

theorem segui_rappresenta {mosse : List Mossa} (nonzero : ∀ m ∈ mosse, m.pagina ≠ 0) :
    Rappresenta (mosse.foldl segui (vuota, fun _ => 0)).1
      (mosse.foldl segui (vuota, fun _ => 0)).2 := by
  have run : ∀ stato : Oltre × (Nat → Nat), stato.1.Sana → (∀ a ≠ 0, stato.1.di a = stato.2 a) →
      Rappresenta (mosse.foldl segui stato).1 (mosse.foldl segui stato).2 := by
    induction mosse with
    | nil => exact fun _ sana same => sana.rappresenta same
    | cons mossa mosse ih =>
      intro stato sana same
      obtain ⟨sana', same'⟩ := sana.segui same (nonzero mossa List.mem_cons_self)
      exact ih (fun m mem => nonzero m (List.mem_cons_of_mem _ mem)) _ sana' same'
  exact run _ Sana.nuova fun _ _ => rfl

/-- Twenty pages, one of them twice, and one taken away again. -/
def mosseProva : List Mossa :=
  (List.range 20).map (fun i => .aggiungi (4096 * (i + 1)) true) ++
    [.aggiungi 4096 true, .togli 8192]

theorem segui_rappresenta_prova : (∀ m ∈ mosseProva, m.pagina ≠ 0) ∧
    (mosseProva.foldl segui (vuota, fun _ => 0)).1.usati = 19 ∧
    Rappresenta (mosseProva.foldl segui (vuota, fun _ => 0)).1
      (mosseProva.foldl segui (vuota, fun _ => 0)).2 := by
  have nonzero : ∀ m ∈ mosseProva, m.pagina ≠ 0 := by decide
  exact ⟨nonzero, by decide +kernel, segui_rappresenta nonzero⟩

end Oltre

end ExOs.Mm
