import ExOs.Mm.PmmRuns

/-!
# The search for contiguous pages

`pmm_cerca_contigue` jumps over a stretch that turned out too short.  No start
it jumps over could have served, so it returns the lowest one; the loop written
out again in `pmm_alloc_pages_kernel` finds the same.
-/

namespace ExOs.Mm.Pmm

variable {mem : Memoria} {a count giri : Nat}

/-- Pages `i` to `i + count - 1` are free. -/
def Libere (mem : Memoria) (count i : Nat) : Prop :=
  ∀ q, i ≤ q → q < i + count → bitTest mem q = false

/-- `pmm_cerca_contigue` returns `a` when there is no place.  No index passes
`a`, so nothing wraps. -/
def pmmCercaContigue (s : Pmm) (da a count : Nat) : Nat := (s.cercaContigue da a count).getD a

/-- The inner loop of `pmm_alloc_pages_kernel`: its `j` and `consecutive` at the
end. -/
def contaConsecutive (mem : Memoria) (fine limite : Nat) : Nat → Nat → Nat → Nat × Nat
  | 0, j, consecutive => (j, consecutive)
  | giri + 1, j, consecutive =>
    if j < fine ∧ j < limite then
      if bitTest mem j then (j, consecutive)
      else contaConsecutive mem fine limite giri (j + 1) (consecutive + 1)
    else (j, consecutive)

/-- The outer loop of `pmm_alloc_pages_kernel`, from page `i` on. -/
def cercaKernelDa (mem : Memoria) (limite count : Nat) : Nat → Nat → Option Nat
  | 0, _ => none
  | giri + 1, i =>
    if i ≤ limite - count then
      if bitTest mem i then cercaKernelDa mem limite count giri (i + 1)
      else
        let (j, consecutive) := contaConsecutive mem (i + count) limite count (i + 1) 1
        if consecutive = count then some i else cercaKernelDa mem limite count giri (j + 1)
    else none

/-- `pmm_alloc_pages_kernel` with its own loop. -/
def pmmAllocPagesKernel (s : Pmm) (count : Nat) : Nat × Pmm :=
  let limite := s.limiteKernel
  if count = 0 then (0, s)
  else if count = 1 then s.allocPageKernel
  else if limite < count then (0, s)
  else
    match cercaKernelDa s.mem limite count (limite + 1) 0 with
    | some i => (pageToAddr i, s.prendiTutte i count)
    | none => (0, s)

theorem contaConsecutive_eq {fine limite : Nat} :
    ∀ {j consecutive}, j ≤ min fine limite → min fine limite ≤ j + giri →
      contaConsecutive mem fine limite giri j consecutive = (finePezzo mem j (min fine limite),
          consecutive + (finePezzo mem j (min fine limite) - j)) := by
  induction giri with
  | zero =>
    intro j consecutive lower upper
    have spec := finePezzo_spec mem lower
    rw [show finePezzo mem j (min fine limite) = j by omega, Nat.sub_self]
    rfl
  | succ giri ih =>
    intro j consecutive lower upper
    have spec := finePezzo_spec mem lower
    rw [contaConsecutive]
    split
    · next more =>
      have step := finePezzo_succ mem (show j < min fine limite by omega)
      split
      · next busy =>
        rw [if_pos busy] at step
        rw [step, Nat.sub_self]
        rfl
      next clear =>
      rw [if_neg clear] at step
      have after := finePezzo_spec mem (show j + 1 ≤ min fine limite by omega)
      rw [ih (by omega) (by omega), step]
      congr 1
      omega
    · next done =>
      rw [show finePezzo mem j (min fine limite) = j by omega, Nat.sub_self]
      rfl

section

variable (fits : count ≤ a) (pos : 0 < count)

include fits pos

theorem cercaKernelDa_eq :
    ∀ i, cercaKernelDa mem a count giri i = contigueDa mem a count giri i := by
  induction giri with
  | zero => exact fun _ => rfl
  | succ giri ih =>
    intro i
    rw [cercaKernelDa, contigueDa]
    split
    · next more =>
      rw [if_neg (Nat.not_lt_of_le more)]
      split
      · exact ih (i + 1)
      have spec := finePezzo_spec mem (show i + 1 ≤ min (i + count) a by omega)
      rw [contaConsecutive_eq (by omega) (by omega)]
      dsimp only
      rw [ih]
      congr 1
      exact propext ⟨by omega, by omega⟩
    · next done => rw [if_pos (Nat.lt_of_not_le done)]

/-- A place that would serve bounds what the search finds: no start before it
is jumped over. -/
theorem contigueDa_le {k : Nat} (fitsK : k + count ≤ a) (free : Libere mem count k) :
    ∀ i, i ≤ k → a < i + giri → ∃ p, contigueDa mem a count giri i = some p ∧ p ≤ k := by
  induction giri with
  | zero => omega
  | succ giri ih =>
    intro i lower enough
    rw [contigueDa, if_neg (by omega)]
    split
    · next busy =>
      have other : i ≠ k := by
        intro same
        rw [same, free k (Nat.le_refl k) (by omega)] at busy
        simp at busy
      exact ih (i + 1) (by omega) (by omega)
    dsimp only
    split
    · exact ⟨i, rfl, lower⟩
    next short =>
    obtain ⟨above, below, stops, _⟩ :=
      finePezzo_spec mem (show i + 1 ≤ min (i + count) a by omega)
    -- The page that ends the stretch lies inside every later start up to it.
    have busy := stops (by omega)
    have later : finePezzo mem (i + 1) (min (i + count) a) < k := by
      apply Nat.lt_of_not_le
      intro inside
      rw [free _ inside (by omega)] at busy
      simp at busy
    exact ih _ later (by omega)

end

/-- `r` is the lowest place for `count` free pages in `[da, a)`, or `a` when
there is none. -/
structure Prima (mem : Memoria) (da a count r : Nat) : Prop where
  posto : r ≠ a → da ≤ r ∧ r + count ≤ a ∧ Libere mem count r
  minima : ∀ k, da ≤ k → k + count ≤ a → Libere mem count k → r ≤ k
  nessuna : r = a ↔ ∀ k, da ≤ k → k + count ≤ a → ¬ Libere mem count k

theorem pmmCercaContigue_prima (s : Pmm) (da a : Nat) {count : Nat} (pos : 0 < count) :
    Prima s.mem da a count (s.pmmCercaContigue da a count) ∧ (count ≤ a →
        (cercaKernelDa s.mem a count (a + 1) 0).getD a = s.pmmCercaContigue 0 a count) ∧
      s.pmmAllocPagesKernel count = s.allocPagesKernel count := by
  have agree : ∀ {a}, count ≤ a →
      cercaKernelDa s.mem a count (a + 1) 0 = s.cercaContigue 0 a count := by
    intro a fits
    rw [cercaKernelDa_eq fits pos, cercaContigue, if_neg (by omega)]
  refine ⟨?_, fun fits => congrArg (Option.getD · a) (agree fits), ?_⟩
  · have found : ∀ k, da ≤ k → k + count ≤ a → Libere s.mem count k →
        ∃ p, s.cercaContigue da a count = some p ∧ p ≤ k := by
      intro k lower fits free
      rw [cercaContigue, if_neg (by omega)]
      exact contigueDa_le (by omega) pos fits free da lower (by omega)
    unfold pmmCercaContigue
    cases hit : s.cercaContigue da a count with
    | none =>
      have absent : ∀ k, da ≤ k → k + count ≤ a → ¬ Libere s.mem count k := by
        intro k lower fits free
        obtain ⟨p, isP, _⟩ := found k lower fits free
        cases hit.symm.trans isP
      exact ⟨fun other => absurd rfl other,
        fun k lower fits free => absurd free (absent k lower fits), fun _ => absent, fun _ => rfl⟩
    | some p =>
      have here := cercaContigue_eq_some pos hit
      refine ⟨fun _ => here, ?_, fun same => ?_, fun never => ?_⟩
      · intro k lower fits free
        obtain ⟨_, isP, below⟩ := found k lower fits free
        cases hit.symm.trans isP
        exact below
      · rw [Option.getD_some] at same
        omega
      · exact absurd here.2.2 (never p here.1 here.2.1)
  · unfold allocPagesKernel pmmAllocPagesKernel
    dsimp only
    split
    · rfl
    split
    · rfl
    split
    · next short => rw [cercaContigue, if_pos (.inl short)]
    · next room => exact agree (Nat.le_of_not_lt room) ▸ rfl

theorem pmmCercaContigue_prima_due : let s := Sistema.corsaPiccola.pmm
    0 < 2 ∧ Prima s.mem 0 768 2 (s.pmmCercaContigue 0 768 2) ∧
      s.pmmAllocPagesKernel 2 = s.allocPagesKernel 2 := by
  have found := pmmCercaContigue_prima Sistema.corsaPiccola.pmm 0 768 (show 0 < 2 by decide)
  exact ⟨by decide, found.1, found.2.2⟩

end ExOs.Mm.Pmm
