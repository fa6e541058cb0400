import Mathlib.Data.Finset.Card
import Mathlib.Logic.Relation

/-!
# Loops

A round of a loop ends it with a result or goes on with another state. With fuel the loop is
a function; it ends when a measure goes down, and a loop over the places of an array ends
unless it comes back to a place.
-/

namespace ExOs.Library

open Relation

section Loops

variable {State Result : Type} (step : State → Result ⊕ State)

/-- The loop, for as many rounds as there is fuel. -/
def walk : Nat → State → Option Result
  | 0, _ => none
  | fuel + 1, state =>
    match step state with
    | .inl res => some res
    | .inr next => walk fuel next

def Goes (pre after : State) : Prop := step pre = .inr after

def Returns (start : State) : Prop :=
  ∃ state, ReflTransGen (Goes step) start state ∧ TransGen (Goes step) state state

variable {step} {fuel : Nat} {state next : State} {res : Result}

theorem walk_of_inl (stops : step state = .inl res) : walk step (fuel + 1) state = some res := by
  rw [walk, stops]

theorem walk_of_inr (goes : step state = .inr next) :
    walk step (fuel + 1) state = walk step fuel next := by
  rw [walk, goes]

theorem walk_invariant (property : State → Prop) (final : Result → Prop)
    (stops : ∀ state res, property state → step state = .inl res → final res)
    (goes : ∀ pre after, property pre → step pre = .inr after → property after)
    (start : property state) (ended : walk step fuel state = some res) : final res := by
  induction fuel generalizing state with
  | zero => cases ended
  | succ fuel ih =>
    cases round : step state with
    | inl last =>
      rw [walk_of_inl round] at ended
      exact Option.some.inj ended ▸ stops state last start round
    | inr next =>
      rw [walk_of_inr round] at ended
      exact ih (goes state next start round) ended

theorem walk_of_measure (measure : State → Nat)
    (shrinks : ∀ pre after, step pre = .inr after → measure after < measure pre)
    (enough : measure state < fuel) : ∃ res, walk step fuel state = some res := by
  induction fuel generalizing state with
  | zero => exact absurd enough (Nat.not_lt_zero _)
  | succ fuel ih =>
    cases round : step state with
    | inl last => exact ⟨last, walk_of_inl round⟩
    | inr next =>
      rw [walk_of_inr round]
      have less := shrinks state next round
      exact ih (by omega)

theorem not_returns_of_walk (ended : walk step fuel state = some res) : ¬Returns step state := by
  induction fuel generalizing state with
  | zero => cases ended
  | succ fuel ih =>
    rintro ⟨place, reached, back⟩
    cases round : step state with
    | inl last =>
      -- Nothing goes on from here, so the place would be this one.
      have stuck : ∀ {other}, ¬Goes step state other := fun goes => by
        rw [Goes, round] at goes
        cases goes
      rcases reached.cases_head with rfl | ⟨other, goes, _⟩
      · obtain ⟨other, goes, _⟩ := TransGen.head'_iff.mp back
        exact stuck goes
      · exact stuck goes
    | inr next =>
      rw [walk_of_inr round] at ended
      have only : ∀ {other}, Goes step state other → other = next := fun goes =>
        (Sum.inr.inj (round.symm.trans goes)).symm
      rcases reached.cases_head with rfl | ⟨other, goes, rest⟩
      · obtain ⟨other, goes, rest⟩ := TransGen.head'_iff.mp back
        exact ih ended ⟨state, only goes ▸ rest, back⟩
      · exact ih ended ⟨place, only goes ▸ rest, back⟩

/-- A loop that comes back goes, in some round, to a state that is not above the one before. -/
theorem returns_iff_descends (measure : State → Nat) : Returns step state ↔
    ∃ pre after, ReflTransGen (Goes step) state pre ∧ Goes step pre after ∧
      measure after ≤ measure pre ∧ ReflTransGen (Goes step) after pre := by
  constructor
  · rintro ⟨place, reached, back⟩
    by_contra none
    have climbs : ∀ {pre after}, TransGen (Goes step) place pre → Goes step pre after →
        ReflTransGen (Goes step) after place → measure pre < measure after :=
      fun there goes home => Nat.lt_of_not_le fun down => none ⟨_, _,
        reached.trans there.to_reflTransGen, goes, down, home.trans there.to_reflTransGen⟩
    have above : ∀ {other}, TransGen (Goes step) place other →
        ReflTransGen (Goes step) other place → measure place < measure other := by
      intro other there
      induction there with
      | single goes =>
        exact fun home => climbs back goes home
      | tail there goes ih =>
        exact fun home => (ih (home.head goes)).trans (climbs there goes home)
    exact Nat.lt_irrefl _ (above back .refl)
  · rintro ⟨pre, after, reached, goes, -, back⟩
    exact ⟨pre, reached, TransGen.head' goes back⟩

end Loops

section Places

variable {Result : Type} {step : Nat → Result ⊕ Nat} {bound : Nat}

theorem path_of_walk {fuel : Nat} : ∀ {start : Nat}, walk step fuel start = none →
    ∃ place : Nat → Nat, place 0 = start ∧ ∀ k < fuel, Goes step (place k) (place (k + 1)) := by
  induction fuel with
  | zero => exact fun {start} _ =>
      ⟨fun _ => start, rfl, fun k absent => absurd absent (Nat.not_lt_zero k)⟩
  | succ fuel ih =>
    intro start runs
    cases round : step start with
    | inl last =>
      rw [walk_of_inl round] at runs
      cases runs
    | inr next =>
      rw [walk_of_inr round] at runs
      obtain ⟨place, fst, goes⟩ := ih runs
      refine ⟨fun k => if k = 0 then start else place (k - 1), rfl, fun k lt => ?_⟩
      cases k with
      | zero => exact round.trans (congrArg Sum.inr fst.symm)
      | succ k => exact goes k (by omega)

theorem transGen_path {place : Nat → Nat} {fuel i j : Nat}
    (goes : ∀ k < fuel, Goes step (place k) (place (k + 1))) (less : i < j) (le : j ≤ fuel) :
    TransGen (Goes step) (place i) (place j) := by
  induction j, less using Nat.le_induction with
  | base => exact .single (goes i (by omega))
  | succ j _ ih => exact (ih (by omega)).tail (goes j (by omega))

/-- Among places up to a bound, so many rounds are enough for a loop that does not come back. -/
theorem walk_of_not_returns (inside : ∀ pre after, Goes step pre after → after ≤ bound)
    {start : Nat} (atStart : start ≤ bound) (never : ¬Returns step start) :
    ∃ res, walk step (bound + 1) start = some res := by
  by_contra runs
  rw [← Option.ne_none_iff_exists', not_not] at runs
  obtain ⟨place, fst, goes⟩ := path_of_walk runs
  have places : ∀ k ∈ Finset.range (bound + 2), place k ∈ Finset.range (bound + 1) := by
    intro k mem
    rw [Finset.mem_range] at mem ⊢
    cases k with
    | zero => omega
    | succ k => exact Nat.lt_succ_of_le (inside _ _ (goes k (by omega)))
  obtain ⟨i, iIn, j, jIn, ne, same⟩ :=
    Finset.exists_ne_map_eq_of_card_lt_of_maps_to (by simp) places
  rw [Finset.mem_range] at iIn jIn
  wlog less : i < j generalizing i j
  · exact this j jIn i iIn ne.symm same.symm (by omega)
  have reached : ReflTransGen (Goes step) start (place i) := by
    rcases Nat.eq_zero_or_pos i with zero | pos
    · rw [zero, fst]
    · exact fst ▸ (transGen_path goes pos (by omega)).to_reflTransGen
  have back := transGen_path goes less (by omega)
  rw [← same] at back
  exact never ⟨place i, reached, back⟩

end Places

end ExOs.Library
