import Mathlib.Data.List.Chain
import Mathlib.Data.List.Pairwise
import Mathlib.Tactic.Common

/-!
# Lists of blocks in address order

A heap as the list of its blocks, free and in use, from the lowest address up.
Blocks are apart, cover a set of addresses, and are settled when no two free
ones touch.  Dividing a block, joining two that touch, adding one at the end
and cutting the last one keep the first two and say what the third needs.
-/

namespace ExOs.Library

open List

structure Block where
  start : Nat
  size : Nat
  free : Bool
deriving DecidableEq

namespace Block

def stop (x : Block) : Nat := x.start + x.size

/-- In address order, without overlaps; none is empty. -/
structure Apart (blocks : List Block) : Prop where
  ordered : blocks.Pairwise fun x y => x.stop ≤ y.start
  positive : ∀ x ∈ blocks, 0 < x.size

def Covered (blocks : List Block) (a : Nat) : Prop := ∃ x ∈ blocks, x.start ≤ a ∧ a < x.stop

def Mergeable (x y : Block) : Prop := x.free = true ∧ y.free = true ∧ x.stop = y.start

def Settled (blocks : List Block) : Prop := blocks.IsChain fun x y => ¬Mergeable x y

variable {x y z : Block} {pre after blocks : List Block} {a : Nat} {k least : Nat}
  {other : List Block}

theorem covered_append : Covered (blocks ++ other) a ↔ Covered blocks a ∨ Covered other a := by
  simp only [Covered, mem_append, or_and_right, exists_or]

theorem covered_cons : Covered (x :: blocks) a ↔ (x.start ≤ a ∧ a < x.stop) ∨ Covered blocks a := by
  simp only [Covered, mem_cons, or_and_right, exists_or, exists_eq_left]

theorem covered_join (sameStart : z.start = x.start) (touch : x.stop = y.start)
    (sameStop : z.stop = y.stop) (xy : x.start ≤ x.stop) (yy : y.start ≤ y.stop) :
    Covered (pre ++ z :: after) a ↔ Covered (pre ++ x :: y :: after) a := by
  rw [covered_append, covered_append, covered_cons, covered_cons, covered_cons]
  refine or_congr_right ?_
  rw [← or_assoc]
  refine or_congr_left ?_
  omega

theorem covered_same (sameStart : z.start = x.start) (sameStop : z.stop = x.stop) :
    Covered (pre ++ z :: after) a ↔ Covered (pre ++ x :: after) a := by
  rw [covered_append, covered_append, covered_cons, covered_cons, sameStart, sameStop]

theorem covered_singleton : Covered [x] a ↔ x.start ≤ a ∧ a < x.stop := by
  simp only [Covered, mem_singleton, exists_eq_left]

/-! ## Order -/

theorem apart_append : Apart (blocks ++ other) ↔
      Apart blocks ∧ Apart other ∧ ∀ x ∈ blocks, ∀ y ∈ other, x.stop ≤ y.start := by
  constructor
  · intro apart
    obtain ⟨fst, snd, cross⟩ := pairwise_append.mp apart.ordered
    exact ⟨⟨fst, fun x mem => apart.positive x (mem_append_left _ mem)⟩,
      ⟨snd, fun x mem => apart.positive x (mem_append_right _ mem)⟩, cross⟩
  · rintro ⟨fst, snd, cross⟩
    refine ⟨pairwise_append.mpr ⟨fst.ordered, snd.ordered, cross⟩, ?_⟩
    intro x mem
    rcases mem_append.mp mem with left | right
    · exact fst.positive x left
    · exact snd.positive x right

theorem apart_cons :
    Apart (x :: blocks) ↔ 0 < x.size ∧ Apart blocks ∧ ∀ y ∈ blocks, x.stop ≤ y.start := by
  constructor
  · intro apart
    obtain ⟨cross, rest⟩ := pairwise_cons.mp apart.ordered
    exact ⟨apart.positive x mem_cons_self,
      ⟨rest, fun y mem => apart.positive y (mem_cons_of_mem x mem)⟩, cross⟩
  · rintro ⟨pos, rest, cross⟩
    refine ⟨pairwise_cons.mpr ⟨cross, rest.ordered⟩, ?_⟩
    intro y mem
    rcases mem_cons.mp mem with isX | later
    · rw [isX]
      exact pos
    · exact rest.positive y later

theorem Apart.separate (apart : Apart blocks) (xMem : x ∈ blocks) (yMem : y ∈ blocks) :
    x = y ∨ x.stop ≤ y.start ∨ y.stop ≤ x.start := by
  by_cases equal : x = y
  · exact .inl equal
  have symmetric : Std.Symm fun x y : Block => x.stop ≤ y.start ∨ y.stop ≤ x.start :=
    ⟨fun _ _ => Or.symm⟩
  have ordered := (apart.ordered.imp (S := fun x y : Block => x.stop ≤ y.start ∨ y.stop ≤ x.start)
    .inl).forall xMem yMem equal
  exact .inr ordered

theorem Apart.start_injective (apart : Apart blocks) (xMem : x ∈ blocks) (yMem : y ∈ blocks)
    (same : x.start = y.start) : x = y := by
  have xLong := apart.positive x xMem
  have yLong := apart.positive y yMem
  rcases apart.separate xMem yMem with equal | fst | snd
  · exact equal
  · rw [stop] at fst
    omega
  · rw [stop] at snd
    omega

section

variable (apart : Apart (pre ++ x :: after))

include apart

theorem Apart.replace {new : List Block} (inside : Apart new)
    (lower : ∀ y ∈ new, x.start ≤ y.start) (upper : ∀ y ∈ new, y.stop ≤ x.stop) :
    Apart (pre ++ new ++ after) := by
  obtain ⟨fst, rest, cross⟩ := apart_append.mp apart
  obtain ⟨_, last, beyond⟩ := apart_cons.mp rest
  refine apart_append.mpr ⟨apart_append.mpr ⟨fst, inside, ?_⟩, last, ?_⟩
  · intro z zMem y yMem
    exact Nat.le_trans (cross z zMem x mem_cons_self) (lower y yMem)
  · intro z zMem y yMem
    rcases mem_append.mp zMem with early | inner
    · exact cross z early y (mem_cons_of_mem x yMem)
    · exact Nat.le_trans (upper z inner) (beyond y yMem)

theorem Apart.change (pos : 0 < z.size)
    (sameStart : z.start = x.start) (shorter : z.stop ≤ x.stop) : Apart (pre ++ z :: after) := by
  have single : Apart [z] := apart_cons.mpr ⟨pos, ⟨List.Pairwise.nil, nofun⟩, nofun⟩
  have replaced := apart.replace single (fun y mem => by rw [mem_singleton.mp mem, sameStart])
    (fun y mem => by rw [mem_singleton.mp mem]; exact shorter)
  rw [append_assoc] at replaced
  exact replaced

theorem Apart.divide (yLong : 0 < y.size) (zLong : 0 < z.size)
    (sameStart : y.start = x.start) (touch : y.stop = z.start) (sameStop : z.stop = x.stop) :
    Apart (pre ++ y :: z :: after) := by
  have ends : y.stop ≤ z.stop := by
    rw [touch]
    exact Nat.le_add_right _ _
  have begins : y.start ≤ z.start := by
    rw [← touch]
    exact Nat.le_add_right _ _
  have single : Apart [z] := apart_cons.mpr ⟨zLong, ⟨List.Pairwise.nil, nofun⟩, nofun⟩
  have pair : Apart [y, z] := by
    refine apart_cons.mpr ⟨yLong, single, ?_⟩
    intro w mem
    rw [mem_singleton.mp mem, touch]
  have replaced := apart.replace pair ?_ ?_
  · rw [append_assoc] at replaced
    exact replaced
  · intro w mem
    rcases mem_cons.mp mem with isY | isZ
    · rw [isY, sameStart]
    · rw [mem_singleton.mp isZ, ← sameStart]
      exact begins
  · intro w mem
    rcases mem_cons.mp mem with isY | isZ
    · rw [isY, ← sameStop]
      exact ends
    · rw [mem_singleton.mp isZ, sameStop]

end

theorem Apart.join (apart : Apart (pre ++ x :: y :: after)) (sameStart : z.start = x.start)
    (sameStop : z.stop = y.stop) : Apart (pre ++ z :: after) := by
  obtain ⟨fst, rest, cross⟩ := apart_append.mp apart
  obtain ⟨xLong, others, xBefore⟩ := apart_cons.mp rest
  obtain ⟨yLong, last, yBefore⟩ := apart_cons.mp others
  have touch := xBefore y mem_cons_self
  have pos : 0 < z.size := by
    simp only [stop] at touch sameStop
    omega
  refine apart_append.mpr ⟨fst, apart_cons.mpr ⟨pos, last, ?_⟩, ?_⟩
  · intro w mem
    rw [sameStop]
    exact yBefore w mem
  · intro w wMember v vMember
    rcases mem_cons.mp vMember with isZ | later
    · rw [isZ, sameStart]
      exact cross w wMember x mem_cons_self
    · exact cross w wMember v (mem_cons_of_mem x (mem_cons_of_mem y later))

theorem Apart.concat (apart : Apart blocks) (pos : 0 < x.size)
    (beyond : ∀ y ∈ blocks, y.stop ≤ x.start) : Apart (blocks ++ [x]) := by
  refine apart_append.mpr ⟨apart, apart_cons.mpr ⟨pos, ⟨List.Pairwise.nil, nofun⟩, nofun⟩, ?_⟩
  intro y yMem z zMem
  rw [mem_singleton.mp zMem]
  exact beyond y yMem

theorem Apart.covered_cut (apart : Apart (pre ++ [x])) (sameStart : z.start = x.start)
    (shorter : z.stop ≤ x.stop) :
    Covered (pre ++ [z]) a ↔ Covered (pre ++ [x]) a ∧ a < z.stop := by
  obtain ⟨_, _, cross⟩ := apart_append.mp apart
  have low : Covered pre a → a < z.stop := by
    rintro ⟨y, mem, _, upper⟩
    have below := cross y mem x mem_cons_self
    have begins : z.start ≤ z.stop := Nat.le_add_right _ _
    omega
  rw [covered_append, covered_append, covered_singleton, covered_singleton, sameStart]
  constructor
  · rintro (early | ⟨lower, upper⟩)
    · exact ⟨.inl early, low early⟩
    · exact ⟨.inr ⟨lower, by omega⟩, upper⟩
  · rintro ⟨early | ⟨lower, _⟩, upper⟩
    · exact .inl early
    · exact .inr ⟨lower, upper⟩

theorem Settled.apart (settled : Settled blocks) (apart : Apart blocks) (xMem : x ∈ blocks)
    (yMem : y ∈ blocks) : ¬Mergeable x y := by
  induction blocks with
  | nil => exact absurd xMem not_mem_nil
  | cons w rest ih =>
    obtain ⟨wLong, others, wBefore⟩ := apart_cons.mp apart
    rintro ⟨xFree, yFree, touch⟩
    rcases mem_cons.mp xMem with isW | xLater
    · rcases mem_cons.mp yMem with alsoW | yLater
      · rw [isW, alsoW, stop] at touch
        omega
      · cases rest with
        | nil => exact absurd yLater not_mem_nil
        | cons v tail =>
          -- Only the very next block can begin where this one ends.
          have next := (isChain_cons_cons.mp settled).1
          rcases mem_cons.mp yLater with isV | beyond
          · rw [isW] at xFree touch
            rw [isV] at yFree touch
            exact next ⟨xFree, yFree, touch⟩
          obtain ⟨vLong, _, vBefore⟩ := apart_cons.mp others
          have fst := wBefore v mem_cons_self
          have snd := vBefore y beyond
          rw [isW] at touch
          rw [stop] at snd
          omega
    · rcases mem_cons.mp yMem with isW | yLater
      · have later := wBefore x xLater
        rw [isW] at touch
        rw [stop] at later touch
        omega
      · exact ih (List.IsChain.tail settled) others xLater yLater ⟨xFree, yFree, touch⟩

theorem settled_split : Settled (pre ++ x :: after) ↔ Settled (pre ++ [x]) ∧ Settled (x :: after) :=
  isChain_split

theorem settled_busy (busy : x.free = false) :
    Settled (pre ++ x :: after) ↔ Settled pre ∧ Settled after := by
  have mine : ∀ y, ¬Mergeable x y := by
    rintro y ⟨free, _⟩
    rw [busy] at free
    cases free
  have theirs : ∀ y, ¬Mergeable y x := by
    rintro y ⟨_, free, _⟩
    rw [busy] at free
    cases free
  rw [Settled, isChain_append, isChain_cons]
  constructor
  · rintro ⟨fst, ⟨_, snd⟩, _⟩
    exact ⟨fst, snd⟩
  · rintro ⟨fst, snd⟩
    refine ⟨fst, ⟨fun y _ => mine y, snd⟩, ?_⟩
    intro y _ z isHead
    rw [← Option.some.inj isHead]
    exact theirs y

theorem Settled.same_start (settled : Settled (pre ++ [x])) (sameStart : z.start = x.start)
    (sameFree : z.free = x.free) : Settled (pre ++ [z]) := by
  obtain ⟨fst, _, boundary⟩ := isChain_append.mp settled
  refine isChain_append.mpr ⟨fst, isChain_singleton z, ?_⟩
  intro y isLast w isHead
  rw [← Option.some.inj isHead, Mergeable, sameStart, sameFree]
  exact boundary y isLast x rfl

/-! ## A block takes in the next one -/

/-- `x` and what is after it: the next block becomes part of `x` if it is free and `x` ends
where it begins. -/
def absorb (x : Block) : List Block → List Block
  | [] => [x]
  | y :: rest =>
    if y.free = true ∧ x.stop = y.start then { x with size := x.size + y.size } :: rest
    else x :: y :: rest

theorem absorb_cases (x : Block) (after : List Block) :
    (absorb x after = x :: after ∧ ∀ y ∈ after.head?, ¬(y.free = true ∧ x.stop = y.start)) ∨
      ∃ y rest, after = y :: rest ∧ y.free = true ∧ x.stop = y.start ∧
        absorb x after = { x with size := x.size + y.size } :: rest := by
  cases after with
  | nil => exact .inl ⟨rfl, nofun⟩
  | cons y rest =>
    by_cases near : y.free = true ∧ x.stop = y.start
    · exact .inr ⟨y, rest, rfl, near.1, near.2, if_pos near⟩
    refine .inl ⟨if_neg near, ?_⟩
    intro z isHead
    rw [← Option.some.inj isHead]
    exact near

theorem stop_join (touch : x.stop = y.start) :
    Block.stop { x with size := x.size + y.size } = y.stop := by
  simp only [stop] at touch ⊢
  omega

theorem covered_absorb : Covered (pre ++ absorb x after) a ↔ Covered (pre ++ x :: after) a := by
  rcases absorb_cases x after with ⟨same, _⟩ | ⟨y, rest, shape, _, touch, joined⟩
  · rw [same]
  · rw [joined, shape]
    exact covered_join rfl touch (stop_join touch) (Nat.le_add_right _ _) (Nat.le_add_right _ _)

theorem mem_absorb (free : x.free = true) (busy : z.free = false) :
    z ∈ pre ++ absorb x after ↔ z ∈ pre ++ after := by
  have other : ∀ {w : Block}, w.free = true → z ≠ w := by
    intro w isFree same
    rw [same, isFree] at busy
    cases busy
  rw [mem_append, mem_append]
  refine or_congr_right ?_
  rcases absorb_cases x after with ⟨same, _⟩ | ⟨y, rest, shape, yFree, _, joined⟩
  · rw [same, mem_cons, or_iff_right (other free)]
  · rw [joined, shape, mem_cons, mem_cons, or_iff_right (other yFree)]
    exact or_iff_right (other free)

theorem Settled.absorb (settled : Settled after) : Settled (absorb x after) := by
  rcases absorb_cases x after with ⟨same, apart⟩ | ⟨y, rest, shape, yFree, touch, joined⟩
  · rw [same]
    refine isChain_cons.mpr ⟨?_, settled⟩
    rintro y isHead ⟨_, yFree, touch⟩
    exact apart y isHead ⟨yFree, touch⟩
  rw [shape] at settled
  rw [joined]
  obtain ⟨boundary, rest⟩ := isChain_cons.mp settled
  refine isChain_cons.mpr ⟨?_, rest⟩
  rintro z isHead ⟨_, zFree, next⟩
  rw [stop_join touch] at next
  exact boundary z isHead ⟨yFree, zFree, next⟩

theorem Settled.absorb_eq (settled : Settled (x :: after)) (free : x.free = true) :
    Block.absorb x after = x :: after := by
  rcases absorb_cases x after with ⟨same, _⟩ | ⟨y, rest, shape, yFree, touch, _⟩
  · exact same
  · rw [shape] at settled
    exact absurd ⟨free, yFree, touch⟩ (isChain_cons_cons.mp settled).1

theorem Settled.append_absorb (front : Settled (pre ++ [x])) (settled : Settled after) :
    Settled (pre ++ Block.absorb x after) := by
  have rest := settled.absorb (x := x)
  rcases absorb_cases x after with ⟨same, _⟩ | ⟨y, tail, _, _, _, joined⟩
  · rw [same] at rest ⊢
    exact settled_split.mpr ⟨front, rest⟩
  · rw [joined] at rest ⊢
    exact settled_split.mpr ⟨front.same_start rfl rfl, rest⟩

theorem absorb_head (x : Block) (after : List Block) :
    ∃ y rest, absorb x after = y :: rest ∧ y.start = x.start := by
  rcases absorb_cases x after with ⟨same, _⟩ | ⟨y, rest, _, _, _, joined⟩
  · exact ⟨x, after, same, rfl⟩
  · exact ⟨_, rest, joined, rfl⟩

/-- The last of `before`, if it is free, takes in what follows. -/
def absorbLast (pre after : List Block) : List Block :=
  match pre.getLast? with
  | none => after
  | some p => if p.free then pre.dropLast ++ absorb p after else pre ++ after

theorem absorbLast_concat {p : Block} :
    absorbLast (pre ++ [p]) after = pre ++ if p.free then absorb p after else p :: after := by
  rw [absorbLast, List.getLast?_concat]
  dsimp only
  split
  · rw [dropLast_concat]
  · rw [append_assoc, singleton_append]

theorem absorbLast_cons : absorbLast pre (x :: after) = absorbLast pre [x] ++ after := by
  rcases eq_nil_or_concat' pre with empty | ⟨front, p, shape⟩
  · rw [empty]
    rfl
  rw [shape, absorbLast_concat, absorbLast_concat, append_assoc]
  split
  · rw [absorb, absorb]
    split <;> rfl
  · rfl

theorem covered_absorbLast : Covered (absorbLast pre after) a ↔ Covered (pre ++ after) a := by
  rcases eq_nil_or_concat' pre with empty | ⟨front, p, shape⟩
  · rw [empty]
    exact Iff.rfl
  rw [shape, absorbLast_concat, append_assoc]
  split
  · exact covered_absorb
  · exact Iff.rfl

theorem mem_absorbLast (busy : z.free = false) : z ∈ absorbLast pre after ↔ z ∈ pre ++ after := by
  rcases eq_nil_or_concat' pre with empty | ⟨front, p, shape⟩
  · rw [empty]
    exact Iff.rfl
  rw [shape, absorbLast_concat, append_assoc, singleton_append]
  split
  case isTrue free =>
    rw [mem_absorb free busy, perm_middle.mem_iff, mem_cons, or_iff_right]
    intro isP
    rw [isP, free] at busy
    cases busy
  case isFalse => exact Iff.rfl

theorem Settled.absorbLast (front : Settled pre) (settled : Settled after) :
    Settled (absorbLast pre after) := by
  rcases eq_nil_or_concat' pre with empty | ⟨front', p, shape⟩
  · rw [empty]
    exact settled
  rw [shape] at front
  rw [shape, absorbLast_concat]
  split
  · exact front.append_absorb settled
  case isFalse notFree =>
    have busy : p.free = false := Bool.eq_false_iff.mpr notFree
    exact (settled_busy busy).mpr ⟨((settled_busy busy).mp front).1, settled⟩

/-- `x` cut to `k` bytes, unless less than `least` would be left over. -/
def kept (k least : Nat) (x : Block) : Block :=
  if x.size < k + least then x else { x with size := k }

/-- `x` is cut, and what is left over is free. -/
def trim (k least : Nat) (x : Block) (after : List Block) : List Block :=
  if x.size < k + least then x :: after
  else { x with size := k } :: absorb ⟨x.start + k, x.size - k, true⟩ after

theorem kept_facts (k least : Nat) (room : k ≤ x.size) :
    (kept k least x).start = x.start ∧ (kept k least x).free = x.free ∧
      k ≤ (kept k least x).size := by
  rw [kept]
  split
  · exact ⟨rfl, rfl, room⟩
  · exact ⟨rfl, rfl, Nat.le_refl k⟩

theorem covered_trim : Covered (pre ++ trim k least x after) a ↔ Covered (pre ++ x :: after) a := by
  rw [trim]
  split
  · exact Iff.rfl
  have whole : Block.stop ⟨x.start + k, x.size - k, true⟩ = x.stop := by
    simp only [stop]
    omega
  have shape : ∀ rest : List Block, pre ++ { x with size := k } :: rest =
      (pre ++ [{ x with size := k }]) ++ rest := by
    intro rest
    rw [append_assoc, singleton_append]
  have joined : Covered (pre ++ x :: after) a ↔ Covered
      (pre ++ { x with size := k } :: ⟨x.start + k, x.size - k, true⟩ :: after) a :=
    covered_join rfl rfl whole.symm (Nat.le_add_right _ _) (Nat.le_add_right _ _)
  rw [shape, covered_absorb, ← shape]
  exact joined.symm

theorem mem_trim (busy : z.free = false) :
    z ∈ pre ++ trim k least x after ↔ z = kept k least x ∨ z ∈ pre ++ after := by
  have moved : ∀ w : Block, ∀ rest : List Block, z ∈ pre ++ w :: rest ↔ z = w ∨ z ∈ pre ++ rest :=
    fun w rest => perm_middle.mem_iff.trans mem_cons
  rw [trim, kept]
  split
  · exact moved x after
  · rw [moved, mem_absorb rfl busy]

theorem Settled.trim (front : Settled pre) (settled : Settled after)
    (busy : x.free = false) : Settled (pre ++ Block.trim k least x after) := by
  rw [Block.trim]
  split
  · exact (settled_busy busy).mpr ⟨front, settled⟩
  · exact (settled_busy (x := { x with size := k }) busy).mpr ⟨front, settled.absorb⟩

end Block

end ExOs.Library
