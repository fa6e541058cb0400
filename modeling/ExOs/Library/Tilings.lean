import Mathlib.Data.List.Pairwise
import Mathlib.Tactic.Common

/-!
# Tilings of an interval of addresses

A tile is named by its first address and `length` says how long it is.
`Tiles length start stop tiles` says that the tiles, in order, cover the
interval from `start` to `stop` without gaps or overlaps.
-/

namespace ExOs.Library

open List

def Tiles (length : Nat → Nat) : Nat → Nat → List Nat → Prop
  | start, stop, [] => start = stop
  | start, stop, tile :: rest =>
    start = tile ∧ Tiles length (tile + length tile) stop rest

namespace Tiles

variable {length length' : Nat → Nat} {start stop : Nat}

variable {tiles pre after : List Nat} {fst snd : Nat}

theorem congr : ∀ {start : Nat}, Tiles length start stop tiles →
      (∀ tile ∈ tiles, length' tile = length tile) → Tiles length' start stop tiles := by
  induction tiles with
  | nil =>
    intro start tiling _
    exact tiling
  | cons tile rest ih =>
    intro start tiling agree
    refine ⟨tiling.1, ?_⟩
    rw [agree tile (mem_cons_self)]
    exact ih tiling.2 fun other mem =>
      agree other (mem_cons_of_mem tile mem)

theorem append_iff : ∀ {start : Nat},
      Tiles length start stop (pre ++ after) ↔ ∃ middle, Tiles length start middle pre ∧
            Tiles length middle stop after := by
  induction pre with
  | nil =>
    intro start
    constructor
    · intro tiling
      exact ⟨start, rfl, tiling⟩
    · rintro ⟨middle, equal, tiling⟩
      have sameStart : start = middle := equal
      rw [sameStart]
      exact tiling
  | cons tile rest ih =>
    intro start
    constructor
    · rintro ⟨atStart, tiling⟩
      obtain ⟨middle, fst, snd⟩ := ih.mp tiling
      exact ⟨middle, ⟨atStart, fst⟩, snd⟩
    · rintro ⟨middle, ⟨atStart, fst⟩, snd⟩
      exact ⟨atStart, ih.mpr ⟨middle, fst, snd⟩⟩

theorem split_iff {tile : Nat} :
    Tiles length start stop (pre ++ tile :: after) ↔ Tiles length start tile pre ∧
        Tiles length (tile + length tile) stop after := by
  rw [append_iff]
  constructor
  · rintro ⟨middle, fst, atTile, snd⟩
    rw [← atTile] at snd ⊢
    exact ⟨fst, snd⟩
  · rintro ⟨fst, snd⟩
    exact ⟨tile, fst, rfl, snd⟩

theorem start_le_stop : ∀ {start : Nat}, Tiles length start stop tiles → start ≤ stop := by
  induction tiles with
  | nil =>
    intro start tiling
    exact Nat.le_of_eq tiling
  | cons tile rest ih =>
    intro start tiling
    have later := ih tiling.2
    have atStart := tiling.1
    omega

/-- Tiles in the middle are replaced by others that cover the same addresses. -/
theorem replace {m n : List Nat} (tiling : Tiles length start stop (pre ++ (m ++ after)))
    (middle : ∀ {start stop : Nat}, Tiles length start stop m → Tiles length' start stop n)
    (agree : ∀ tile ∈ pre ++ after, length' tile = length tile) :
    Tiles length' start stop (pre ++ (n ++ after)) := by
  obtain ⟨left, initial, later⟩ := append_iff.mp tiling
  obtain ⟨right, old, final⟩ := append_iff.mp later
  refine append_iff.mpr ⟨left, initial.congr ?_, append_iff.mpr ⟨right, middle old, final.congr ?_⟩⟩
  · exact fun tile mem => agree tile (mem_append_left after mem)
  · exact fun tile mem => agree tile (mem_append_right pre mem)

section

variable (tiling : Tiles length start stop tiles)

include tiling

theorem mem_bounds {tile : Nat} (mem : tile ∈ tiles) :
    start ≤ tile ∧ tile + length tile ≤ stop := by
  obtain ⟨pre, after, shape⟩ := append_of_mem mem
  rw [shape, split_iff] at tiling
  exact ⟨tiling.1.start_le_stop, tiling.2.start_le_stop⟩

omit tiling in
theorem pairwise : ∀ {start : Nat}, Tiles length start stop tiles →
      tiles.Pairwise fun fst snd => fst + length fst ≤ snd := by
  induction tiles with
  | nil =>
    intro start _
    exact List.Pairwise.nil
  | cons tile rest ih =>
    intro start tiling
    refine List.Pairwise.cons ?_ (ih tiling.2)
    intro other mem
    exact (tiling.2.mem_bounds mem).1

theorem nodup (pos : ∀ tile ∈ tiles, 0 < length tile) : tiles.Nodup := by
  refine tiling.pairwise.imp_of_mem ?_
  intro fst snd firstMember _ ordered equal
  have long := pos fst firstMember
  omega

theorem separate (firstMember : fst ∈ tiles) (secondMember : snd ∈ tiles) :
    fst = snd ∨ fst + length fst ≤ snd ∨ snd + length snd ≤ fst := by
  by_cases equal : fst = snd
  · exact .inl equal
  have symmetric : Std.Symm fun fst snd =>
        fst + length fst ≤ snd ∨ snd + length snd ≤ fst :=
    ⟨fun _ _ => Or.symm⟩
  have ordered := (tiling.pairwise.imp (S := fun fst snd =>
        fst + length fst ≤ snd ∨ snd + length snd ≤ fst)
      .inl).forall firstMember secondMember equal
  exact .inr ordered

theorem extend (agree : ∀ tile ∈ tiles, length' tile = length tile) :
    Tiles length' start (stop + length' stop) (tiles ++ [stop]) :=
  split_iff.mpr ⟨tiling.congr agree, rfl⟩

end

end Tiles

end ExOs.Library
