import Mathlib.Data.List.Basic

/-!
# Storage behind a volatile write cache

A store is a map from cells to values and a write replaces some of its cells.
Writes are pending until the next flush; a crash keeps the flushed ones and
any of the pending ones, in their order.
-/

namespace ExOs.Library

open List

/-- The cells a write replaces, with their new values. -/
abbrev Write (Cell Value : Type) := Cell → Option Value

namespace Write

variable {Cell Value : Type} {store : Cell → Value} {write : Write Cell Value}

def apply (write : Write Cell Value) (store : Cell → Value) : Cell → Value :=
  fun cell => (write cell).getD (store cell)

def applyAll (writes : List (Write Cell Value)) (store : Cell → Value) : Cell → Value :=
  writes.foldl (fun current write => write.apply current) store

@[simp]
theorem applyAll_cons {writes : List (Write Cell Value)} :
    applyAll (write :: writes) store = applyAll writes (write.apply store) :=
  rfl

theorem applyAll_append (fst snd : List (Write Cell Value)) (store : Cell → Value) :
    applyAll (fst ++ snd) store = applyAll snd (applyAll fst store) :=
  foldl_append

variable {cell : Cell} {writes : List (Write Cell Value)}

theorem apply_outside (untouched : write cell = none) : write.apply store cell = store cell := by
  simp [apply, untouched]

theorem applyAll_outside : ∀ (store : Cell → Value), (∀ write ∈ writes, write cell = none) →
      applyAll writes store cell = store cell := by
  induction writes with
  | nil =>
    intro store _
    rfl
  | cons write writes ih =>
    intro store untouched
    rw [applyAll_cons, ih _ fun other mem =>
      untouched other (mem_cons_of_mem write mem)]
    exact apply_outside (untouched write mem_cons_self)

theorem applyAll_congr : ∀ {fst snd : Cell → Value},
      ((∀ write ∈ writes, write cell = none) → fst cell = snd cell) →
      applyAll writes fst cell = applyAll writes snd cell := by
  induction writes with
  | nil =>
    intro fst snd agree
    exact agree (by simp)
  | cons write writes ih =>
    intro fst snd agree
    rw [applyAll_cons, applyAll_cons]
    apply ih
    intro untouched
    cases touched : write cell with
    | none =>
      rw [apply_outside touched, apply_outside touched]
      apply agree
      intro other mem
      rcases mem_cons.mp mem with isFirst | later
      · rw [isFirst, touched]
      · exact untouched other later
    | some value => simp [apply, touched]

/-- Items with different keys: what one of them writes and no other touches. -/
theorem applyAll_mem {Key Content : Type} {items : List (Key × Content)}
    {change : Key × Content → Write Cell Value} {item : Key × Content} {value : Value}
    (nodup : (items.map Prod.fst).Nodup) (mem : item ∈ items)
    (touched : change item cell = some value)
    (others : ∀ other ∈ items, item.1 ≠ other.1 → change other cell = none) :
    applyAll (items.map change) store cell = value := by
  obtain ⟨pre, after, shape⟩ := append_of_mem mem
  rw [shape, map_append, map_cons, nodup_append, nodup_cons] at nodup
  rw [shape, map_append, map_cons, applyAll_append, applyAll_cons, applyAll_outside]
  · simp [apply, touched]
  · intro write later
    obtain ⟨other, member, isChange⟩ := mem_map.mp later
    rw [← isChange]
    refine others other (by simp [shape, member]) fun same => nodup.2.1.1 ?_
    rw [same]
    exact mem_map_of_mem member

theorem applyAll_again {kept : List (Write Cell Value)} (given : ∀ write ∈ kept, write ∈ writes) :
    applyAll writes (applyAll kept store) = applyAll writes store := by
  funext cell
  apply applyAll_congr
  intro untouched
  exact applyAll_outside store fun write mem =>
    untouched write (given write mem)

end Write

/-! ## Commands and crashes -/

inductive Command (Cell Value : Type) where
  | write (write : Write Cell Value)
  | flush

/-- The writes among some commands, in their order. -/
def Command.writes {Cell Value : Type} : List (Command Cell Value) → List (Write Cell Value)
  | [] => []
  | .write fst :: rest => fst :: writes rest
  | .flush :: rest => writes rest

theorem Command.writes_append {Cell Value : Type} {fst snd : List (Command Cell Value)} :
    writes (fst ++ snd) = writes fst ++ writes snd := by
  induction fst with
  | nil => rfl
  | cons command fst ih =>
    cases command with
    | write change => simp [writes, ih]
    | flush => simpa [writes] using ih

theorem Command.writes_map {Cell Value Item : Type}
    (change : Item → Write Cell Value) (items : List Item) :
    writes (items.map fun item => .write (change item)) = items.map change := by
  induction items with
  | nil => rfl
  | cons item items ih => simp [writes, ih]

structure Cached (Cell Value : Type) where
  stable : Cell → Value
  pending : List (Write Cell Value)

namespace Cached

variable {Cell Value : Type}

variable (disk : Cached Cell Value)

/-- What a read sees: the pending writes are in the cache. -/
def view : Cell → Value := Write.applyAll disk.pending disk.stable

def step : Command Cell Value → Cached Cell Value
  | .write write => { disk with pending := disk.pending ++ [write] }
  | .flush => { stable := disk.view, pending := [] }

def run (commands : List (Command Cell Value)) : Cached Cell Value :=
  commands.foldl step disk

@[simp]
theorem run_nil {disk : Cached Cell Value} : disk.run [] = disk := rfl

theorem run_cons {disk : Cached Cell Value} {command : Command Cell Value}
    {commands : List (Command Cell Value)} :
    disk.run (command :: commands) = (disk.step command).run commands :=
  rfl

theorem run_append (disk : Cached Cell Value) (fst snd : List (Command Cell Value)) :
    disk.run (fst ++ snd) = (disk.run fst).run snd :=
  foldl_append

theorem run_writes {writes : List (Write Cell Value)} : ∀ (disk : Cached Cell Value),
      disk.run (writes.map .write) = { disk with pending := disk.pending ++ writes } := by
  induction writes with
  | nil =>
    simp
  | cons write writes ih =>
    intro disk
    rw [map_cons, run_cons, ih]
    simp [step]

/-- Whatever command a crash comes after, and whatever it keeps of the pending
writes within the guard, the store has the property. -/
def CrashSafe (guard : Cached Cell Value → List (Write Cell Value) → Prop)
    (property : (Cell → Value) → Prop) (disk : Cached Cell Value)
    (commands : List (Command Cell Value)) : Prop :=
  ∀ count kept,
    kept.Sublist (disk.run (commands.take count)).pending →
    guard (disk.run (commands.take count)) kept →
    property (Write.applyAll kept (disk.run (commands.take count)).stable)

variable {guard : Cached Cell Value → List (Write Cell Value) → Prop}
  {property : (Cell → Value) → Prop}

variable {disk : Cached Cell Value} {items : List Item} {change : Item → Write Cell Value}
  {Item : Type}

theorem CrashSafe.append {fst snd : List (Command Cell Value)}
    (safeFirst : CrashSafe guard property disk fst)
    (safeSecond : CrashSafe guard property (disk.run fst) snd) :
    CrashSafe guard property disk (fst ++ snd) := by
  intro count kept sublist guarded
  by_cases early : count ≤ fst.length
  · rw [take_append_of_le_length early] at sublist guarded ⊢
    exact safeFirst count kept sublist guarded
  · rw [take_append, take_of_length_le (by omega), run_append] at sublist guarded ⊢
    exact safeSecond (count - fst.length) kept sublist guarded

theorem map_write {Item : Type*} (change : Item → Write Cell Value) (items : List Item) :
    (items.map fun item => Command.write (change item)) = (items.map change).map .write := by
  rw [map_map]
  rfl

theorem CrashSafe.flush (pre : ∀ kept, kept.Sublist disk.pending → guard disk kept →
      property (Write.applyAll kept disk.stable)) (after : property disk.view) :
    CrashSafe guard property disk [.flush] := by
  intro count kept sublist guarded
  cases count with
  | zero => exact pre kept sublist guarded
  | succ count =>
    rw [take_of_length_le (by simp)] at sublist ⊢
    have nothing : kept = [] := sublist_nil.mp sublist
    rw [nothing]
    exact after

theorem run_epoch (disk : Cached Cell Value)
    (change : Item → Write Cell Value) (items : List Item) :
    disk.run ((items.map fun item => .write (change item)) ++ [.flush]) =
      { stable := Write.applyAll (disk.pending ++ items.map change) disk.stable
        pending := [] } := by
  rw [run_append, map_write change, run_writes]
  rfl

section

variable (safe : ∀ count kept, kept.Sublist (disk.pending ++ (items.take count).map change) → guard
  { disk with pending := disk.pending ++ (items.take count).map change }
  kept →
  property (Write.applyAll kept disk.stable))

include safe

theorem CrashSafe.writes :
    CrashSafe guard property disk (items.map fun item => .write (change item)) := by
  intro count kept sublist guarded
  rw [← map_take, map_write change, run_writes] at sublist guarded ⊢
  exact safe count kept sublist guarded

theorem CrashSafe.epoch
    (after : property (Write.applyAll (disk.pending ++ items.map change) disk.stable)) :
    CrashSafe guard property disk ((items.map fun item => .write (change item)) ++ [.flush]) := by
  apply CrashSafe.append (CrashSafe.writes safe)
  rw [map_write change, run_writes]
  apply CrashSafe.flush
  · intro kept sublist guarded
    apply safe items.length kept
    · rw [take_length]
      exact sublist
    · rw [take_length]
      exact guarded
  · exact after

end

/-- An epoch that starts with nothing pending and whose property does not need
the guard. -/
theorem CrashSafe.freshEpoch {stable : Cell → Value}
    (safe : ∀ kept, kept.Sublist (items.map change) → property (Write.applyAll kept stable)) :
    CrashSafe guard property { stable := stable, pending := [] }
      ((items.map fun item => .write (change item)) ++ [.flush]) := by
  apply CrashSafe.epoch
  · intro count kept sublist _
    exact safe kept (sublist.trans ((take_sublist count items).map change))
  · exact safe (items.map change) (List.Sublist.refl _)

end Cached

end ExOs.Library
