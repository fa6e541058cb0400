import Mathlib.Logic.Function.Basic
import Mathlib.Tactic.Common

/-!
# Hash tables with intrusive chains

An array of entries, each with a key, or none when it is free, and a link to
the next entry of its bucket; free entries may use theirs for something else.
`WellFormed` names the chain of every bucket, and there looking a key up,
unlinking an entry and linking one do what the list of entries says.
-/

namespace ExOs.Library

open List Function

structure BucketTable (K : Type) where
  key : Nat → Option K
  next : Nat → Option Nat
  head : Nat → Option Nat

namespace BucketTable

variable {K : Type}

/-- The cells that hold a link: the head of a bucket or the field of an
entry. -/
inductive Link where
  | bucket (index : Nat)
  | entry (index : Nat)

variable (table : BucketTable K)

def read : Link → Option Nat
  | .bucket index => table.head index
  | .entry index => table.next index

def write (link : Link) (target : Option Nat) : BucketTable K :=
  match link with
  | .bucket index =>
    { table with head := update table.head index target }
  | .entry index =>
    { table with next := update table.next index target }

def findFrom [DecidableEq K] (table : BucketTable K) (wanted : K) : Nat → Option Nat → Option Nat
  | 0, _ => none
  | _ + 1, none => none
  | fuel + 1, some index =>
    if table.key index = some wanted then some index
    else findFrom table wanted fuel (table.next index)

/-- The walk of a chain for the cell that links to an entry. -/
def seek (table : BucketTable K) (target : Nat) : Nat → Link → Link
  | 0, link => link
  | fuel + 1, link =>
    match table.read link with
    | none => link
    | some index =>
      if index = target then link else seek table target fuel (.entry index)

/-- Takes an entry out of a bucket; its key and its own link stay. -/
def bypass (size bucket target : Nat) : BucketTable K :=
  let link := table.seek target size (.bucket bucket)
  if table.read link = some target then table.write link (table.next target)
  else table

def setKey (index : Nat) (key : Option K) : BucketTable K :=
  { table with key := update table.key index key }

def push (bucket index : Nat) (key : K) : BucketTable K :=
  { key := update table.key index (some key)
    next := update table.next index (table.head bucket)
    head := update table.head bucket (some index) }

/-- Following `next` from a link visits exactly the given entries. -/
def Follow (next : Nat → Option Nat) : Option Nat → List Nat → Prop
  | link, [] => link = none
  | link, index :: rest => link = some index ∧ Follow next (next index) rest

variable {next : Nat → Option Nat} {target : Nat} {front rest : List Nat}
  {next' : Nat → Option Nat} {indices : List Nat} {previous : Nat}

theorem Follow.congr : ∀ {link : Option Nat}, Follow next link indices →
      (∀ index ∈ indices, next' index = next index) → Follow next' link indices := by
  induction indices with
  | nil =>
    intro link chain _
    exact chain
  | cons index rest ih =>
    intro link chain agree
    refine ⟨chain.1, ?_⟩
    rw [agree index (mem_cons_self)]
    exact ih chain.2 fun other mem =>
      agree other (mem_cons_of_mem index mem)

theorem Follow.bypass :
    ∀ {link : Option Nat}, Follow next link (front ++ previous :: target :: rest) →
      next' previous = next target → (∀ index ∈ front ++ rest, next' index = next index) →
      Follow next' link (front ++ previous :: rest) := by
  induction front with
  | nil =>
    intro link chain redirected agree
    obtain ⟨atPrevious, _, tail⟩ := chain
    refine ⟨atPrevious, ?_⟩
    rw [redirected]
    exact tail.congr agree
  | cons index front ih =>
    intro link chain redirected agree
    refine ⟨chain.1, ?_⟩
    rw [agree index (by simp)]
    apply ih chain.2 redirected
    intro other mem
    exact agree other (by
      exact mem_cons_of_mem index mem)

theorem Follow.link_of_split :
    ∀ {link : Option Nat}, Follow next link (front ++ previous :: target :: rest) →
      next previous = some target := by
  induction front with
  | nil =>
    intro link chain
    exact chain.2.1
  | cons index front ih =>
    intro link chain
    exact ih chain.2

theorem Follow.range' (next : Nat → Option Nat) (count : Nat) : ∀ (start : Nat),
      (∀ index, start ≤ index → index + 1 < start + count → next index = some (index + 1)) →
      (count ≠ 0 → next (start + count - 1) = none) →
      Follow next (if count = 0 then none else some start) (List.range' start count) := by
  induction count with
  | zero =>
    intro start _ _
    rfl
  | succ count ih =>
    intro start linked last
    refine ⟨rfl, ?_⟩
    have rest := ih (start + 1) (fun index lower upper => linked index (by omega) (by omega)) (by
          intro _
          rw [← last (Nat.succ_ne_zero count)]
          congr 1
          omega)
    cases count with
    | zero =>
      rw [show next start = none from last (Nat.succ_ne_zero 0)]
      exact rest
    | succ count =>
      rw [linked start (Nat.le_refl start) (by omega)]
      exact rest

theorem seek_eq (table : BucketTable K) :
    ∀ {fuel : Nat} {link : Link}, Follow table.next (table.read link) (front ++ target :: rest) →
      target ∉ front → front.length < fuel →
      table.seek target fuel link = (front.map Link.entry).getLastD link := by
  induction front with
  | nil =>
    intro fuel link chain _ enough
    cases fuel with
    | zero => simp at enough
    | succ fuel =>
      have reached : table.read link = some target := chain.1
      simp [seek, reached]
  | cons index front ih =>
    intro fuel link chain absent enough
    cases fuel with
    | zero => simp at enough
    | succ fuel =>
      have reached : table.read link = some index := chain.1
      have ne : index ≠ target := fun equal =>
        absent (equal ▸ mem_cons_self)
      have tail : Follow table.next (table.read (.entry index)) (front ++ target :: rest) := chain.2
      have later := @ih fuel (.entry index) tail
          (fun mem => absent (mem_cons_of_mem index mem))
          (by
            simp only [length_cons] at enough
            omega)
      simp only [seek, reached, ne, if_false]
      rw [later, map_cons, getLastD_cons]

theorem findFrom_eq [DecidableEq K] (table : BucketTable K) {wanted : K} :
    ∀ {fuel : Nat} {link : Option Nat}, Follow table.next link indices → indices.length < fuel →
      table.findFrom wanted fuel link =
        indices.find? fun index => table.key index = some wanted := by
  induction indices with
  | nil =>
    intro fuel link chain enough
    have ended : link = none := chain
    cases fuel with
    | zero => simp at enough
    | succ fuel => simp [findFrom, ended]
  | cons index rest ih =>
    intro fuel link chain enough
    cases fuel with
    | zero => simp at enough
    | succ fuel =>
      have reached : link = some index := chain.1
      rw [reached, findFrom]
      split
      · next found =>
        rw [List.find?_cons_of_pos (by simp [found])]
      rename_i found
      rw [List.find?_cons_of_neg (by simp [found])]
      apply ih chain.2
      simp only [length_cons] at enough
      omega

/-! ## Well-formed tables -/

/-- Each bucket's chain holds exactly the entries whose key falls in it, and
no two entries have one key. -/
structure WellFormed (table : BucketTable K) (hash : K → Nat) (size : Nat)
    (chains : Nat → List Nat) : Prop where
  chained : ∀ bucket, Follow table.next (table.head bucket) (chains bucket)
  nodup : ∀ bucket, (chains bucket).Nodup
  placed : ∀ bucket index,
    index ∈ chains bucket ↔ ∃ key, table.key index = some key ∧ hash key = bucket
  unique : ∀ fst snd key, table.key fst = some key → table.key snd = some key → fst = snd
  bounded : ∀ index key, table.key index = some key → index < size

namespace WellFormed

variable {table : BucketTable K} {hash : K → Nat} {size : Nat} {chains : Nat → List Nat}

theorem length_le (formed : WellFormed table hash size chains)
    (bucket : Nat) : (chains bucket).length ≤ size := by
  have inside : chains bucket ⊆ List.range size := by
    intro index mem
    obtain ⟨key, live, _⟩ := (formed.placed bucket index).mp mem
    exact mem_range.mpr (formed.bounded index key live)
  have shorter := (formed.nodup bucket).length_le_of_subset inside
  rw [length_range] at shorter
  exact shorter

theorem empty (hash : K → Nat) (size : Nat) (next : Nat → Option Nat) : WellFormed
      { key := fun _ => none, next := next, head := fun _ => none }
      hash size (fun _ => []) := by
  constructor <;> simp [Follow]

section

variable (formed : WellFormed table hash size chains) {table' : BucketTable K} {wanted : K}

include formed

theorem congr (sameKey : table'.key = table.key) (sameHead : table'.head = table.head)
    (agree : ∀ index key, table.key index = some key → table'.next index = table.next index) :
    WellFormed table' hash size chains := by
  refine { chained := ?_, nodup := formed.nodup, placed := ?_, unique := ?_, bounded := ?_ }
  · intro bucket
    rw [sameHead]
    refine (formed.chained bucket).congr ?_
    intro index mem
    obtain ⟨key, live, _⟩ := (formed.placed bucket index).mp mem
    exact agree index key live
  · rw [sameKey]
    exact formed.placed
  · rw [sameKey]
    exact formed.unique
  · rw [sameKey]
    exact formed.bounded

theorem findFrom_eq_some_iff [DecidableEq K] {wanted : K} {index : Nat} :
    table.findFrom wanted (size + 1) (table.head (hash wanted)) = some index ↔
      table.key index = some wanted := by
  rw [table.findFrom_eq (formed.chained (hash wanted)) (Nat.lt_succ_of_le (formed.length_le _))]
  constructor
  · intro found
    simpa using List.find?_some found
  · intro live
    cases found : (chains (hash wanted)).find? fun index =>
        table.key index = some wanted with
    | none =>
      have mem : index ∈ chains (hash wanted) := (formed.placed _ _).mpr ⟨wanted, live, rfl⟩
      have fails := List.find?_eq_none.mp found index mem
      simp [live] at fails
    | some other =>
      have otherLive : table.key other = some wanted := by simpa using List.find?_some found
      rw [formed.unique other index wanted otherLive live]

/-- The entries left when the one at `index` is gone. -/
theorem key_of_erased {index : Nat} (live : table.key index = some wanted)
    (keys : ∀ k, table'.key k = if k = index then none else table.key k) {k : Nat} {other : K}
    (kLive : table'.key k = some other) : table.key k = some other ∧ other ≠ wanted := by
  rw [keys] at kLive
  obtain ⟨ne, pre⟩ := Option.ite_none_left_eq_some.mp kLive
  exact ⟨pre, fun equal => ne (formed.unique k index wanted (equal ▸ pre) live)⟩

theorem findFrom_eq_none [DecidableEq K]
    (missing : table.findFrom wanted (size + 1) (table.head (hash wanted)) = none) (index : Nat) :
    table.key index ≠ some wanted := by
  intro live
  rw [formed.findFrom_eq_some_iff.mpr live] at missing
  exact absurd missing (by simp)

end

variable {key : K} {target : Nat}

section

variable (formed : WellFormed table hash size chains) {index : Nat}

include formed

theorem rekey {table' : BucketTable K} {chains' : Nat → List Nat} {value : Option K}
    (chained : ∀ bucket, Follow table'.next (table'.head bucket) (chains' bucket))
    (nodup : ∀ bucket, (chains' bucket).Nodup)
    (keys : ∀ other, table'.key other = if other = index then value else table.key other)
    (members : ∀ bucket other, other ∈ chains' bucket ↔
      if other = index then ∃ key, value = some key ∧ hash key = bucket else other ∈ chains bucket)
    (fresh : ∀ key, value = some key → index < size ∧ ∀ other, table.key other ≠ some key) :
    WellFormed table' hash size chains' := by
  refine ⟨chained, nodup, ?_, ?_, ?_⟩
  · intro bucket other
    rw [members, keys]
    split
    · exact Iff.rfl
    · exact formed.placed bucket other
  · intro fst snd key firstLive secondLive
    rw [keys] at firstLive secondLive
    split at firstLive
    · next firstIs =>
      split at secondLive
      · next secondIs => exact firstIs.trans secondIs.symm
      · exact absurd secondLive ((fresh key firstLive).2 snd)
    · split at secondLive
      · exact absurd firstLive ((fresh key secondLive).2 fst)
      · exact formed.unique fst snd key firstLive secondLive
  · intro other key live
    rw [keys] at live
    split at live
    · next isIndex =>
      rw [isIndex]
      exact (fresh key live).1
    · exact formed.bounded other key live

section

variable (live : table.key target = some key)

include live

/-- The two ways an entry leaves its bucket: as its head, or after another
entry of the chain. -/
theorem bypass_cases :
    (∃ rest, chains (hash key) = target :: rest ∧ table.bypass (size + 1) (hash key) target =
          table.write (.bucket (hash key)) (table.next target)) ∨
      ∃ front previous rest, chains (hash key) = front ++ previous :: target :: rest ∧
          table.bypass (size + 1) (hash key) target =
            table.write (.entry previous) (table.next target) := by
  have mem : target ∈ chains (hash key) := (formed.placed _ _).mpr ⟨key, live, rfl⟩
  obtain ⟨front, rest, shape⟩ := append_of_mem mem
  have chain := formed.chained (hash key)
  have nodup := formed.nodup (hash key)
  have short := formed.length_le (hash key)
  rw [shape] at chain nodup short
  have absent : target ∉ front := fun member =>
    (nodup_append.mp nodup).2.2 target member target (mem_cons_self) rfl
  have sought : table.seek target (size + 1) (.bucket (hash key)) =
        (front.map Link.entry).getLastD (.bucket (hash key)) := by
    have fromHead : Follow table.next (table.read (.bucket (hash key)))
          (front ++ target :: rest) := chain
    apply table.seek_eq fromHead absent
    simp only [length_append, length_cons] at short
    omega
  unfold bypass
  rcases eq_nil_or_concat front with empty | ⟨initial, previous, concat⟩
  · subst empty
    have fst : table.read (.bucket (hash key)) = some target := chain.1
    left
    refine ⟨rest, shape, ?_⟩
    rw [sought, map_nil, getLastD_nil, if_pos fst]
  · rw [concat_eq_append] at concat
    subst concat
    rw [append_assoc] at chain shape
    have linked : table.read (.entry previous) = some target := chain.link_of_split
    right
    refine ⟨initial, previous, rest, shape, ?_⟩
    rw [sought, map_append, map_singleton, getLastD_concat, if_pos linked]

theorem bypass_frame : (table.bypass (size + 1) (hash key) target).key = table.key ∧
      ∀ index, (table.key index = none ∨ index = target) →
        (table.bypass (size + 1) (hash key) target).next index = table.next index := by
  rcases formed.bypass_cases live with
    ⟨rest, _, bypassed⟩ | ⟨front, previous, rest, shape, bypassed⟩
  · rw [bypassed]
    exact ⟨rfl, fun _ _ => rfl⟩
  · rw [bypassed]
    refine ⟨rfl, ?_⟩
    intro index other
    have nodup := formed.nodup (hash key)
    have mem : previous ∈ chains (hash key) := by simp [shape]
    obtain ⟨previousKey, previousLive, _⟩ := (formed.placed _ _).mp mem
    have ne : index ≠ previous := by
      intro equal
      rcases other with free | isTarget
      · rw [equal, previousLive] at free
        exact absurd free (by simp)
      · rw [shape, ← equal, isTarget] at nodup
        simp [nodup_append] at nodup
    exact update_of_ne ne ..

theorem unlink_key (index : Nat) :
    ((table.bypass (size + 1) (hash key) target).setKey target none).key index =
      if index = target then none else table.key index := by
  rw [setKey, (formed.bypass_frame live).1]
  exact update_apply ..

theorem unlink :
    WellFormed ((table.bypass (size + 1) (hash key) target).setKey target none) hash size
      (update chains (hash key) ((chains (hash key)).erase target)) := by
  have nodup := formed.nodup (hash key)
  refine formed.rekey ?_ ?_ (formed.unlink_key live) ?_ (by simp)
  · intro bucket
    by_cases here : bucket = hash key
    · rw [here, update_self]
      have chain := formed.chained (hash key)
      rcases formed.bypass_cases live with
        ⟨rest, shape, bypassed⟩ | ⟨front, previous, rest, shape, bypassed⟩
      · rw [shape] at chain ⊢
        rw [bypassed, erase_cons_head]
        have atHead : ((table.write (.bucket (hash key)) (table.next target)).setKey
              target none).head (hash key) = table.next target :=
          update_self ..
        rw [atHead]
        exact chain.2
      · rw [shape] at chain nodup ⊢
        have erased : (front ++ previous :: target :: rest).erase target =
              front ++ previous :: rest := by
          have absent : target ∉ front ++ [previous] := by
            grind
          have regroup : front ++ previous :: target :: rest =
                (front ++ [previous]) ++ target :: rest := by simp
          rw [regroup, erase_append_right _ absent]
          simp
        rw [erased, bypassed]
        refine chain.bypass (update_self ..) ?_
        intro index mem
        have ne : index ≠ previous := by
          grind
        exact update_of_ne ne ..
    · rw [update_of_ne here]
      have chain := formed.chained bucket
      rcases formed.bypass_cases live with
        ⟨rest, shape, bypassed⟩ | ⟨front, previous, rest, shape, bypassed⟩
      · rw [bypassed]
        have sameHead : ((table.write (.bucket (hash key)) (table.next target)).setKey
              target none).head bucket = table.head bucket :=
          update_of_ne here ..
        rw [sameHead]
        exact chain
      · rw [bypassed]
        refine chain.congr ?_
        intro index mem
        have previousMember : previous ∈ chains (hash key) := by simp [shape]
        have ne : index ≠ previous := by
          intro equal
          obtain ⟨fst, firstLive, firstPlace⟩ := (formed.placed _ _).mp mem
          obtain ⟨snd, secondLive, secondPlace⟩ := (formed.placed _ _).mp previousMember
          rw [equal, secondLive] at firstLive
          have sameKey : snd = fst := Option.some.inj firstLive
          exact here (firstPlace.symm.trans (sameKey ▸ secondPlace))
        exact update_of_ne ne ..
  · intro bucket
    by_cases here : bucket = hash key
    · rw [here, update_self]
      exact nodup.erase target
    · rw [update_of_ne here]
      exact formed.nodup bucket
  · intro bucket index
    have others : target ∉ chains bucket ∨ bucket = hash key := by
      rw [formed.placed, live]
      simp only [Option.some.injEq, exists_eq_left']
      exact (eq_or_ne bucket (hash key)).symm.imp_left Ne.symm
    by_cases here : bucket = hash key
    · rw [here, update_self, nodup.mem_erase_iff]
      by_cases isTarget : index = target <;> simp [isTarget]
    rw [update_of_ne here]
    by_cases isTarget : index = target
    · simp [isTarget, others.resolve_right here]
    · simp [isTarget]

end

theorem push (free : table.key index = none)
    (small : index < size) (absent : ∀ other, table.key other ≠ some key) :
    WellFormed (table.push (hash key) index key) hash size
      (update chains (hash key) (index :: chains (hash key))) := by
  have notLinked : ∀ bucket, index ∉ chains bucket := by
    intro bucket mem
    obtain ⟨other, live, _⟩ := (formed.placed bucket index).mp mem
    rw [free] at live
    exact absurd live (by simp)
  have keys : ∀ other, (table.push (hash key) index key).key other =
        if other = index then some key else table.key other :=
    fun other => update_apply ..
  have links : ∀ bucket, ∀ other ∈ chains bucket,
      (table.push (hash key) index key).next other = table.next other := by
    intro bucket other mem
    have ne : other ≠ index := fun equal =>
      notLinked bucket (equal ▸ mem)
    exact update_of_ne ne ..
  refine formed.rekey ?_ ?_ keys ?_ ?_
  · intro bucket
    by_cases here : bucket = hash key
    · rw [here, update_self]
      refine ⟨update_self .., ?_⟩
      have ownLink : (table.push (hash key) index key).next index = table.head (hash key) :=
        update_self ..
      rw [ownLink]
      exact (formed.chained (hash key)).congr (links (hash key))
    · rw [update_of_ne here]
      have sameHead : (table.push (hash key) index key).head bucket = table.head bucket :=
        update_of_ne here ..
      rw [sameHead]
      exact (formed.chained bucket).congr (links bucket)
  · intro bucket
    by_cases here : bucket = hash key
    · rw [here, update_self, nodup_cons]
      exact ⟨notLinked _, formed.nodup _⟩
    · rw [update_of_ne here]
      exact formed.nodup bucket
  · intro bucket other
    by_cases here : bucket = hash key
    · rw [here]
      by_cases isIndex : other = index <;> simp [isIndex]
    rw [update_of_ne here]
    by_cases isIndex : other = index
    · simp [isIndex, notLinked bucket, Ne.symm here]
    · simp [isIndex]
  · rintro _ ⟨⟩
    exact ⟨small, absent⟩

end

end WellFormed

end BucketTable

end ExOs.Library
