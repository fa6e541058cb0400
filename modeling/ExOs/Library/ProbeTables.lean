import ExOs.Library.Counts
import Mathlib.Logic.Function.Basic

/-!
# Hash tables with linear probing

An array of `m` slots, each with a key or none.  A key is looked for from its
home on, round the end, until it is met or a slot without a key; removing an
entry moves back those after it that the gap would hide.  On a sound table
these loops do what the set of its entries says.
-/

namespace ExOs.Library.ProbeTable

open Function

variable {Entry Key : Type}

/-- How far `target` is after `start`, going round `m` slots. -/
def distance (m start target : Nat) : Nat :=
  if start ≤ target then target - start else target + m - start

section Loops

variable [DecidableEq Key] (key : Entry → Option Key) (next : Nat → Nat)

/-- The slot of a key, from slot `i` on. -/
def find (slot : Nat → Entry) (wanted : Key) : Nat → Nat → Option Nat
  | 0, _ => none
  | fuel + 1, i =>
    match key (slot i) with
    | none => none
    | some k => if k = wanted then some i else find slot wanted fuel (next i)

/-- The first slot without a key, from slot `i` on. -/
def firstFree (slot : Nat → Entry) : Nat → Nat → Nat
  | 0, i => i
  | fuel + 1, i =>
    if (key (slot i)).isNone then i else firstFree slot fuel (next i)

/-- The gap lies on the way from `home` to `j`. -/
def hides (home gap j : Nat) : Bool :=
  if gap ≤ j then home ≤ gap || j < home else home ≤ gap && j < home

/-- The slots from `j` on, after a slot before them lost its entry. -/
def closeGap (home : Key → Nat) (empty : Entry) : Nat → (Nat → Entry) → Nat → Nat → Nat → Entry
  | 0, slot, _, _ => slot
  | fuel + 1, slot, gap, j =>
    match key (slot j) with
    | none => slot
    | some k =>
      if hides (home k) gap j then
        closeGap home empty fuel (update (update slot gap (slot j)) j empty) j (next j)
      else closeGap home empty fuel slot gap (next j)

/-- That loop meets a slot without a key. -/
def gapCloses (home : Key → Nat) (empty : Entry) : Nat → (Nat → Entry) → Nat → Nat → Bool
  | 0, _, _, _ => false
  | fuel + 1, slot, gap, j =>
    match key (slot j) with
    | none => true
    | some k =>
      if hides (home k) gap j then
        gapCloses home empty fuel (update (update slot gap (slot j)) j empty) j (next j)
      else gapCloses home empty fuel slot gap (next j)

/-- The entries of slots 0 to `n - 1` of another table stored one after the
other. -/
def rehash (home : Key → Nat) (empty : Entry) (m : Nat) (old : Nat → Entry)
    (n : Nat) : Nat → Entry :=
  (List.range n).foldl
    (fun slot i =>
      match key (old i) with
      | none => slot
      | some k =>
        update slot (firstFree key next slot m (home k)) (old i))
    fun _ => empty

end Loops

section Sound

variable (key : Entry → Option Key) (home : Key → Nat) (m : Nat)

/-- No key twice, and no free slot between the home of a key and its place. -/
structure Sound (slot : Nat → Entry) : Prop where
  reach : ∀ q < m, ∀ k, key (slot q) = some k →
    ∀ p < m, distance m (home k) p < distance m (home k) q → (key (slot p)).isSome
  distinct : ∀ p < m, ∀ q < m, ∀ k, key (slot p) = some k → key (slot q) = some k → p = q

/-- The table has entry `e` under key `k`. -/
def Holds (slot : Nat → Entry) (k : Key) (e : Entry) : Prop := key e = some k ∧ ∃ q < m, slot q = e

def filled (slot : Nat → Entry) : Nat := countBelow m fun q => (key (slot q)).isSome

variable {key home m} {slot : Nat → Entry}

theorem exists_free (few : filled key m slot < m) : ∃ z < m, key (slot z) = none := by
  obtain ⟨z, lt, free⟩ := exists_clear_of_countBelow_lt few
  exact ⟨z, lt, by simpa using free⟩

theorem ne_of_free {p q : Nat} (free : key (slot p) = none)
    (busy : (key (slot q)).isSome) : p ≠ q := by
  intro same
  rw [← same, free] at busy
  simp at busy

theorem Sound.entry_unique (sound : Sound key home m slot)
    {k : Key} {e e' : Entry} (fst : Holds key m slot k e)
    (snd : Holds key m slot k e') : e = e' := by
  obtain ⟨keyed, p, pin, isE⟩ := fst
  obtain ⟨keyed', q, qin, isE'⟩ := snd
  rw [← isE] at keyed
  rw [← isE'] at keyed'
  rw [← isE, ← isE', sound.distinct p pin q qin k keyed keyed']

end Sound

/-! ## Looking a key up -/

section Walks

variable {key : Entry → Option Key} {next : Nat → Nat} {m : Nat} {slot : Nat → Entry}

/-- `next` goes round `m` slots. -/
def Round (next : Nat → Nat) (m : Nat) : Prop := ∀ i < m, next i = if i + 1 = m then 0 else i + 1

variable {i q : Nat} {wanted : Key}

theorem Round.lt (round : Round next m) (lt : i < m) : next i < m := by
  rw [round i lt]
  split <;> omega

theorem Round.cases (round : Round next m) (lt : i < m) :
    next i = i + 1 ∧ i + 1 < m ∨ next i = 0 ∧ i + 1 = m := by
  rw [round i lt]
  split <;> omega

theorem distance_cases (lt : i < m) (qin : q < m) : distance m i q < m ∧
      (i + distance m i q = q ∨ i + distance m i q = q + m) := by
  unfold distance
  split <;> omega

theorem distance_lt (lt : i < m) (qin : q < m) : distance m i q < m := (distance_cases lt qin).1

theorem distance_same : distance m i i = 0 := by
  unfold distance
  rw [if_pos (Nat.le_refl i), Nat.sub_self]

theorem distance_inj {p : Nat} (lt : i < m) (pin : p < m)
    (qin : q < m) (same : distance m i p = distance m i q) : p = q := by
  have toP := distance_cases lt pin
  have toQ := distance_cases lt qin
  omega

section

variable (round : Round next m) (lt : i < m)

include round lt

theorem Round.distance_next (qin : q < m) (other : q ≠ i) :
    distance m i q = distance m (next i) q + 1 := by
  have fromI := distance_cases lt qin
  have fromNext := distance_cases (round.lt lt) qin
  have step := round.cases lt
  omega

theorem Round.distance_self : distance m (next i) i + 1 = m := by
  have fromNext := distance_cases (round.lt lt) lt
  have step := round.cases lt
  omega

theorem Round.distance_to_next {j : Nat} (jInside : j < m) (more : next j ≠ i) :
    distance m i (next j) = distance m i j + 1 := by
  have toJ := distance_cases lt jInside
  have toNext := distance_cases lt (round.lt jInside)
  have step := round.cases jInside
  omega

theorem Round.before_next {p : Nat} (pin : p < m) (qin : q < m) (other : q ≠ i)
    (pre : distance m (next i) p < distance m (next i) q) :
    distance m i p < distance m i q := by
  have toQ := round.distance_next lt qin other
  by_cases here : p = i
  · have back := round.distance_self lt
    have bound := distance_lt (round.lt lt) qin
    rw [here] at pre
    omega
  · have toP := round.distance_next lt pin here
    omega

end

variable [DecidableEq Key] {home : Key → Nat} {fuel : Nat}

theorem find_sound (round : Round next m) :
    ∀ i < m, find key next slot wanted fuel i = some q → q < m ∧ key (slot q) = some wanted := by
  induction fuel with
  | zero =>
    intro i _ found
    simp [find] at found
  | succ fuel ih =>
    intro i lt found
    unfold find at found
    cases keyed : key (slot i) with
    | none => simp [keyed] at found
    | some k =>
      rw [keyed] at found
      dsimp only at found
      split at found
      · next same =>
        injection found with isQ
        rw [← isQ, keyed, same]
        exact ⟨lt, rfl⟩
      · exact ih (next i) (round.lt lt) found

theorem find_reaches (round : Round next m) (qin : q < m) (keyed : key (slot q) = some wanted)
    (only : ∀ p < m, key (slot p) = some wanted → p = q) :
    ∀ i < m, distance m i q < fuel →
      (∀ p < m, distance m i p < distance m i q → (key (slot p)).isSome) →
      find key next slot wanted fuel i = some q := by
  induction fuel with
  | zero =>
    omega
  | succ fuel ih =>
    intro i lt enough reach
    rw [find]
    by_cases here : q = i
    · rw [← here, keyed]
      dsimp only
      rw [if_pos rfl]
    have step := round.distance_next lt qin here
    have busy : (key (slot i)).isSome := by
      apply reach i lt
      rw [distance_same]
      omega
    obtain ⟨k, hasKey⟩ := Option.isSome_iff_exists.mp busy
    have other : k ≠ wanted := by
      intro same
      rw [same] at hasKey
      exact here (only i lt hasKey).symm
    rw [hasKey]
    dsimp only
    rw [if_neg other]
    apply ih (next i) (round.lt lt) (by omega)
    intro p pin pre
    exact reach p pin (round.before_next lt pin qin here pre)

theorem Sound.find_eq_some_iff (sound : Sound key home m slot)
    (round : Round next m) (homeInside : home wanted < m) :
    find key next slot wanted m (home wanted) = some q ↔ q < m ∧ key (slot q) = some wanted := by
  constructor
  · exact find_sound round (home wanted) homeInside
  · rintro ⟨qin, keyed⟩
    apply find_reaches round qin keyed
    · intro p pin same
      exact sound.distinct p pin q qin wanted same keyed
    · exact homeInside
    · exact distance_lt homeInside qin
    · exact sound.reach q qin wanted keyed

theorem Sound.find_eq_none (sound : Sound key home m slot)
    (round : Round next m) (homeInside : home wanted < m)
    (missing : find key next slot wanted m (home wanted) = none) (e : Entry) :
    ¬ Holds key m slot wanted e := by
  rintro ⟨keyed, q, qin, isE⟩
  rw [← isE] at keyed
  rw [(sound.find_eq_some_iff round homeInside).mpr ⟨qin, keyed⟩] at missing
  simp at missing

omit [DecidableEq Key] in
theorem firstFree_spec (round : Round next m) {z : Nat} (zInside : z < m)
    (free : key (slot z) = none) :
    ∀ i < m, distance m i z < fuel → firstFree key next slot fuel i < m ∧
        key (slot (firstFree key next slot fuel i)) = none ∧
        ∀ p < m, distance m i p < distance m i (firstFree key next slot fuel i) →
          (key (slot p)).isSome := by
  induction fuel with
  | zero =>
    intro i _ enough
    omega
  | succ fuel ih =>
    intro i lt enough
    rw [firstFree]
    split
    · next isFree =>
      refine ⟨lt, Option.isNone_iff_eq_none.mp isFree, ?_⟩
      intro p _ pre
      rw [distance_same] at pre
      omega
    · next busy =>
      have isBusy := Option.isSome_iff_ne_none.mpr (by simpa using busy)
      have away := ne_of_free free isBusy
      have step := round.distance_next lt zInside away
      obtain ⟨inside', free', path⟩ := ih (next i) (round.lt lt) (by omega)
      refine ⟨inside', free', ?_⟩
      intro p pin pre
      by_cases here : p = i
      · rw [here]
        exact isBusy
      apply path p pin
      have other := ne_of_free free' isBusy
      have toP := round.distance_next lt pin here
      have toFree := round.distance_next lt inside' other
      omega

omit [DecidableEq Key] in
theorem firstFree_of_few (round : Round next m) (few : filled key m slot < m) (lt : i < m) :
    firstFree key next slot m i < m ∧ key (slot (firstFree key next slot m i)) = none ∧
      ∀ p < m, distance m i p < distance m i (firstFree key next slot m i) →
        (key (slot p)).isSome := by
  obtain ⟨z, zInside, zFree⟩ := exists_free few
  exact firstFree_spec round zInside zFree i lt (distance_lt lt zInside)

end Walks

section Updates

variable {key : Entry → Option Key} {home : Key → Nat} {m : Nat} {slot : Nat → Entry}

variable {e : Entry} {q : Nat}

theorem filled_update (lt : q < m) (free : key (slot q) = none) (keyed : (key e).isSome) :
    filled key m (update slot q e) = filled key m slot + 1 := by
  apply countBelow_mark lt
  · rw [free, Option.isSome_none]
  · rw [update_self, keyed]
  · intro i other
    rw [update_of_ne other]

theorem filled_clear (lt : q < m) (keyed : (key (slot q)).isSome) (free : key e = none) :
    filled key m (update slot q e) + 1 = filled key m slot := by
  symm
  apply countBelow_mark lt
  · rw [update_self, free, Option.isSome_none]
  · exact keyed
  · intro i other
    rw [update_of_ne other]

theorem Sound.insert (sound : Sound key home m slot)
    {k : Key} (free : key (slot q) = none) (keyed : key e = some k)
    (absent : ∀ e, ¬ Holds key m slot k e)
    (path : ∀ p < m, distance m (home k) p < distance m (home k) q → (key (slot p)).isSome) :
    Sound key home m (update slot q e) := by
  have still : ∀ p, (key (slot p)).isSome → (key (update slot q e p)).isSome := by
    intro p busy
    by_cases here : p = q
    · exact absurd here.symm (ne_of_free free busy)
    · rwa [update_of_ne here]
  have fresh : ∀ p < m, key (slot p) ≠ some k := by
    intro p pin same
    exact absent (slot p) ⟨same, p, pin, rfl⟩
  constructor
  · intro r rInside k' isKey p pin pre
    apply still
    by_cases here : r = q
    · rw [here, update_self, keyed] at isKey
      rw [← Option.some.inj isKey, here] at pre
      exact path p pin pre
    · rw [update_of_ne here] at isKey
      exact sound.reach r rInside k' isKey p pin pre
  · intro p pin r rInside k' pKey rKey
    by_cases pHere : p = q
    · by_cases rHere : r = q
      · rw [pHere, rHere]
      · rw [pHere, update_self, keyed] at pKey
        rw [update_of_ne rHere, ← Option.some.inj pKey] at rKey
        exact absurd rKey (fresh r rInside)
    · rw [update_of_ne pHere] at pKey
      by_cases rHere : r = q
      · rw [rHere, update_self, keyed] at rKey
        rw [← Option.some.inj rKey] at pKey
        exact absurd pKey (fresh p pin)
      · rw [update_of_ne rHere] at rKey
        exact sound.distinct p pin r rInside k' pKey rKey

/-- What a table holds after an entry is stored where its key is, or where no
entry is and its key is nowhere. -/
theorem holds_update [DecidableEq Key] {k : Key} (lt : q < m) (keyed : key e = some k)
    (only : ∀ p < m, key (slot p) = some k → p = q)
    (was : ∀ k', key (slot q) = some k' → k' = k) (k' : Key) (e' : Entry) :
    Holds key m (update slot q e) k' e' ↔ if k' = k then e' = e else Holds key m slot k' e' := by
  constructor
  · rintro ⟨isKey, p, pin, isE⟩
    by_cases here : p = q
    · rw [here, update_self] at isE
      rw [← isE, keyed] at isKey
      rw [if_pos (Option.some.inj isKey).symm, isE]
    rw [update_of_ne here] at isE
    rw [if_neg]
    · exact ⟨isKey, p, pin, isE⟩
    · intro same
      rw [← isE, same] at isKey
      exact here (only p pin isKey)
  · intro expected
    split at expected
    · next same =>
      rw [expected, same]
      exact ⟨keyed, q, lt, update_self q e slot⟩
    rename_i other
    obtain ⟨isKey, p, pin, isE⟩ := expected
    refine ⟨isKey, p, pin, ?_⟩
    rw [update_of_ne]
    · exact isE
    · intro here
      rw [here] at isE
      rw [← isE] at isKey
      exact other (was k' isKey)

theorem Sound.replace (sound : Sound key home m slot) (keyed : key e = key (slot q)) :
    Sound key home m (update slot q e) := by
  have same : ∀ p, key (update slot q e p) = key (slot p) := by
    intro p
    by_cases here : p = q
    · rw [here, update_self, keyed]
    · rw [update_of_ne here]
  constructor
  · intro r rInside k isKey p pin pre
    rw [same] at isKey ⊢
    exact sound.reach r rInside k isKey p pin pre
  · intro p pin r rInside k pKey rKey
    rw [same] at pKey rKey
    exact sound.distinct p pin r rInside k pKey rKey

theorem filled_replace (keyed : key e = key (slot q)) :
    filled key m (update slot q e) = filled key m slot := by
  apply countBelow_congr
  intro i _
  by_cases here : i = q
  · rw [here, update_self, keyed]
  · rw [update_of_ne here]

end Updates

/-! ## Removing an entry -/

section Removal

variable (key : Entry → Option Key) (home : Key → Nat) (m : Nat)

/-- The table while a gap is being closed: only the gap may be missing on the
way to an entry, and then the entry is not before `j`. -/
structure Gap (slot : Nat → Entry) (gap j : Nat) : Prop where
  gapInside : gap < m
  jInside : j < m
  free : key (slot gap) = none
  reach : ∀ q < m, ∀ k, key (slot q) = some k →
    ∀ p < m, distance m (home k) p < distance m (home k) q → p ≠ gap → (key (slot p)).isSome
  ahead : ∀ q < m, ∀ k, key (slot q) = some k →
    distance m (home k) gap < distance m (home k) q → distance m gap j ≤ distance m gap q
  passed : ∀ p < m, p ≠ gap → distance m gap p < distance m gap j → (key (slot p)).isSome
  distinct : ∀ p < m, ∀ q < m, ∀ k, key (slot p) = some k → key (slot q) = some k → p = q

variable {key home m} {slot : Nat → Entry} {gap j : Nat} {next : Nat → Nat}

theorem hides_iff {k : Nat} (kin : k < m) (gapInside : gap < m) (jInside : j < m) :
    hides k gap j = true ↔ distance m k gap < distance m k j ∨ gap = j := by
  have toGap := distance_cases kin gapInside
  have toJ := distance_cases kin jInside
  unfold hides
  split
  · simp only [Bool.or_eq_true, decide_eq_true_eq]
    omega
  · simp only [Bool.and_eq_true, decide_eq_true_eq]
    omega

theorem distance_between {k q : Nat} (kin : k < m) (gapInside : gap < m)
    (jInside : j < m) (qin : q < m) (fst : distance m k gap < distance m k q)
    (snd : distance m gap j < distance m gap q) :
    distance m k j < distance m k q := by
  have kGap := distance_cases kin gapInside
  have kJ := distance_cases kin jInside
  have kQ := distance_cases kin qin
  have gapJ := distance_cases gapInside jInside
  have gapQ := distance_cases gapInside qin
  omega

theorem Gap.sound (state : Gap key home m slot gap j)
    (homeInside : ∀ k, home k < m) (other : j ≠ gap)
    (stop : key (slot j) = none) : Sound key home m slot := by
  constructor
  · intro q qin k keyed p pin pre
    by_cases here : p = gap
    · rw [here] at pre
      have later := state.ahead q qin k keyed pre
      have away : distance m gap j ≠ distance m gap q := by
        intro same
        rw [distance_inj state.gapInside state.jInside qin same, keyed] at stop
        simp at stop
      have onTheWay := distance_between (homeInside k) state.gapInside
        state.jInside qin pre (by omega)
      have busy := state.reach q qin k keyed j state.jInside onTheWay other
      rw [stop] at busy
      simp at busy
    · exact state.reach q qin k keyed p pin pre here
  · exact state.distinct

theorem Gap.skip (state : Gap key home m slot gap j) (round : Round next m)
    (homeInside : ∀ k, home k < m) {k : Key} (keyed : key (slot j) = some k)
    (stays : hides (home k) gap j = false) (more : next j ≠ gap) :
    Gap key home m slot gap (next j) := by
  have further := round.distance_to_next state.gapInside state.jInside more
  have notHidden : ¬ distance m (home k) gap < distance m (home k) j := by
    intro hidden
    have covers := (hides_iff (homeInside k) state.gapInside state.jInside).mpr (.inl hidden)
    rw [stays] at covers
    simp at covers
  refine { state with jInside := round.lt state.jInside, ahead := ?_, passed := ?_ }
  · intro q qin k' qKeyed hidden
    have later := state.ahead q qin k' qKeyed hidden
    by_cases here : q = j
    · rw [here] at qKeyed hidden
      rw [keyed] at qKeyed
      rw [← Option.some.inj qKeyed] at hidden
      exact absurd hidden notHidden
    have away : distance m gap j ≠ distance m gap q := by
      intro same
      exact here (distance_inj state.gapInside state.jInside qin same).symm
    omega
  · intro p pin notGap pre
    by_cases here : p = j
    · rw [here, keyed]
      rfl
    apply state.passed p pin notGap
    have away : distance m gap p ≠ distance m gap j := by
      intro same
      exact here (distance_inj state.gapInside pin state.jInside same)
    omega

theorem Gap.start (round : Round next m) (gapInside : gap < m)
    (more : next gap ≠ gap) (free : key (slot gap) = none)
    (reach : ∀ q < m, ∀ k, key (slot q) = some k →
      ∀ p < m, distance m (home k) p < distance m (home k) q → p ≠ gap → (key (slot p)).isSome)
    (distinct : ∀ p < m, ∀ q < m, ∀ k, key (slot p) = some k → key (slot q) = some k → p = q) :
    Gap key home m slot gap (next gap) := by
  have one : distance m gap (next gap) = 1 := by
    rw [round.distance_to_next gapInside gapInside more, distance_same]
  have pos : ∀ p < m, p ≠ gap → 1 ≤ distance m gap p := by
    intro p pin other
    rw [round.distance_next gapInside pin other]
    omega
  refine ⟨gapInside, round.lt gapInside, free, reach, ?_, ?_, distinct⟩
  · intro q qin k keyed _
    rw [one]
    exact pos q qin (ne_of_free free (by rw [keyed]; rfl)).symm
  · intro p pin other pre
    have := pos p pin other
    omega

section Move

variable {empty : Entry} {k : Key}

/-- The slots after the entry of slot `j` is moved into the gap. -/
def moved (slot : Nat → Entry) (empty : Entry) (gap j : Nat) : Nat → Entry :=
  update (update slot gap (slot j)) j empty

theorem moved_j : moved slot empty gap j j = empty := by
  rw [moved, update_self]

theorem moved_gap (other : gap ≠ j) : moved slot empty gap j gap = slot j := by
  rw [moved, update_of_ne other, update_self]

theorem moved_other {p : Nat} (notGap : p ≠ gap) (notJ : p ≠ j) :
    moved slot empty gap j p = slot p := by
  rw [moved, update_of_ne notJ, update_of_ne notGap]

theorem key_moved (noKey : key empty = none) {p : Nat}
    (keyed : key (moved slot empty gap j p) = some k) :
    p ≠ j ∧ (p = gap ∧ key (slot j) = some k ∨ p ≠ gap ∧ key (slot p) = some k) := by
  have notJ : p ≠ j := by
    intro same
    rw [same, moved_j, noKey] at keyed
    simp at keyed
  refine ⟨notJ, ?_⟩
  by_cases here : p = gap
  · rw [here, moved_gap (here ▸ notJ)] at keyed
    exact .inl ⟨here, keyed⟩
  · rw [moved_other here notJ] at keyed
    exact .inr ⟨here, keyed⟩

theorem Gap.move (state : Gap key home m slot gap j) (round : Round next m)
    (noKey : key empty = none) (more : next j ≠ j) (keyed : key (slot j) = some k)
    (hidden : distance m (home k) gap < distance m (home k) j) :
    Gap key home m (moved slot empty gap j) j (next j) := by
  have other : gap ≠ j := ne_of_free state.free (by rw [keyed]; rfl)
  have busy : ∀ p, p ≠ j → (p = gap ∨ (key (slot p)).isSome) →
      (key (moved slot empty gap j p)).isSome := by
    intro p notJ reason
    by_cases here : p = gap
    · rw [here, moved_gap other, keyed]
      rfl
    · rw [moved_other here notJ]
      exact reason.resolve_left here
  apply Gap.start round state.jInside more
  · rw [moved_j, noKey]
  · intro q qin k' qKeyed p pin pre notJ
    apply busy p notJ
    by_cases here : p = gap
    · exact Or.inl here
    apply Or.inr
    rcases (key_moved noKey qKeyed).2 with ⟨isGap, jKeyed⟩ | ⟨_, qKeyed'⟩
    · rw [keyed] at jKeyed
      rw [← Option.some.inj jKeyed, isGap] at pre
      exact state.reach j state.jInside k keyed p pin (Nat.lt_trans pre hidden) here
    · exact state.reach q qin k' qKeyed' p pin pre here
  · intro p pin q qin k' pKeyed qKeyed
    obtain ⟨pNotJ, pWas⟩ := key_moved noKey pKeyed
    obtain ⟨qNotJ, qWas⟩ := key_moved noKey qKeyed
    rcases pWas with ⟨pGap, pKey⟩ | ⟨_, pKey⟩
    · rcases qWas with ⟨qGap, _⟩ | ⟨_, qKey⟩
      · rw [pGap, qGap]
      · exact absurd (state.distinct q qin j state.jInside k' qKey pKey) qNotJ
    · rcases qWas with ⟨_, qKey⟩ | ⟨_, qKey⟩
      · exact absurd (state.distinct p pin j state.jInside k' pKey qKey) pNotJ
      · exact state.distinct p pin q qin k' pKey qKey

theorem holds_moved (noKey : key empty = none) (gapInside : gap < m)
    (jInside : j < m) (free : key (slot gap) = none) (other : gap ≠ j) (e : Entry) :
    Holds key m (moved slot empty gap j) k e ↔ Holds key m slot k e := by
  constructor
  · rintro ⟨keyed, p, pin, isE⟩
    rw [← isE] at keyed
    obtain ⟨notJ, was⟩ := key_moved noKey keyed
    rw [isE] at keyed
    rcases was with ⟨isGap, _⟩ | ⟨notGap, _⟩
    · rw [isGap, moved_gap other] at isE
      exact ⟨keyed, j, jInside, isE⟩
    · rw [moved_other notGap notJ] at isE
      exact ⟨keyed, p, pin, isE⟩
  · rintro ⟨keyed, p, pin, isE⟩
    by_cases here : p = j
    · refine ⟨keyed, gap, gapInside, ?_⟩
      rw [moved_gap other, ← here, isE]
    refine ⟨keyed, p, pin, ?_⟩
    rw [moved_other _ here, isE]
    intro isGap
    rw [← isE, isGap, free] at keyed
    simp at keyed

theorem filled_moved (noKey : key empty = none) (gapInside : gap < m)
    (jInside : j < m) (free : key (slot gap) = none) (keyed : (key (slot j)).isSome) :
    filled key m (moved slot empty gap j) = filled key m slot := by
  have other : j ≠ gap := (ne_of_free free keyed).symm
  have more := filled_update gapInside free keyed
  have less : filled key m (moved slot empty gap j) + 1 =
      filled key m (update slot gap (slot j)) := by
    apply filled_clear jInside _ noKey
    rw [update_of_ne other]
    exact keyed
  omega

end Move

section CloseGap

variable {empty : Entry}

theorem closeGap_spec (round : Round next m) (homeInside : ∀ k, home k < m)
    (noKey : key empty = none) {z : Nat} (zInside : z < m) (fuel : Nat) :
    ∀ (slot : Nat → Entry) (gap j : Nat), Gap key home m slot gap j → j ≠ gap →
      z ≠ gap → key (slot z) = none → distance m j z < fuel →
      Sound key home m (closeGap key next home empty fuel slot gap j) ∧
        (∀ k e, Holds key m (closeGap key next home empty fuel slot gap j) k e ↔
          Holds key m slot k e) ∧
        filled key m (closeGap key next home empty fuel slot gap j) = filled key m slot := by
  induction fuel with
  | zero =>
    omega
  | succ fuel ih =>
    intro slot gap j state away notGap free enough
    rw [closeGap]
    cases keyed : key (slot j) with
    | none =>
      exact ⟨state.sound homeInside away keyed, fun _ _ => Iff.rfl, rfl⟩
    | some k =>
      have notJ : z ≠ j := ne_of_free free (by rw [keyed]; rfl)
      have nearer := round.distance_next state.jInside zInside notJ
      have notSame : next j ≠ j := by
        have step := round.cases state.jInside
        omega
      dsimp only
      split
      · next moves =>
        have hidden : distance m (home k) gap < distance m (home k) j :=
          ((hides_iff (homeInside k) state.gapInside state.jInside).mp
            moves).resolve_right (Ne.symm away)
        obtain ⟨sound, holds, count⟩ := ih _ j (next j)
          (state.move round noKey notSame keyed hidden) notSame notJ
          (by rw [moved_other notGap notJ]; exact free) (by omega)
        refine ⟨sound, ?_, ?_⟩
        · intro k' e
          rw [← holds_moved noKey state.gapInside state.jInside state.free (Ne.symm away) e]
          exact holds k' e
        · rw [← filled_moved noKey state.gapInside state.jInside state.free (by rw [keyed]; rfl)]
          exact count
      · next stays =>
        have more : next j ≠ gap := by
          intro round'
          have last := round.distance_self state.jInside
          rw [round'] at last
          have toZ := distance_lt state.gapInside zInside
          have apart : distance m gap z ≠ distance m gap j := by
            intro same
            exact notJ (distance_inj state.gapInside zInside state.jInside same)
          have busy := state.passed z zInside notGap (by omega)
          rw [free] at busy
          simp at busy
        exact ih slot gap (next j) (state.skip round homeInside keyed (by simpa using stays) more)
          more notGap free (by omega)

theorem Sound.remove (sound : Sound key home m slot) (round : Round next m)
    (homeInside : ∀ k, home k < m) (noKey : key empty = none) {q : Nat} {k : Key}
    (lt : q < m) (keyed : key (slot q) = some k) (few : filled key m slot < m) :
    Sound key home m (closeGap key next home empty m (update slot q empty) q (next q)) ∧
      (∀ k' e, Holds key m (closeGap key next home empty m (update slot q empty) q (next q))
            k' e ↔ k' ≠ k ∧ Holds key m slot k' e) ∧
      filled key m (closeGap key next home empty m (update slot q empty) q
        (next q)) + 1 = filled key m slot := by
  obtain ⟨z, zInside, free⟩ := exists_free few
  have notQ : z ≠ q := ne_of_free free (by rw [keyed]; rfl)
  have more : next q ≠ q := by
    have step := round.cases lt
    omega
  have was : ∀ p k', key (update slot q empty p) = some k' → p ≠ q ∧ key (slot p) = some k' := by
    intro p k' pKeyed
    by_cases here : p = q
    · rw [here, update_self, noKey] at pKeyed
      simp at pKeyed
    · rw [update_of_ne here] at pKeyed
      exact ⟨here, pKeyed⟩
  have state : Gap key home m (update slot q empty) q (next q) := by
    apply Gap.start round lt more
    · rw [update_self, noKey]
    · intro r rInside k' rKeyed p pin pre other
      rw [update_of_ne other]
      exact sound.reach r rInside k' (was r k' rKeyed).2 p pin pre
    · intro p pin r rInside k' pKeyed rKeyed
      exact sound.distinct p pin r rInside k' (was p k' pKeyed).2 (was r k' rKeyed).2
  have nearer := round.distance_next lt zInside notQ
  have far := distance_lt lt zInside
  obtain ⟨sound', holds, count⟩ := closeGap_spec round homeInside noKey zInside m
    _ q (next q) state more notQ
    (by rw [update_of_ne notQ]; exact free) (by omega)
  refine ⟨sound', ?_, ?_⟩
  · intro k' e
    rw [holds k' e]
    constructor
    · rintro ⟨isKey, p, pin, isE⟩
      rw [← isE] at isKey
      obtain ⟨notHere, pKeyed⟩ := was p k' isKey
      rw [isE] at isKey
      rw [update_of_ne notHere] at isE
      refine ⟨?_, isKey, p, pin, isE⟩
      intro same
      rw [same] at pKeyed
      exact notHere (sound.distinct p pin q lt k pKeyed keyed)
    · rintro ⟨other, isKey, p, pin, isE⟩
      refine ⟨isKey, p, pin, ?_⟩
      rw [update_of_ne]
      · exact isE
      · intro here
        rw [← isE, here, keyed] at isKey
        exact other (Option.some.inj isKey).symm
  · rw [count]
    exact filled_clear lt (by rw [keyed]; rfl) noKey

theorem gapCloses_of_free (round : Round next m) {z fuel : Nat} (zInside : z < m) :
    ∀ (slot : Nat → Entry) (gap j : Nat), j < m → z ≠ gap → key (slot z) = none →
      distance m j z < fuel → gapCloses key next home empty fuel slot gap j = true := by
  induction fuel with
  | zero => omega
  | succ fuel ih =>
    intro slot gap j jin notGap free enough
    rw [gapCloses]
    cases keyed : key (slot j) with
    | none => rfl
    | some k =>
      have notJ : z ≠ j := ne_of_free free (by rw [keyed]; rfl)
      have nearer := round.distance_next jin zInside notJ
      dsimp only
      split
      · apply ih _ j (next j) (round.lt jin) notJ _ (by omega)
        rw [update_of_ne notJ, update_of_ne notGap]
        exact free
      · exact ih slot gap (next j) (round.lt jin) notGap free (by omega)

theorem gapCloses_of_few (round : Round next m) {q : Nat} (lt : q < m)
    (busy : (key (slot q)).isSome) (few : filled key m slot < m) :
    gapCloses key next home empty m (update slot q empty) q (next q) = true := by
  obtain ⟨z, zInside, free⟩ := exists_free few
  have notQ : z ≠ q := ne_of_free free busy
  apply gapCloses_of_free round zInside _ q _ (round.lt lt) notQ
  · rw [update_of_ne notQ]
    exact free
  · exact distance_lt (round.lt lt) zInside

end CloseGap

end Removal

section Rehash

variable {key : Entry → Option Key} {next : Nat → Nat} {home : Key → Nat} {m : Nat} {empty : Entry}
  {n : Nat}

theorem rehash_succ (old : Nat → Entry) : rehash key next home empty m old (n + 1) =
      match key (old n) with
      | none => rehash key next home empty m old n
      | some k =>
        update (rehash key next home empty m old n)
          (firstFree key next (rehash key next home empty m old n) m (home k))
          (old n) := by
  rw [rehash, List.range_succ, List.foldl_append]
  rfl

theorem Sound.blank (noKey : key empty = none) : Sound key home m fun _ => empty := by
  constructor
  · intro q _ k keyed
    rw [noKey] at keyed
    simp at keyed
  · intro p _ q _ k keyed
    rw [noKey] at keyed
    simp at keyed

theorem filled_succ (slot : Nat → Entry) : filled key (n + 1) slot =
      filled key n slot + if (key (slot n)).isSome then 1 else 0 :=
  countBelow_succ

theorem holds_succ (slot : Nat → Entry) {k : Key} (e : Entry) :
    Holds key (n + 1) slot k e ↔ Holds key n slot k e ∨ key e = some k ∧ slot n = e := by
  constructor
  · rintro ⟨keyed, q, lt, isE⟩
    by_cases last : q = n
    · exact .inr ⟨keyed, last ▸ isE⟩
    · exact .inl ⟨keyed, q, by omega, isE⟩
  · rintro (⟨keyed, q, lt, isE⟩ | ⟨keyed, isE⟩)
    · exact ⟨keyed, q, by omega, isE⟩
    · exact ⟨keyed, n, Nat.lt_succ_self n, isE⟩

theorem rehash_spec [DecidableEq Key] (round : Round next m)
    (homeInside : ∀ k, home k < m) (noKey : key empty = none) {old : Nat → Entry} :
    (∀ p < n, ∀ q < n, ∀ k, key (old p) = some k → key (old q) = some k → p = q) →
    filled key n old < m → Sound key home m (rehash key next home empty m old n) ∧
      (∀ k e, Holds key m (rehash key next home empty m old n) k e ↔ Holds key n old k e) ∧
      filled key m (rehash key next home empty m old n) = filled key n old := by
  induction n with
  | zero =>
    intro _ _
    refine ⟨Sound.blank noKey, ?_, ?_⟩
    · intro k e
      constructor
      · rintro ⟨keyed, q, _, isE⟩
        rw [← isE] at keyed
        exact absurd (noKey.symm.trans keyed) (by simp)
      · rintro ⟨_, q, lt, _⟩
        omega
    · have missing : filled key m (fun _ => empty) = filled key 0 old := by
        unfold filled countBelow
        simp [noKey]
      exact missing
  | succ n ih =>
    intro distinct few
    have few' := few
    rw [filled_succ] at few'
    obtain ⟨sound, holds, count⟩ := ih
      (fun p pSmall q qSmall => distinct p (by omega) q (by omega)) (by omega)
    rw [rehash_succ]
    cases keyed : key (old n) with
    | none =>
      refine ⟨sound, ?_, ?_⟩
      · intro k e
        rw [holds_succ, holds]
        constructor
        · exact .inl
        · rintro (held | ⟨isKey, isE⟩)
          · exact held
          · rw [← isE, keyed] at isKey
            simp at isKey
      · rw [filled_succ, keyed]
        exact count
    | some k =>
      obtain ⟨lt, free, path⟩ := firstFree_of_few round
        (by omega : filled key m (rehash key next home empty m old n) < m) (homeInside k)
      have absent : ∀ e, ¬ Holds key m (rehash key next home empty m old n) k e := by
        intro e held
        obtain ⟨isKey, q, qSmall, isE⟩ := (holds k e).mp held
        rw [← isE] at isKey
        have same := distinct q (by omega) n (by omega) k isKey keyed
        omega
      refine ⟨sound.insert free keyed absent path, ?_, ?_⟩
      · intro k' e
        rw [holds_update lt keyed, holds_succ]
        · by_cases same : k' = k
          · rw [if_pos same]
            constructor
            · intro isE
              rw [same, isE]
              exact .inr ⟨keyed, rfl⟩
            · rintro (held | ⟨_, isE⟩)
              · rw [same] at held
                exact absurd ((holds k e).mpr held) (absent e)
              · exact isE.symm
          · rw [if_neg same, holds]
            constructor
            · exact .inl
            · rintro (held | ⟨isKey, isE⟩)
              · exact held
              · rw [← isE, keyed] at isKey
                exact absurd (Option.some.inj isKey).symm same
        · intro p pin pKeyed
          exact absurd ⟨pKeyed, p, pin, rfl⟩ (absent _)
        · intro k'' qKeyed
          rw [free] at qKeyed
          simp at qKeyed
      · rw [filled_update lt free (by rw [keyed]; rfl), count, filled_succ, keyed]
        rfl

end Rehash

end ExOs.Library.ProbeTable
