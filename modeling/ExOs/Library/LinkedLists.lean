import Mathlib.Data.List.Nodup
import Mathlib.Tactic.Common

/-!
# Linked lists threaded through address-indexed fields

The links of an intrusive list live in fields of its nodes, so a list is a
relation between the field maps, a head and the list of node addresses; zero is
the null pointer.  `Chain` is the singly linked list and `Linked` the doubly
linked one, from the head on; unlinking a node and pushing one are lemmas over
any field maps that agree away from the edit.
-/

namespace ExOs.Library

open List

/-- Following `next` from `head` visits exactly `nodes` and ends at null. -/
def Chain (next : Nat → Nat) : Nat → List Nat → Prop
  | head, [] => head = 0
  | head, node :: rest =>
    head = node ∧ node ≠ 0 ∧ Chain next (next node) rest

variable {next next' prev prev' : Nat → Nat} {nodes : List Nat} {node pre head : Nat}

theorem Chain.congr : ∀ {head : Nat} {nodes : List Nat}, Chain next head nodes →
      (∀ node ∈ nodes, next' node = next node) →
      Chain next' head nodes
  | _, [], chain, _ => chain
  | _, node :: rest, ⟨atHead, ne, tail⟩, agree => by
      refine ⟨atHead, ne, ?_⟩
      rw [agree node (mem_cons_self)]
      exact tail.congr fun other mem =>
        agree other (mem_cons_of_mem node mem)

theorem Chain.ne_zero : ∀ {head : Nat} {nodes : List Nat},
      Chain next head nodes → ∀ node ∈ nodes, node ≠ 0
  | _, [], _, node, mem => by simp at mem
  | _, fst :: rest, ⟨_, ne, tail⟩, node, mem => by
      rcases mem_cons.mp mem with equal | later
      · rw [equal]
        exact ne
      · exact tail.ne_zero node later

/-- The nodes met by following `next` from a head, with no list at hand. -/
inductive OnList (next : Nat → Nat) : Nat → Nat → Prop where
  | head {node : Nat} : node ≠ 0 → OnList next node node
  | tail {head node : Nat} :
      head ≠ 0 → OnList next (next head) node → OnList next head node

theorem Chain.onList_iff : ∀ {head : Nat},
      Chain next head nodes → (OnList next head node ↔ node ∈ nodes) := by
  induction nodes with
  | nil =>
    intro head chain
    have null : head = 0 := chain
    constructor
    · intro met
      cases met with
      | head ne | tail ne _ => exact absurd null ne
    · intro mem
      exact absurd mem (not_mem_nil)
  | cons fst rest ih =>
    intro head chain
    obtain ⟨atHead, ne, tail⟩ := chain
    subst atHead
    rw [mem_cons, ← ih tail]
    constructor
    · intro met
      cases met with
      | head _ => exact .inl rfl
      | tail _ later => exact .inr later
    · intro either
      rcases either with equal | later
      · rw [equal]
        exact OnList.head ne
      · exact OnList.tail ne later

theorem length_lt_of_addresses {limit : Nat} (nodup : nodes.Nodup)
    (pos : 0 < limit) (addresses : ∀ node ∈ nodes, node ≠ 0 ∧ node < limit) :
    nodes.length < limit := by
  have inside : nodes ⊆ List.range' 1 (limit - 1) := by
    intro node mem
    have bounds := addresses node mem
    rw [mem_range'_1]
    omega
  have shorter := nodup.length_le_of_subset inside
  rw [length_range'] at shorter
  omega

/-! ## Doubly linked lists -/

/-- The nodes reached from `head`, each pointing back to the one before it;
`before` is what the first one points back to. -/
def Linked (next prev : Nat → Nat) : Nat → Nat → List Nat → Prop
  | _, head, [] => head = 0
  | pre, head, node :: rest =>
    head = node ∧ node ≠ 0 ∧ prev node = pre ∧ Linked next prev node (next node) rest

/-- The nodes from `head` up to `stop`, which is not one of them. -/
def Segment (next prev : Nat → Nat) : Nat → Nat → Nat → List Nat → Prop
  | _, head, stop, [] => head = stop
  | pre, head, stop, node :: rest =>
    head = node ∧ node ≠ 0 ∧ prev node = pre ∧ Segment next prev node (next node) stop rest

theorem linked_iff_segment :
    Linked next prev pre head nodes ↔ Segment next prev pre head 0 nodes := by
  induction nodes generalizing pre head with
  | nil => exact Iff.rfl
  | cons node rest ih =>
    rw [Linked, Segment, ih]

theorem Segment.congr {stop : Nat} (segment : Segment next prev pre head stop nodes)
    (agreeNext : ∀ node ∈ nodes, next' node = next node)
    (agreePrev : ∀ node ∈ nodes, prev' node = prev node) :
    Segment next' prev' pre head stop nodes := by
  induction nodes generalizing pre head with
  | nil => exact segment
  | cons node rest ih =>
    obtain ⟨atHead, ne, back, tail⟩ := segment
    have self : node ∈ node :: rest := mem_cons_self
    refine ⟨atHead, ne, (agreePrev node self).trans back, ?_⟩
    rw [agreeNext node self]
    exact ih tail (fun other mem => agreeNext other (mem_cons_of_mem node mem))
      (fun other mem => agreePrev other (mem_cons_of_mem node mem))

/-- The same nodes after another one. -/
theorem Segment.rebase {stop before' : Nat} (segment : Segment next prev pre head stop nodes)
    (fst : ∀ node ∈ nodes.head?, prev' node = before')
    (agreeNext : ∀ node ∈ nodes, next' node = next node)
    (agreePrev : ∀ node ∈ nodes.tail, prev' node = prev node) :
    Segment next' prev' before' head stop nodes := by
  cases nodes with
  | nil => exact segment
  | cons node rest =>
    obtain ⟨atHead, ne, _, tail⟩ := segment
    refine ⟨atHead, ne, fst node rfl, ?_⟩
    rw [agreeNext node mem_cons_self]
    exact tail.congr (fun other mem => agreeNext other (mem_cons_of_mem node mem)) agreePrev

theorem Segment.append_iff {stop : Nat} {front back : List Nat} :
    Segment next prev pre head stop (front ++ back) ↔
      ∃ middle, Segment next prev pre head middle front ∧
        Segment next prev (front.getLastD pre) middle stop back := by
  induction front generalizing pre head with
  | nil =>
    constructor
    · intro segment
      exact ⟨head, rfl, segment⟩
    · rintro ⟨middle, equal, segment⟩
      have sameHead : head = middle := equal
      rw [sameHead]
      exact segment
  | cons node rest ih =>
    rw [getLastD_cons]
    constructor
    · rintro ⟨atHead, ne, isBack, tail⟩
      obtain ⟨middle, fst, snd⟩ := ih.mp tail
      exact ⟨middle, ⟨atHead, ne, isBack, fst⟩, snd⟩
    · rintro ⟨middle, ⟨atHead, ne, isBack, fst⟩, snd⟩
      exact ⟨atHead, ne, isBack, ih.mpr ⟨middle, fst, snd⟩⟩

/-- The same nodes, the last of which leads elsewhere. -/
theorem Segment.retarget {stop stop' : Nat} (segment : Segment next prev pre head stop nodes)
    (nodup : nodes.Nodup)
    (agreeNext : ∀ node ∈ nodes, next' node =
      if node = nodes.getLastD pre then stop' else next node)
    (agreePrev : ∀ node ∈ nodes, prev' node = prev node) :
    Segment next' prev' pre (if nodes = [] then stop' else head) stop' nodes := by
  rcases eq_nil_or_concat' nodes with empty | ⟨front, last, shape⟩
  · subst empty
    rfl
  subst shape
  rw [if_neg (by simp)]
  rw [getLastD_concat] at agreeNext
  obtain ⟨middle, fst, atLast, ne, back, _⟩ := Segment.append_iff.mp segment
  have lastMember : last ∈ front ++ [last] := by simp
  refine Segment.append_iff.mpr ⟨middle, fst.congr ?_ ?_, atLast, ne, ?_, ?_⟩
  · intro other mem
    have notLast := (nodup_append.mp nodup).2.2 other mem last mem_cons_self
    rw [agreeNext other (mem_append_left _ mem), if_neg notLast]
  · exact fun other mem => agreePrev other (mem_append_left _ mem)
  · rw [agreePrev last lastMember]
    exact back
  · exact (agreeNext last lastMember).trans (if_pos rfl)

theorem Linked.chain : ∀ {pre head : Nat} {nodes : List Nat},
      Linked next prev pre head nodes →
      Chain next head nodes
  | _, _, [], linked => linked
  | _, _, _ :: _, ⟨atHead, ne, _, tail⟩ =>
    ⟨atHead, ne, tail.chain⟩

section

variable (linked : Linked next prev pre head nodes)

include linked

theorem Linked.congr (agreeNext : ∀ node ∈ nodes, next' node = next node)
    (agreePrev : ∀ node ∈ nodes, prev' node = prev node) : Linked next' prev' pre head nodes :=
  linked_iff_segment.mpr ((linked_iff_segment.mp linked).congr agreeNext agreePrev)

theorem Linked.ne_zero : ∀ node ∈ nodes, node ≠ 0 := linked.chain.ne_zero

theorem Linked.head_eq : head = nodes.headD 0 := by
  cases nodes with
  | nil => exact linked
  | cons node rest => exact linked.1

omit linked in
/-- The links of an inner node: back to the last node before it, forward to
the first node after it. -/
theorem Linked.links_of_split {suffix : List Nat} : ∀ {initial : List Nat} {pre head : Nat},
      Linked next prev pre head (initial ++ node :: suffix) →
      prev node = initial.getLastD pre ∧ next node = suffix.headD 0
  | [], _, _, ⟨_, _, back, tail⟩ => ⟨back, tail.head_eq⟩
  | fst :: rest, pre, _, ⟨_, _, _, tail⟩ => by
      have inner := tail.links_of_split
      rw [getLastD_cons]
      exact inner

theorem Linked.next_mem (nodup : nodes.Nodup) (mem : node ∈ nodes) :
    next node = 0 ∨ (next node ∈ nodes ∧ next node ≠ node) := by
  obtain ⟨initial, suffix, shape⟩ := append_of_mem mem
  subst shape
  rw [linked.links_of_split.2]
  cases suffix with
  | nil => exact .inl rfl
  | cons top rest =>
    refine .inr ⟨by simp, ?_⟩
    intro equal
    rw [headD_cons] at equal
    simp [equal, nodup_append] at nodup

theorem Linked.prev_mem (nodup : nodes.Nodup) (mem : node ∈ nodes) :
    prev node = pre ∨ (prev node ∈ nodes ∧ prev node ≠ node) := by
  obtain ⟨initial, suffix, shape⟩ := append_of_mem mem
  subst shape
  rw [linked.links_of_split.1]
  rcases eq_nil_or_concat' initial with empty | ⟨front, last, shape⟩
  · rw [empty]
    exact .inl rfl
  · subst shape
    rw [getLastD_concat]
    refine .inr ⟨by simp, ?_⟩
    intro equal
    simp [equal, nodup_append] at nodup

end

section

variable (linked : Linked next prev 0 head nodes)

include linked

theorem Linked.neighbours (nodup : nodes.Nodup) (mem : node ∈ nodes) :
    (next node = 0 ∨ (next node ∈ nodes ∧ next node ≠ node)) ∧
      (prev node = 0 ∨ (prev node ∈ nodes ∧ prev node ≠ node)) :=
  ⟨linked.next_mem nodup mem, linked.prev_mem nodup mem⟩

/-- Unlinking by the address of the node: the usual pointer writes, read back
as one equation for each field map. -/
theorem Linked.remove {head' : Nat} (nodup : nodes.Nodup) (mem : node ∈ nodes)
    (forward : ∀ other ∈ nodes, other ≠ node →
      next' other = if other = prev node then next node else next other)
    (backward : ∀ other ∈ nodes, other ≠ node →
      prev' other = if other = next node then prev node else prev other)
    (newHead : head' = if prev node = 0 then next node else head) :
    Linked next' prev' 0 head' (nodes.erase node) := by
  obtain ⟨initial, suffix, shape⟩ := append_of_mem mem
  subst shape
  obtain ⟨isPrev, isNext⟩ := linked.links_of_split
  have ne := linked.ne_zero
  rw [linked_iff_segment] at linked ⊢
  obtain ⟨middle, fst, atNode, _, _, snd⟩ := Segment.append_iff.mp linked
  obtain ⟨nodupInitial, nodupRest, cross⟩ := nodup_append.mp nodup
  obtain ⟨absent, nodupSuffix⟩ := nodup_cons.mp nodupRest
  have out : node ∉ initial := fun member => cross node member node mem_cons_self rfl
  rw [erase_append_right _ out, erase_cons_head]
  have isHead : head' = if initial = [] then next node else head := by
    rcases eq_nil_or_concat' initial with empty | ⟨front, last, shape⟩
    · simp [newHead, isPrev, empty]
    · have lastNonNull := ne last (by simp [shape])
      simp [newHead, isPrev, shape, lastNonNull]
  rw [isHead]
  refine Segment.append_iff.mpr ⟨next node, fst.retarget nodupInitial ?_ ?_, snd.rebase ?_ ?_ ?_⟩
  · intro other member
    rw [forward other (mem_append_left _ member) (fun equal => out (equal ▸ member)), isPrev]
  · cases suffix <;> grind
  · intro other isFirst
    have member := mem_of_head? isFirst
    rw [backward other (by simp [member]) (fun equal => absent (equal ▸ member)), isPrev]
    simp [isNext, headD_eq_head?_getD, Option.mem_def.mp isFirst]
  · grind
  · cases suffix <;> grind

/-- Pushing a node at the head. -/
theorem Linked.push (nodup : nodes.Nodup) (nonzero : node ≠ 0) (fresh : node ∉ nodes)
    (forward : ∀ other, next' other = if other = node then head else next other)
    (backward : ∀ other, other ≠ 0 → prev' other = if other = head then node
        else if other = node then 0 else prev other) :
    Linked next' prev' 0 node (node :: nodes) := by
  have ne : ∀ other ∈ nodes, other ≠ node := fun other member equal => fresh (equal ▸ member)
  have isHead := linked.head_eq
  have nonNull := linked.ne_zero
  rw [linked_iff_segment] at linked ⊢
  refine ⟨rfl, nonzero, ?_, ?_⟩
  · have notHead : node ≠ head := by
      intro equal
      rw [isHead] at equal
      cases nodes with
      | nil => exact nonzero equal
      | cons fst rest => exact ne fst mem_cons_self equal.symm
    rw [backward node nonzero, if_neg notHead, if_pos rfl]
  · rw [forward node, if_pos rfl]
    refine linked.rebase ?_ ?_ ?_
    · intro fst isFirst
      rw [backward fst (nonNull fst (mem_of_head? isFirst))]
      simp [isHead, headD_eq_head?_getD, Option.mem_def.mp isFirst]
    · intro other member
      rw [forward other, if_neg (ne other member)]
    · intro other member
      have mem := mem_of_mem_tail member
      have notHead : other ≠ head := by
        intro equal
        cases nodes with
        | nil => cases member
        | cons fst rest => exact (nodup_cons.mp nodup).1 (isHead.subst (equal ▸ member))
      rw [backward other (nonNull other mem), if_neg notHead, if_neg (ne other mem)]

end

/-! ## Link words -/

/-- The words of nodes with their link back at offset `back` and their link forward at
`forth`: the first points back to `pre`, the last leads to `stop`. -/
def linkWords (back forth : Nat) : Nat → List Nat → Nat → List (Nat × Nat)
  | _, [], _ => []
  | pre, node :: rest, stop =>
    (node + back, pre) :: (node + forth, rest.headD stop) :: linkWords back forth node rest stop

/-- The word at an offset of a node, unless the node is null. -/
def nodeWord (node offset value : Nat) : List (Nat × Nat) :=
  if node = 0 then [] else [(node + offset, value)]

/-- The words to write where `new` comes to stand between `front` and `rest`. -/
def seam (back forth : Nat) (front new rest : List Nat) : List (Nat × Nat) :=
  nodeWord (front.getLastD 0) forth ((new ++ rest).headD 0) ++
    linkWords back forth (front.getLastD 0) new (rest.headD 0) ++
    nodeWord (rest.headD 0) back (new.getLastD (front.getLastD 0))

section Words

variable {back forth pre stop node value : Nat} {front nodes new rest : List Nat} {w u : Nat × Nat}

theorem mem_nodeWord {offset : Nat} :
    w ∈ nodeWord node offset value ↔ node ≠ 0 ∧ w = (node + offset, value) := by
  rw [nodeWord]
  split
  case isTrue null => simp [null]
  case isFalse full => simp [full]

theorem linkWords_append : linkWords back forth pre (front ++ rest) stop =
      linkWords back forth pre front (rest.headD stop) ++
        linkWords back forth (front.getLastD pre) rest stop := by
  induction front generalizing pre with
  | nil => rfl
  | cons node front ih =>
    have isHead : (front ++ rest).headD stop = front.headD (rest.headD stop) := by
      cases front <;> rfl
    rw [cons_append, linkWords, ih, isHead, getLastD_cons]
    rfl

theorem mem_linkWords (mem : w ∈ linkWords back forth pre nodes stop) :
    (∃ node ∈ nodes, w.1 = node + back ∨ w.1 = node + forth) ∧
      (w.2 = pre ∨ w.2 = stop ∨ w.2 ∈ nodes) := by
  induction nodes generalizing pre with
  | nil => cases mem
  | cons node rest ih =>
    rw [linkWords, mem_cons, mem_cons] at mem
    rcases mem with isBack | isForth | later
    · exact ⟨⟨node, mem_cons_self, .inl (by rw [isBack])⟩, .inl (by rw [isBack])⟩
    · refine ⟨⟨node, mem_cons_self, .inr (by rw [isForth])⟩, .inr ?_⟩
      rw [isForth]
      cases rest with
      | nil => exact .inl rfl
      | cons top more => exact .inr (mem_cons_of_mem _ mem_cons_self)
    · obtain ⟨⟨other, member, isWord⟩, isValue⟩ := ih later
      refine ⟨⟨other, mem_cons_of_mem _ member, isWord⟩, .inr ?_⟩
      rcases isValue with isNode | isStop | inner
      · exact .inr (by rw [isNode]; exact mem_cons_self)
      · exact .inl isStop
      · exact .inr (mem_cons_of_mem _ inner)

theorem linkWords_unique (nodup : nodes.Nodup)
    (apart : ∀ node ∈ nodes, ∀ other ∈ nodes, node + back ≠ other + forth)
    (wMem : w ∈ linkWords back forth pre nodes stop)
    (uMem : u ∈ linkWords back forth pre nodes stop)
    (same : w.1 = u.1) : w = u := by
  have addresses : ∀ pre, (linkWords back forth pre nodes stop).map Prod.fst =
      nodes.flatMap fun node => [node + back, node + forth] := by
    clear nodup apart wMem uMem
    induction nodes with
    | nil => exact fun _ => rfl
    | cons node rest ih =>
      intro pre
      rw [linkWords, map_cons, map_cons, ih]
      rfl
  have distinct : ((linkWords back forth pre nodes stop).map Prod.fst).Nodup := by
    rw [addresses, nodup_flatMap]
    refine ⟨fun node mem => by simpa using apart node mem node mem, ?_⟩
    refine nodup.imp_of_mem fun {node other} mem otherMem ne => ?_
    have cross := apart node mem other otherMem
    have cross' := apart other otherMem node mem
    simp only [Function.onFun, disjoint_cons_left, mem_cons, not_mem_nil, or_false]
    refine ⟨by omega, by omega, disjoint_nil_left _⟩
  exact inj_on_of_nodup_map distinct wMem uMem same

theorem linked_iff_linkWords (back forth : Nat) (read : Nat → Nat)
    (nonNull : ∀ node ∈ nodes, node ≠ 0) :
    Linked (fun node => read (node + forth)) (fun node => read (node + back)) pre head nodes ↔
      head = nodes.headD 0 ∧ ∀ w ∈ linkWords back forth pre nodes 0, read w.1 = w.2 := by
  induction nodes generalizing pre head with
  | nil => simp [Linked, linkWords]
  | cons node rest ih =>
    rw [Linked, ih fun other mem => nonNull other (mem_cons_of_mem _ mem)]
    simp only [linkWords, forall_mem_cons, headD_cons]
    exact ⟨fun ⟨atHead, _, words⟩ => ⟨atHead, words⟩,
      fun ⟨atHead, words⟩ => ⟨atHead, nonNull node mem_cons_self, words⟩⟩

theorem linkWords_last {back forth stop stop' : Nat} (nonNull : ∀ node ∈ front, node ≠ 0) :
    (∀ w ∈ nodeWord (front.getLastD 0) forth stop, w ∈ linkWords back forth 0 front stop) ∧
      ∀ w ∈ linkWords back forth 0 front stop,
        w ∈ nodeWord (front.getLastD 0) forth stop ∨ w ∈ linkWords back forth 0 front stop' := by
  rcases eq_nil_or_concat' front with empty | ⟨initial, last, shape⟩
  · rw [empty]
    exact ⟨by simp [nodeWord], nofun⟩
  · have full := nonNull last (by simp [shape])
    rw [shape, linkWords_append, linkWords_append]
    simp [mem_nodeWord, linkWords, full]
    tauto

theorem linkWords_first {back forth pre pre' : Nat} (nonNull : ∀ node ∈ rest, node ≠ 0) :
    (∀ w ∈ nodeWord (rest.headD 0) back pre, w ∈ linkWords back forth pre rest 0) ∧
      ∀ w ∈ linkWords back forth pre rest 0,
        w ∈ nodeWord (rest.headD 0) back pre ∨ w ∈ linkWords back forth pre' rest 0 := by
  cases rest with
  | nil => exact ⟨by simp [nodeWord], nofun⟩
  | cons node more =>
    have full := nonNull node mem_cons_self
    simp [mem_nodeWord, linkWords, full]
    tauto

/-- Nodes between two stretches of a list are replaced by others: the words of the seam
are among those of the new list, and the old one had the rest. -/
theorem linkWords_splice (back forth : Nat) (old new : List Nat)
    (nonNull : ∀ node ∈ front ++ rest, node ≠ 0) :
    (∀ w ∈ seam back forth front new rest, w ∈ linkWords back forth 0 (front ++ (new ++ rest)) 0) ∧
      ∀ w ∈ linkWords back forth 0 (front ++ (new ++ rest)) 0, w ∈ seam back forth front new rest ∨
          w ∈ linkWords back forth 0 (front ++ (old ++ rest)) 0 := by
  obtain ⟨lastIn, last⟩ := linkWords_last fun node mem => nonNull node (mem_append_left _ mem)
  obtain ⟨firstIn, first⟩ := linkWords_first fun node mem => nonNull node (mem_append_right _ mem)
  simp only [linkWords_append, seam, mem_append]
  refine ⟨?_, ?_⟩
  · rintro w ((atLast | inner) | atFirst)
    · exact .inl (lastIn w atLast)
    · exact .inr (.inl inner)
    · exact .inr (.inr (firstIn w atFirst))
  · rintro w (early | inner | late)
    · exact (last w early).imp (fun hit => .inl (.inl hit)) .inl
    · exact .inl (.inl (.inr inner))
    · exact (first w late).imp .inr fun hit => .inr (.inr hit)

end Words
end ExOs.Library
