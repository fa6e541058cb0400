import ExOs.Library.LinkedLists
import ExOs.Library.Tilings
import ExOs.Mm.Kmalloc
import Mathlib.Logic.Function.Basic

/-!
# The shape of the kernel heap

`Lista` says that the free list is a doubly linked list of given blocks and
`Forma` that every region is tiled by its blocks.  The list edits touch only
the links and the block edits only the headers, and each edit of the allocator
is one lemma here.
-/

namespace ExOs.Mm.Kmalloc

open ExOs.Library List Function

theorem parola32_of_lt {n : Nat} (small : n < 2 ^ 32) : parola32 n = n := Nat.mod_eq_of_lt small

theorem meno32_of_le {a b : Nat} (small : a < 2 ^ 32) (le : b ≤ a) : meno32 a b = a - b := by
  unfold meno32
  omega

section Campi

variable (h : Heap) (b x v : Nat)

@[simp]
theorem next_setNext :
    ((h.setNext b v).blocco x).next = if x = b then v else (h.blocco x).next := by
  by_cases same : x = b <;> simp [Heap.setNext, Heap.setBlocco, same]

@[simp]
theorem prev_setNext : ((h.setNext b v).blocco x).prev = (h.blocco x).prev := by
  by_cases same : x = b <;> simp [Heap.setNext, Heap.setBlocco, same]

@[simp]
theorem next_setPrev : ((h.setPrev b v).blocco x).next = (h.blocco x).next := by
  by_cases same : x = b <;> simp [Heap.setPrev, Heap.setBlocco, same]

@[simp]
theorem prev_setPrev :
    ((h.setPrev b v).blocco x).prev = if x = b then v else (h.blocco x).prev := by
  by_cases same : x = b <;> simp [Heap.setPrev, Heap.setBlocco, same]

theorem blocco_setNext (ne : x ≠ b) : (h.setNext b v).blocco x = h.blocco x := if_neg ne

theorem blocco_setPrev (ne : x ≠ b) : (h.setPrev b v).blocco x = h.blocco x := if_neg ne

@[simp]
theorem freeList_setNext : (h.setNext b v).freeList = h.freeList := rfl

@[simp]
theorem freeList_setPrev : (h.setPrev b v).freeList = h.freeList := rfl

end Campi

/-! ## The free list -/

structure Lista (h : Heap) (libere : List Nat) : Prop where
  legata : Linked (fun b => (h.blocco b).next) (fun b => (h.blocco b).prev) 0 h.freeList libere
  nodup : libere.Nodup

/-- Two heaps that differ in the links of the free list only. -/
structure StessiBlocchi (h h' : Heap) : Prop where
  size : ∀ b, (h'.blocco b).size = (h.blocco b).size
  magic : ∀ b, (h'.blocco b).magic = (h.blocco b).magic
  flags : ∀ b, (h'.blocco b).flags = (h.blocco b).flags
  regione : h'.regione = h.regione
  regioni : h'.regioni = h.regioni

structure StessaTesta (h h' : Heap) (b : Nat) : Prop where
  size : (h'.blocco b).size = (h.blocco b).size
  magic : (h'.blocco b).magic = (h.blocco b).magic

theorem StessaTesta.of_eq {h h' : Heap} {b : Nat} (same : h'.blocco b = h.blocco b) :
    StessaTesta h h' b :=
  ⟨congrArg _ same, congrArg _ same⟩

variable {h : Heap} {libere : List Nat} {b x : Nat}

theorem StessiBlocchi.trans {h' h'' : Heap}
    (fst : StessiBlocchi h h') (snd : StessiBlocchi h' h'') :
    StessiBlocchi h h'' where
  size := fun b => (snd.size b).trans (fst.size b)
  magic := fun b => (snd.magic b).trans (fst.magic b)
  flags := fun b => (snd.flags b).trans (fst.flags b)
  regione := snd.regione.trans fst.regione
  regioni := snd.regioni.trans fst.regioni

theorem setNext_stessiBlocchi {b v : Nat} : StessiBlocchi h (h.setNext b v) := by
  refine ⟨?_, ?_, ?_, rfl, rfl⟩ <;> intro x <;>
      by_cases same : x = b <;> simp [Heap.setNext, Heap.setBlocco, same]

theorem setPrev_stessiBlocchi {b v : Nat} : StessiBlocchi h (h.setPrev b v) := by
  refine ⟨?_, ?_, ?_, rfl, rfl⟩ <;> intro x <;>
      by_cases same : x = b <;> simp [Heap.setPrev, Heap.setBlocco, same]

theorem setFreeList_stessiBlocchi {v : Nat} : StessiBlocchi h { h with freeList := v } :=
  ⟨fun _ => rfl, fun _ => rfl, fun _ => rfl, rfl, rfl⟩

theorem StessiBlocchi.ite {h₁ h₂ : Heap} {c : Prop} [Decidable c]
    (fst : StessiBlocchi h h₁) (snd : StessiBlocchi h h₂) :
    StessiBlocchi h (if c then h₁ else h₂) := by
  split
  · exact fst
  · exact snd

theorem freeListRemove_stessiBlocchi (h : Heap) (b : Nat) :
    StessiBlocchi h (freeListRemove h b) := by
  have bypassed : StessiBlocchi h (if (h.blocco b).prev ≠ 0 then
          h.setNext (h.blocco b).prev (h.blocco b).next
        else { h with freeList := (h.blocco b).next }) :=
    StessiBlocchi.ite setNext_stessiBlocchi setFreeList_stessiBlocchi
  apply StessiBlocchi.trans _ setNext_stessiBlocchi
  apply StessiBlocchi.trans _ setPrev_stessiBlocchi
  exact StessiBlocchi.ite (bypassed.trans setPrev_stessiBlocchi) bypassed

theorem freeListAdd_stessiBlocchi (h : Heap) (b : Nat) : StessiBlocchi h (freeListAdd h b) := by
  have linked : StessiBlocchi h ((h.setPrev b 0).setNext b h.freeList) :=
    setPrev_stessiBlocchi.trans setNext_stessiBlocchi
  apply StessiBlocchi.trans _ setFreeList_stessiBlocchi
  exact StessiBlocchi.ite (linked.trans setPrev_stessiBlocchi) linked

theorem next_freeListRemove : ((freeListRemove h b).blocco x).next = if x = b then 0
      else if (h.blocco b).prev ≠ 0 ∧ x = (h.blocco b).prev then (h.blocco b).next
      else (h.blocco x).next := by
  by_cases fst : (h.blocco b).prev = 0 <;> by_cases last : (h.blocco b).next = 0 <;>
      simp [freeListRemove, fst, last]

theorem prev_freeListRemove : ((freeListRemove h b).blocco x).prev = if x = b then 0
      else if (h.blocco b).next ≠ 0 ∧ x = (h.blocco b).next then (h.blocco b).prev
      else (h.blocco x).prev := by
  by_cases fst : (h.blocco b).prev = 0 <;> by_cases last : (h.blocco b).next = 0 <;>
      simp [freeListRemove, fst, last]

theorem freeList_freeListRemove : (freeListRemove h b).freeList =
      if (h.blocco b).prev = 0 then (h.blocco b).next else h.freeList := by
  by_cases fst : (h.blocco b).prev = 0 <;> by_cases last : (h.blocco b).next = 0 <;>
      simp [freeListRemove, fst, last]

theorem next_freeListAdd : ((freeListAdd h b).blocco x).next =
      if x = b then h.freeList else (h.blocco x).next := by
  by_cases empty : h.freeList = 0 <;> simp [freeListAdd, empty]

theorem prev_freeListAdd : ((freeListAdd h b).blocco x).prev =
      if h.freeList ≠ 0 ∧ x = h.freeList then b else if x = b then 0 else (h.blocco x).prev := by
  by_cases empty : h.freeList = 0 <;> simp [freeListAdd, empty]

section

variable (lista : Lista h libere) {b x : Nat}

include lista

theorem Lista.congr {h' : Heap} (sameHead : h'.freeList = h.freeList)
    (sameLinks : ∀ b ∈ libere, (h'.blocco b).next = (h.blocco b).next ∧
        (h'.blocco b).prev = (h.blocco b).prev) :
    Lista h' libere := by
  refine ⟨?_, lista.nodup⟩
  rw [sameHead]
  exact lista.legata.congr (fun b mem => (sameLinks b mem).1) (fun b mem => (sameLinks b mem).2)

theorem Lista.remove (mem : b ∈ libere) : Lista (freeListRemove h b) (libere.erase b) := by
  have nonzero := lista.legata.ne_zero
  refine ⟨?_, lista.nodup.erase b⟩
  refine lista.legata.remove lista.nodup mem ?_ ?_ ?_
  · intro other member ne
    have otherNonNull := nonzero other member
    rw [next_freeListRemove, if_neg ne]
    by_cases isPrev : other = (h.blocco b).prev
    · rw [if_pos ⟨isPrev ▸ otherNonNull, isPrev⟩, if_pos isPrev]
    · rw [if_neg (fun both => isPrev both.2), if_neg isPrev]
  · intro other member ne
    have otherNonNull := nonzero other member
    rw [prev_freeListRemove, if_neg ne]
    by_cases isNext : other = (h.blocco b).next
    · rw [if_pos ⟨isNext ▸ otherNonNull, isNext⟩, if_pos isNext]
    · rw [if_neg (fun both => isNext both.2), if_neg isNext]
  · exact freeList_freeListRemove

theorem Lista.add (ne : b ≠ 0) (fresh : b ∉ libere) : Lista (freeListAdd h b) (b :: libere) := by
  refine ⟨?_, nodup_cons.mpr ⟨fresh, lista.nodup⟩⟩
  have newHead : (freeListAdd h b).freeList = b := rfl
  rw [newHead]
  refine lista.legata.push lista.nodup ne fresh ?_ ?_
  · intro other
    exact next_freeListAdd
  · intro other otherNonNull
    rw [prev_freeListAdd]
    by_cases isHead : other = h.freeList
    · rw [if_pos ⟨isHead ▸ otherNonNull, isHead⟩, if_pos isHead]
    · rw [if_neg (fun both => isHead both.2), if_neg isHead]

/-! The blocks off the list are not touched by the list edits. -/

theorem Lista.remove_fuori (mem : b ∈ libere)
    (out : x ∉ libere) : (freeListRemove h b).blocco x = h.blocco x := by
  obtain ⟨hnext, hprev⟩ := lista.legata.neighbours lista.nodup mem
  have notB : x ≠ b := fun equal => out (equal ▸ mem)
  have notNext : (h.blocco b).next ≠ 0 → x ≠ (h.blocco b).next := by grind
  have notPrev : (h.blocco b).prev ≠ 0 → x ≠ (h.blocco b).prev := by grind
  by_cases fst : (h.blocco b).prev = 0 <;> by_cases last : (h.blocco b).next = 0 <;>
    simp [freeListRemove, blocco_setNext, blocco_setPrev, fst, last, notB, notNext, notPrev]

theorem Lista.add_fuori (out : x ∉ libere) (ne : x ≠ b) :
    (freeListAdd h b).blocco x = h.blocco x := by
  have atHead := lista.legata.head_eq
  have notHead : h.freeList ≠ 0 → x ≠ h.freeList := by
    cases libere with
    | nil => exact fun nonzero => absurd atHead nonzero
    | cons y rest => grind
  by_cases empty : h.freeList = 0 <;>
    simp [freeListAdd, blocco_setNext, blocco_setPrev, empty, ne, notHead]

end

theorem freeListRemove_parola : (freeListRemove h b).parola = h.parola := by
  simp only [freeListRemove]
  split_ifs <;> rfl

theorem freeListAdd_parola : (freeListAdd h b).parola = h.parola := by
  simp only [freeListAdd]
  split_ifs <;> rfl

/-! ## Regions and their blocks -/

/-- The bytes a block takes, header included. -/
def lunghezza (h : Heap) (b : Nat) : Nat := blockHeaderSize + (h.blocco b).size

/-- The region list holds `regioni`, and `blocchi r` are the blocks of `r`
from `regione_primo` to `r->fine`. -/
structure Forma (h : Heap) (regioni : List Nat) (blocchi : Nat → List Nat) : Prop where
  catena : Chain (fun r => (h.regione r).next) h.regioni regioni
  separate : regioni.Pairwise fun r s => (h.regione r).fine ≤ s ∨ (h.regione s).fine ≤ r
  finita : ∀ r ∈ regioni, (h.regione r).fine + pageSize ≤ 2 ^ 32
  tessere : ∀ r ∈ regioni, Tiles (lunghezza h) (r + regionHeaderSize) (h.regione r).fine (blocchi r)
  firmati : ∀ r ∈ regioni, ∀ b ∈ blocchi r, (h.blocco b).magic = heapMagic

def Appartiene (regioni : List Nat) (blocchi : Nat → List Nat) (b : Nat) : Prop :=
  ∃ r ∈ regioni, b ∈ blocchi r

namespace Forma

variable {h h' : Heap} {regioni : List Nat} {blocchi : Nat → List Nat}

variable {r b : Nat}

section

variable (forma : Forma h regioni blocchi)

include forma

theorem regioni_separate {s : Nat} (fst : r ∈ regioni) (snd : s ∈ regioni) (ne : r ≠ s) :
    (h.regione r).fine ≤ s ∨ (h.regione s).fine ≤ r := by
  have symmetric : Std.Symm fun r s =>
        (h.regione r).fine ≤ s ∨ (h.regione s).fine ≤ r :=
    ⟨fun _ _ => Or.symm⟩
  exact forma.separate.forall fst snd ne

theorem regione_unica {s x : Nat} (fst : r ∈ regioni) (snd : s ∈ regioni)
    (inFirst : r ≤ x ∧ x < (h.regione r).fine)
    (inSecond : s ≤ x ∧ x < (h.regione s).fine) : r = s := by
  by_contra ne
  have apart := forma.regioni_separate fst snd ne
  omega

theorem congr (sameRegione : h'.regione = h.regione) (sameRegioni : h'.regioni = h.regioni)
    (same : ∀ b, Appartiene regioni blocchi b → StessaTesta h h' b) :
    Forma h' regioni blocchi where
  catena := by
    rw [sameRegione, sameRegioni]
    exact forma.catena
  separate := by
    rw [sameRegione]
    exact forma.separate
  finita := by
    rw [sameRegione]
    exact forma.finita
  tessere := by
    intro r reg
    rw [sameRegione]
    refine (forma.tessere r reg).congr ?_
    intro b mem
    simp only [lunghezza, (same b ⟨r, reg, mem⟩).1]
  firmati := by
    intro r reg b mem
    rw [(same b ⟨r, reg, mem⟩).2]
    exact forma.firmati r reg b mem

/-- Region `r` gets the blocks `nuovi`, and may be a new one. -/
theorem aggiorna {regioni' nuovi : List Nat} (members : ∀ s ∈ regioni', s ≠ r → s ∈ regioni)
    (catena : Chain (fun r => (h'.regione r).next) h'.regioni regioni')
    (separate : regioni'.Pairwise fun r s => (h'.regione r).fine ≤ s ∨ (h'.regione s).fine ≤ r)
    (sameFine : ∀ s ∈ regioni, s ≠ r → (h'.regione s).fine = (h.regione s).fine)
    (same : ∀ s ∈ regioni, s ≠ r → ∀ b ∈ blocchi s, StessaTesta h h' b)
    (finita : (h'.regione r).fine + pageSize ≤ 2 ^ 32)
    (tiling : Tiles (lunghezza h') (r + regionHeaderSize) (h'.regione r).fine nuovi)
    (signed : ∀ b ∈ nuovi, (h'.blocco b).magic = heapMagic) :
    Forma h' regioni' (update blocchi r nuovi) := by
  refine ⟨catena, separate, fun s mem => ?_, fun s mem => ?_, fun s mem b member => ?_⟩ <;>
    by_cases here : s = r
  · rw [here]
    exact finita
  · have old := members s mem here
    rw [sameFine s old here]
    exact forma.finita s old
  · rw [here, update_self]
    exact tiling
  · have old := members s mem here
    rw [update_of_ne here, sameFine s old here]
    refine (forma.tessere s old).congr fun b member => ?_
    simp only [lunghezza, (same s old here b member).size]
  · rw [here, update_self] at member
    exact signed b member
  · have old := members s mem here
    rw [update_of_ne here] at member
    rw [(same s old here b member).magic]
    exact forma.firmati s old b member

section

variable (reg : r ∈ regioni)

include reg

theorem estremi (mem : b ∈ blocchi r) :
    r + regionHeaderSize ≤ b ∧ b + blockHeaderSize + (h.blocco b).size ≤ (h.regione r).fine := by
  have bounds := (forma.tessere r reg).mem_bounds mem
  simp only [lunghezza] at bounds
  omega

theorem regione_lt_fine : r < (h.regione r).fine := by
  have tiled := (forma.tessere r reg).start_le_stop
  simp only [regionHeaderSize] at tiled
  omega

theorem fine_lt : (h.regione r).fine < 2 ^ 32 := by
  have finite := forma.finita r reg
  simp only [pageSize] at finite
  omega

theorem blocco_entro (mem : b ∈ blocchi r) : r ≤ b ∧ b < (h.regione r).fine := by
  have bounds := forma.estremi reg mem
  simp only [regionHeaderSize, blockHeaderSize] at bounds
  omega

theorem blocchi_nodup : (blocchi r).Nodup := by
  refine (forma.tessere r reg).nodup ?_
  simp only [lunghezza, blockHeaderSize]
  omega

theorem regionePrimo_eq : regionePrimo r = r + regionHeaderSize := by
  have tiled := (forma.tessere r reg).start_le_stop
  have finite := forma.fine_lt reg
  exact parola32_of_lt (by omega)

theorem dentroRegione_true (mem : b ∈ blocchi r) : dentroRegione h r b = true := by
  have bounds := forma.estremi reg mem
  have finite := forma.fine_lt reg
  unfold dentroRegione
  rw [forma.regionePrimo_eq reg, parola32_of_lt (by omega)]
  simp only [Bool.and_eq_true, decide_eq_true_eq]
  omega

/-- The first address past a region is not taken for a block: no wrap-around
brings the end of its header back below `fine`. -/
theorem dentroRegione_false (atEnd : x = (h.regione r).fine) : dentroRegione h r x = false := by
  have finite := forma.finita r reg
  have small : x + blockHeaderSize < 2 ^ 32 := by
    simp only [pageSize, blockHeaderSize] at *
    omega
  have past : ¬ x + blockHeaderSize ≤ (h.regione r).fine := by
    simp only [blockHeaderSize]
    omega
  unfold dentroRegione
  rw [parola32_of_lt small]
  simp [past]

theorem ritessi {nuovi : List Nat} (sameRegione : h'.regione = h.regione)
    (sameRegioni : h'.regioni = h.regioni)
    (same : ∀ s ∈ regioni, s ≠ r → ∀ b ∈ blocchi s, StessaTesta h h' b)
    (tiling : Tiles (lunghezza h') (r + regionHeaderSize) (h.regione r).fine nuovi)
    (signed : ∀ b ∈ nuovi, (h'.blocco b).magic = heapMagic) :
    Forma h' regioni (update blocchi r nuovi) := by
  apply forma.aggiorna (fun s mem _ => mem) _ _ _ same _ _ signed
  · rw [sameRegione, sameRegioni]
    exact forma.catena
  · rw [sameRegione]
    exact forma.separate
  · intro s _ _
    rw [sameRegione]
  · rw [sameRegione]
    exact forma.finita r reg
  · rw [sameRegione]
    exact tiling

end

theorem blocco_unico {s : Nat} (fst : r ∈ regioni) (snd : s ∈ regioni)
    (inFirst : b ∈ blocchi r) (inSecond : b ∈ blocchi s) : r = s :=
  forma.regione_unica fst snd (forma.blocco_entro fst inFirst) (forma.blocco_entro snd inSecond)

theorem blocco_ne_zero (block : Appartiene regioni blocchi b) : b ≠ 0 := by
  obtain ⟨r, reg, mem⟩ := block
  have bounds := forma.estremi reg mem
  simp only [regionHeaderSize] at bounds
  omega

theorem blockValid_true (block : Appartiene regioni blocchi b) : blockValid h b = true := by
  have ne := forma.blocco_ne_zero block
  obtain ⟨r, reg, mem⟩ := block
  simp [blockValid, ne, forma.firmati r reg b mem]

end

theorem appartiene_update {nuovi : List Nat} (reg : r ∈ regioni) :
    Appartiene regioni (update blocchi r nuovi) b ↔
      b ∈ nuovi ∨ ∃ s ∈ regioni, s ≠ r ∧ b ∈ blocchi s := by
  constructor
  · rintro ⟨s, other, mem⟩
    by_cases equal : s = r
    · rw [equal, update_self] at mem
      exact .inl mem
    · rw [update_of_ne equal] at mem
      exact .inr ⟨s, other, equal, mem⟩
  · intro either
    rcases either with member | ⟨s, other, ne, mem⟩
    · refine ⟨r, reg, ?_⟩
      rw [update_self]
      exact member
    · refine ⟨s, other, ?_⟩
      rw [update_of_ne ne]
      exact mem

theorem appartiene_iff (reg : r ∈ regioni) : Appartiene regioni blocchi b ↔
      b ∈ blocchi r ∨ ∃ s ∈ regioni, s ≠ r ∧ b ∈ blocchi s := by
  rw [← appartiene_update reg, update_eq_self]

section Ritagli

variable {r x y : Nat} {pre after : List Nat}

section

variable (forma : Forma h regioni blocchi) (reg : r ∈ regioni)

include forma reg

/-- The blocks `m` of region `r` give way to the blocks `n` on the same addresses. -/
theorem ritaglia {m n : List Nat} (shape : blocchi r = pre ++ (m ++ after))
    (sameRegione : h'.regione = h.regione) (sameRegioni : h'.regioni = h.regioni)
    (same : ∀ b, Appartiene regioni blocchi b → b ∉ m → StessaTesta h h' b)
    (middle : ∀ {start stop : Nat}, Tiles (lunghezza h) start stop m →
      Tiles (lunghezza h') start stop n) (signed : ∀ b ∈ n, (h'.blocco b).magic = heapMagic) :
    Forma h' regioni (update blocchi r (pre ++ (n ++ after))) := by
  have nodup := forma.blocchi_nodup reg
  have tiling := forma.tessere r reg
  rw [shape] at nodup tiling
  have others : ∀ b ∈ pre ++ after, b ∈ blocchi r ∧ StessaTesta h h' b := by
    intro b mem
    have member : b ∈ blocchi r := by grind
    exact ⟨member, same b ⟨r, reg, member⟩ (by grind)⟩
  refine forma.ritessi reg sameRegione sameRegioni ?_ ?_ ?_
  · intro s other ne b mem
    refine same b ⟨s, other, mem⟩ fun member => ne (forma.blocco_unico other reg mem ?_)
    simp [shape, member]
  · refine tiling.replace middle fun b mem => ?_
    simp only [lunghezza, (others b mem).2.size]
  · intro b mem
    by_cases isNew : b ∈ n
    · exact signed b isNew
    obtain ⟨member, kept⟩ := others b (by grind)
    rw [kept.magic]
    exact forma.firmati r reg b member

theorem appartiene_fondi (shape : blocchi r = pre ++ x :: y :: after) (b : Nat) :
    Appartiene regioni (update blocchi r (pre ++ x :: after)) b ↔
      Appartiene regioni blocchi b ∧ b ≠ y := by
  have yMem : y ∈ blocchi r := by simp [shape]
  have nodup := forma.blocchi_nodup reg
  rw [appartiene_update reg, appartiene_iff reg]
  constructor
  · intro either
    rcases either with member | ⟨s, other, ne, mem⟩
    · grind
    · refine ⟨.inr ⟨s, other, ne, mem⟩, ?_⟩
      intro equal
      exact ne (forma.blocco_unico other reg mem (equal ▸ yMem))
  · rintro ⟨member | elsewhere, notY⟩
    · grind
    · exact .inr elsewhere

end

theorem appartiene_dividi (reg : r ∈ regioni) (shape : blocchi r = pre ++ x :: after) :
    Appartiene regioni (update blocchi r (pre ++ x :: y :: after)) b ↔
      Appartiene regioni blocchi b ∨ b = y := by
  rw [appartiene_update reg, appartiene_iff reg]
  grind

theorem non_appartiene_interno (forma : Forma h regioni blocchi)
    (reg : r ∈ regioni) (mem : x ∈ blocchi r)
    (after : x < y) (lt : y < x + blockHeaderSize + (h.blocco x).size) :
    ¬ Appartiene regioni blocchi y := by
  rintro ⟨s, other, yMem⟩
  have xBounds := forma.estremi reg mem
  have insideRegion : r ≤ y ∧ y < (h.regione r).fine := by
    omega
  have sameRegion : s = r := forma.regione_unica other reg (forma.blocco_entro other yMem)
      insideRegion
  rw [sameRegion] at yMem
  have apart := (forma.tessere r reg).separate mem yMem
  simp only [lunghezza, blockHeaderSize] at *
  omega

end Ritagli

section Crescita

variable {virt bytes : Nat}

theorem appartiene_allunga (reg : r ∈ regioni) (b : Nat) :
    Appartiene regioni (update blocchi r (blocchi r ++ [virt])) b ↔
      Appartiene regioni blocchi b ∨ b = virt := by
  rw [appartiene_update reg, appartiene_iff reg]
  grind

section

variable (forma : Forma h regioni blocchi)

include forma

theorem non_appartiene_fuori (apart : ∀ s ∈ regioni, virt + bytes ≤ s ∨ (h.regione s).fine ≤ virt)
    (inside : virt ≤ b ∧ b < virt + bytes) :
    ¬ Appartiene regioni blocchi b := by
  rintro ⟨s, other, mem⟩
  have bounds := forma.blocco_entro other mem
  have away := apart s other
  omega

theorem allunga (reg : r ∈ regioni) (atEnd : (h.regione r).fine = virt)
    (apart : ∀ s ∈ regioni, virt + bytes ≤ s ∨ (h.regione s).fine ≤ virt) (pos : 0 < bytes)
    (small : virt + bytes + pageSize ≤ 2 ^ 32) (sameRegioni : h'.regioni = h.regioni)
    (sameNext : ∀ s, (h'.regione s).next = (h.regione s).next)
    (sameFine : ∀ s, s ≠ r → (h'.regione s).fine = (h.regione s).fine)
    (newFine : (h'.regione r).fine = virt + bytes)
    (newSize : blockHeaderSize + (h'.blocco virt).size = bytes)
    (signed : (h'.blocco virt).magic = heapMagic) (same : ∀ b, b ≠ virt → StessaTesta h h' b) :
    Forma h' regioni (update blocchi r (blocchi r ++ [virt])) := by
  have fresh : ∀ s ∈ regioni, ∀ b ∈ blocchi s, b ≠ virt := by
    intro s other b mem equal
    refine forma.non_appartiene_fuori apart (b := virt) ⟨Nat.le_refl virt, by omega⟩ ?_
    exact ⟨s, other, equal ▸ mem⟩
  refine forma.aggiorna (fun s mem _ => mem) ?_ ?_ (fun s _ => sameFine s)
    (fun s other _ b mem => same b (fresh s other b mem)) ?_ ?_ ?_
  · rw [sameRegioni]
    exact forma.catena.congr fun s _ => sameNext s
  · refine forma.separate.imp_of_mem ?_
    intro s t sMember tMember away
    have sApart := apart s sMember
    have tApart := apart t tMember
    have sLt := forma.regione_lt_fine sMember
    have tLt := forma.regione_lt_fine tMember
    by_cases sIs : s = r
    · by_cases tIs : t = r
      · omega
      · rw [sIs, sameFine t tIs]
        rw [sIs] at away
        omega
    · rw [sameFine s sIs]
      by_cases tIs : t = r
      · rw [tIs]
        rw [tIs] at away
        omega
      · rw [sameFine t tIs]
        exact away
  · rw [newFine]
    exact small
  · have tiling := forma.tessere r reg
    rw [atEnd] at tiling
    have longer : lunghezza h' virt = bytes := newSize
    rw [newFine, ← longer]
    refine tiling.extend ?_
    intro b mem
    simp only [lunghezza, (same b (fresh r reg b mem)).size]
  · intro b mem
    rcases mem_append.mp mem with old | isNew
    · rw [(same b (fresh r reg b old)).magic]
      exact forma.firmati r reg b old
    · rw [mem_singleton.mp isNew]
      exact signed

theorem nuova (ne : virt ≠ 0) (apart : ∀ s ∈ regioni, virt + bytes ≤ s ∨ (h.regione s).fine ≤ virt)
    (small : virt + bytes + pageSize ≤ 2 ^ 32) (newRegioni : h'.regioni = virt)
    (newNext : (h'.regione virt).next = h.regioni) (newFine : (h'.regione virt).fine = virt + bytes)
    (sameRegione : ∀ s, s ≠ virt → h'.regione s = h.regione s) (newSize : regionHeaderSize +
        (blockHeaderSize + (h'.blocco (virt + regionHeaderSize)).size) = bytes)
    (signed : (h'.blocco (virt + regionHeaderSize)).magic = heapMagic)
    (same : ∀ b, b ≠ virt + regionHeaderSize → StessaTesta h h' b) :
    Forma h' (virt :: regioni) (update blocchi virt [virt + regionHeaderSize]) := by
  have longer : 36 ≤ bytes := by
    simp only [regionHeaderSize, blockHeaderSize] at newSize
    omega
  have notRegion : ∀ s ∈ regioni, s ≠ virt := by
    intro s other equal
    have away := apart s other
    have nonEmpty := forma.regione_lt_fine other
    omega
  have fresh : ∀ s ∈ regioni, ∀ b ∈ blocchi s, b ≠ virt + regionHeaderSize := by
    intro s other b mem equal
    refine forma.non_appartiene_fuori apart (b := virt + regionHeaderSize)
      ⟨Nat.le_add_right _ _, ?_⟩ ?_
    · simp only [regionHeaderSize]
      omega
    · exact ⟨s, other, equal ▸ mem⟩
  refine forma.aggiorna (fun s either other => (mem_cons.mp either).resolve_left other) ?_ ?_
    (fun s _ other => by rw [sameRegione s other])
    (fun s other _ b mem => same b (fresh s other b mem)) ?_ ?_ ?_
  · rw [newRegioni]
    refine ⟨rfl, ne, ?_⟩
    simp only [newNext]
    refine forma.catena.congr ?_
    intro s other
    rw [sameRegione s (notRegion s other)]
  · refine List.Pairwise.cons ?_ ?_
    · intro s other
      rw [newFine, sameRegione s (notRegion s other)]
      exact apart s other
    · refine forma.separate.imp_of_mem ?_
      intro s t sMember tMember away
      rw [sameRegione s (notRegion s sMember), sameRegione t (notRegion t tMember)]
      exact away
  · rw [newFine]
    exact small
  · refine ⟨rfl, ?_⟩
    simp only [Tiles, lunghezza]
    omega
  · intro b mem
    rw [mem_singleton.mp mem]
    exact signed

end

theorem appartiene_nuova (notRegion : virt ∉ regioni) (b : Nat) : Appartiene (virt :: regioni)
        (update blocchi virt [virt + regionHeaderSize]) b ↔
      Appartiene regioni blocchi b ∨ b = virt + regionHeaderSize := by
  constructor
  · rintro ⟨s, either, mem⟩
    rcases mem_cons.mp either with isNew | other
    · rw [isNew, update_self] at mem
      exact .inr (mem_singleton.mp mem)
    · have ne : s ≠ virt := fun equal => notRegion (equal ▸ other)
      rw [update_of_ne ne] at mem
      exact .inl ⟨s, other, mem⟩
  · intro either
    rcases either with ⟨s, other, mem⟩ | isNew
    · have ne : s ≠ virt := fun equal => notRegion (equal ▸ other)
      refine ⟨s, mem_cons_of_mem virt other, ?_⟩
      rw [update_of_ne ne]
      exact mem
    · refine ⟨virt, mem_cons_self, ?_⟩
      rw [update_self]
      exact mem_singleton.mpr isNew

end Crescita

end Forma

end ExOs.Mm.Kmalloc
