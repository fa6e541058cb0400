import ExOs.Libc.Heap
import ExOs.Library.BlockLists
import ExOs.Library.LinkedLists

/-!
# The shape of the user heap

`Riflette` says that the list of the headers is a given list of blocks, and
`Cassetti` that each drawer is a doubly linked list of the free blocks of its
size, those in `sospesi` apart.  Headers are at multiples of sixteen and the
links of a drawer inside a free block, so no word is written for both.
-/

namespace ExOs.Libc

open ExOs.Library List Function ExOs.Library.Block

theorem parola32_of_lt {n : Nat} (small : n < 2 ^ 32) : parola32 n = n := Nat.mod_eq_of_lt small

theorem meno32_of_le {a b : Nat} (small : a < 2 ^ 32) (le : b ≤ a) : meno32 a b = a - b := by
  rw [meno32]
  omega

/-! ## Words -/

section Words

variable (h : Heap) {a x : Nat} (v : Nat)

theorem parola_lt : h.parola a < 2 ^ 32 := Buffer.le32_lt _ _

theorem parola_scrivi (aWord : a % 4 = 0) (xWord : x % 4 = 0) :
    (h.scrivi a v).parola x = if x = a then v % 2 ^ 32 else h.parola x := by
  split
  case isTrue same =>
    rw [same]
    exact Buffer.le32_putLe32 _
  case isFalse other => exact Buffer.le32_putLe32_outside _ _ (by omega)

end Words

/-- What is not in memory and not a drawer. -/
structure Globali where
  primo : Nat
  ultimo : Nat
  fili : Bool
  errno : Nat
  spazio : Spazio

def Heap.globali (h : Heap) : Globali :=
  { primo := h.primo, ultimo := h.ultimo, fili := h.fili, errno := h.errno, spazio := h.spazio }

theorem cassettoDi_lt (dim : Nat) : cassettoDi dim < heapCassetti := by
  rw [cassettoDi]
  split
  · rw [heapCassetti]
    split <;> omega
  dsimp only
  split
  case isTrue fits => exact fits
  case isFalse => exact Nat.lt_succ_self _

section Drawers

variable {h : Heap} {b a x : Nat}

theorem cassettoMetti_globali (h : Heap) (b : Nat) : (cassettoMetti h b).globali = h.globali := by
  rw [cassettoMetti]
  dsimp only
  split
  · rfl
  · split <;> rfl

theorem cassettoTogli_globali : (cassettoTogli h b).globali = h.globali := by
  rw [cassettoTogli]
  dsimp only
  split
  · rfl
  · split <;> split <;> rfl

section

variable (long : h.dim b ≠ 0)

include long

theorem cassettoMetti_cassetto (k : Nat) :
    (cassettoMetti h b).cassetto k = if k = cassettoDi (h.dim b) then b else h.cassetto k := by
  rw [cassettoMetti, if_neg long]
  dsimp only
  split <;> rfl

theorem cassettoMetti_mem :
    (cassettoMetti h b).mem = h.mem.putAll (nodeWord (h.cassetto (cassettoDi (h.dim b))) 16 b ++
      [(b + 20, h.cassetto (cassettoDi (h.dim b))), (b + 16, 0)]) := by
  rw [cassettoMetti, if_neg long, nodeWord]
  dsimp only
  generalize cassettoDi (h.dim b) = i
  by_cases empty : h.cassetto i = 0
  · rw [if_pos empty, if_neg (by exact fun wrong => wrong empty)]
    rfl
  · rw [if_neg empty, if_pos (by exact empty)]
    rfl

theorem cassettoTogli_cassetto (k : Nat) : (cassettoTogli h b).cassetto k =
      if h.prima b = 0 ∧ k = cassettoDi (h.dim b) then h.dopo b else h.cassetto k := by
  rw [cassettoTogli, if_neg long]
  generalize isMiddle : (if h.prima b ≠ 0 then h.setDopo (h.prima b) (h.dopo b)
    else h.setCassetto (cassettoDi (h.dim b)) (h.dopo b)) = h₁
  have heads : h₁.cassetto k =
      if h.prima b = 0 ∧ k = cassettoDi (h.dim b) then h.dopo b else h.cassetto k := by
    rw [← isMiddle]
    by_cases fst : h.prima b = 0
    · simp only [fst, true_and]
      rfl
    · rw [if_pos fst, if_neg (fun both => fst both.1)]
      rfl
  rw [← heads]
  dsimp only
  split <;> rfl

theorem cassettoTogli_mem (bWord : b % 16 = 0) (primaWord : h.prima b % 16 = 0)
    (other : h.prima b ≠ b) :
    (cassettoTogli h b).mem =
      h.mem.putAll (nodeWord (h.dopo b) 16 (h.prima b) ++ nodeWord (h.prima b) 20 (h.dopo b)) := by
  rw [cassettoTogli, if_neg long]
  generalize isMiddle : (if h.prima b ≠ 0 then h.setDopo (h.prima b) (h.dopo b)
    else h.setCassetto (cassettoDi (h.dim b)) (h.dopo b)) = h₁
  have middle : h₁.mem = h.mem.putAll (nodeWord (h.prima b) 20 (h.dopo b)) ∧
      h₁.dopo b = h.dopo b ∧ h₁.prima b = h.prima b := by
    rw [← isMiddle, nodeWord]
    by_cases fst : h.prima b = 0
    · rw [if_neg (fun wrong => wrong fst), if_pos fst]
      exact ⟨rfl, rfl, rfl⟩
    rw [if_pos fst, if_neg fst]
    refine ⟨rfl, ?_, ?_⟩
    · exact (parola_scrivi _ _ (by omega) (by omega)).trans (if_neg (by omega))
    · exact (parola_scrivi _ _ (by omega) (by omega)).trans (if_neg (by omega))
  dsimp only
  rw [middle.2.1, middle.2.2, nodeWord.eq_def (h.dopo b)]
  by_cases last : h.dopo b = 0
  · rw [if_neg (fun wrong => wrong last), if_pos last]
    exact middle.1
  · rw [if_pos last, if_neg last, Heap.setPrima, Heap.scrivi, middle.1]
    rfl

end

end Drawers

/-! ## The shape -/

/-- The headers are those of the blocks. -/
structure Riflette (h : Heap) (bs : List Block) : Prop where
  legata : Linked h.succ h.prec 0 h.primo (bs.map start)
  ultimo : h.ultimo = (bs.map start).getLastD 0
  campi : ∀ x ∈ bs, h.dim x.start + 16 = x.size ∧ h.libero x.start = if x.free then 1 else 0

/-- Where blocks may be. -/
structure Disposti (bs : List Block) : Prop where
  apart : Block.Apart bs
  multipli : ∀ x ∈ bs, x.start % 16 = 0 ∧ x.size % 16 = 0 ∧ 0 < x.start ∧ x.stop < 2 ^ 32

def InCassetto (bs : List Block) (sospesi : List Nat) (i b : Nat) : Prop :=
  b ∉ sospesi ∧ ∃ x ∈ bs, x.start = b ∧ x.free = true ∧ 16 < x.size ∧ cassettoDi (x.size - 16) = i

/-- The drawers hold the free blocks, those in `sospesi` apart. -/
structure Legami (h : Heap) (bs : List Block) (sospesi : List Nat) (liste : Nat → List Nat) :
    Prop where
  legati : ∀ i < heapCassetti, Linked h.dopo h.prima 0 (h.cassetto i) (liste i)
  nodup : ∀ i < heapCassetti, (liste i).Nodup
  membri : ∀ i < heapCassetti, ∀ b, b ∈ liste i ↔ InCassetto bs sospesi i b

structure Coerente (h : Heap) (bs : List Block) (sospesi : List Nat) : Prop where
  riflette : Riflette h bs
  disposti : Disposti bs
  cassetti : ∃ liste, Legami h bs sospesi liste

def Occupato (bs : List Block) (a : Nat) : Prop :=
  ∃ x ∈ bs, x.free = false ∧ x.start + 16 ≤ a ∧ a < x.stop

def Intatta (bs : List Block) (h h' : Heap) : Prop := ∀ a, Occupato bs a → h'.mem a = h.mem a

variable {bs bs' : List Block}

theorem Occupato.mono {a : Nat} (used : Occupato bs a)
    (keeps : ∀ y : Block, y.free = false → y ∈ bs → y ∈ bs') : Occupato bs' a := by
  obtain ⟨y, mem, busy, inside⟩ := used
  exact ⟨y, keeps y busy mem, busy, inside⟩

theorem Occupato.fuori {x : Block} {a : Nat} (used : Occupato bs a)
    (out : a < x.start + 16 ∨ x.stop ≤ a)
    (keeps : ∀ y : Block, y.free = false → y ≠ x → y ∈ bs → y ∈ bs') : Occupato bs' a := by
  obtain ⟨y, mem, busy, lower, upper⟩ := used
  refine ⟨y, keeps y busy ?_ mem, busy, lower, upper⟩
  intro isX
  rw [isX] at lower upper
  omega

theorem Intatta.refl (bs : List Block) (h : Heap) : Intatta bs h h := fun _ _ => rfl

theorem Intatta.trans {h h' h'' : Heap} (fst : Intatta bs h h')
    (snd : Intatta bs h' h'') : Intatta bs h h'' :=
  fun a used => (snd a used).trans (fst a used)

section Shape

variable {h h' : Heap} {bs bs' : List Block} {sospesi sospesi' : List Nat} {x y : Block} {a : Nat}

theorem Coerente.dim (inv : Coerente h bs sospesi) (mem : x ∈ bs) : h.dim x.start + 16 = x.size :=
  (inv.riflette.campi x mem).1

theorem Coerente.libero (inv : Coerente h bs sospesi) (mem : x ∈ bs) :
    h.libero x.start = if x.free then 1 else 0 :=
  (inv.riflette.campi x mem).2

variable {i b : Nat}

theorem InCassetto.multiplo (inC : InCassetto bs sospesi i b)
    (laid : Disposti bs) : b % 16 = 0 ∧ 0 < b ∧ b < 2 ^ 32 := by
  obtain ⟨_, y, mem, isB, _⟩ := inC
  have mul := laid.multipli y mem
  rw [stop] at mul
  omega

/-- The words of the headers that are not links. -/
def Campo (bs : List Block) (w : Nat × Nat) : Prop :=
  ∃ x ∈ bs, w = (x.start + 8, x.size - 16) ∨ w = (x.start + 12, if x.free then 1 else 0)

/-- The words of the headers. -/
def Intestazione (bs : List Block) (w : Nat × Nat) : Prop :=
  w ∈ linkWords 0 4 0 (bs.map start) 0 ∨ Campo bs w

/-- The links of the drawers. -/
def Legame (liste : Nat → List Nat) (w : Nat × Nat) : Prop :=
  ∃ i < heapCassetti, w ∈ linkWords 16 20 0 (liste i) 0

structure Ordinati (bs : List Block) (sospesi : List Nat) (liste : Nat → List Nat) : Prop where
  nodup : ∀ i < heapCassetti, (liste i).Nodup
  membri : ∀ i < heapCassetti, ∀ b, b ∈ liste i ↔ InCassetto bs sospesi i b

variable {liste liste' : Nat → List Nat} {w u : Nat × Nat} {ws : List (Nat × Nat)}

theorem Intestazione.posto (word : Intestazione bs w) :
    ∃ y ∈ bs, ∃ k < 4, w.1 = y.start + 4 * k := by
  rcases word with link | ⟨y, mem, isW | isW⟩
  · obtain ⟨b, mem, isW⟩ := (mem_linkWords link).1
    obtain ⟨y, yMem, isB⟩ := mem_map.mp mem
    rcases isW with isW | isW
    · exact ⟨y, yMem, 0, by omega, by omega⟩
    · exact ⟨y, yMem, 1, by omega, by omega⟩
  · exact ⟨y, mem, 2, by omega, by rw [isW]⟩
  · exact ⟨y, mem, 3, by omega, by rw [isW]⟩

theorem Ordinati.posto (ordinati : Ordinati bs sospesi liste) (link : Legame liste w) :
    ∃ i c, InCassetto bs sospesi i c ∧ (w.1 = c + 16 ∨ w.1 = c + 20) := by
  obtain ⟨i, lt, hit⟩ := link
  obtain ⟨c, mem, isW⟩ := (mem_linkWords hit).1
  exact ⟨i, c, (ordinati.membri i lt c).mp mem, isW⟩

section

variable (laid : Disposti bs)

include laid

theorem Disposti.lungo (mem : x ∈ bs) : 16 ≤ x.size := by
  have long := laid.apart.positive x mem
  have mul := (laid.multipli x mem).2.1
  omega

theorem Disposti.non_dentro (xMem : x ∈ bs) (yMem : y ∈ bs)
    (long : 16 < x.size) : y.start ≠ x.start + 16 := by
  intro same
  rcases laid.apart.separate xMem yMem with equal | fst | snd
  · rw [equal] at same
    omega
  · rw [stop] at fst
    omega
  · rw [stop] at snd
    omega

theorem Disposti.fuori (mem : x ∈ bs) (free : x.free = true)
    (used : Occupato bs a) : a < x.start ∨ x.stop ≤ a := by
  obtain ⟨y, yMem, busy, lower, upper⟩ := used
  rcases laid.apart.separate mem yMem with equal | fst | snd
  · rw [equal, busy] at free
    cases free
  · omega
  · omega

theorem Disposti.fuori_intestazione (mem : x ∈ bs)
    (used : Occupato bs a) : a < x.start ∨ x.start + 16 ≤ a := by
  obtain ⟨y, yMem, _, lower, upper⟩ := used
  rcases laid.apart.separate mem yMem with equal | fst | snd
  · right
    rw [equal]
    exact lower
  · rw [stop] at fst
    omega
  · omega

theorem InCassetto.unico {k : Nat}
    (fst : InCassetto bs sospesi i b) (snd : InCassetto bs sospesi k b) : i = k := by
  obtain ⟨_, y, yMem, yStart, _, _, isI⟩ := fst
  obtain ⟨_, z, zMem, zStart, _, _, isK⟩ := snd
  have same := laid.apart.start_injective yMem zMem (yStart.trans zStart.symm)
  rw [← isI, ← isK, same]

/-! ## The words of the shape -/

theorem Disposti.inizi (mem : b ∈ bs.map start) : b % 16 = 0 ∧ 0 < b ∧ b < 2 ^ 32 := by
  obtain ⟨y, yMem, isB⟩ := mem_map.mp mem
  have mul := laid.multipli y yMem
  rw [stop] at mul
  omega

theorem riflette_iff : Riflette h bs ↔
      (h.primo = (bs.map start).headD 0 ∧ h.ultimo = (bs.map start).getLastD 0) ∧
        ∀ w, Intestazione bs w → h.parola w.1 = w.2 := by
  have linked : Linked h.succ h.prec 0 h.primo (bs.map start) ↔ _ :=
    linked_iff_linkWords 0 4 h.parola fun b mem => (laid.inizi mem).2.1.ne'
  constructor
  · rintro ⟨legata, ultimo, campi⟩
    obtain ⟨primo, words⟩ := linked.mp legata
    refine ⟨⟨primo, ultimo⟩, ?_⟩
    rintro w (link | ⟨x, mem, isW | isW⟩)
    · exact words w link
    · rw [isW]
      exact Nat.eq_sub_of_add_eq (campi x mem).1
    · rw [isW]
      exact (campi x mem).2
  · rintro ⟨⟨primo, ultimo⟩, words⟩
    refine ⟨linked.mpr ⟨primo, fun w link => words w (.inl link)⟩, ultimo, fun x mem => ?_⟩
    have isDim : h.dim x.start = x.size - 16 := words _ (.inr ⟨x, mem, .inl rfl⟩)
    have long := laid.lungo mem
    exact ⟨by omega, words _ (.inr ⟨x, mem, .inr rfl⟩)⟩

theorem legami_iff : Legami h bs sospesi liste ↔
      Ordinati bs sospesi liste ∧ (∀ i < heapCassetti, h.cassetto i = (liste i).headD 0) ∧
        ∀ w, Legame liste w → h.parola w.1 = w.2 := by
  have linked : (∀ i < heapCassetti, ∀ b, b ∈ liste i ↔ InCassetto bs sospesi i b) →
      ∀ i < heapCassetti, (Linked h.dopo h.prima 0 (h.cassetto i) (liste i) ↔ _) :=
    fun membri i lt => linked_iff_linkWords 16 20 h.parola
      fun b mem => (((membri i lt b).mp mem).multiplo laid).2.1.ne'
  constructor
  · rintro ⟨legati, nodup, membri⟩
    refine ⟨⟨nodup, membri⟩, fun i lt => ((linked membri i lt).mp (legati i lt)).1, ?_⟩
    rintro w ⟨i, lt, link⟩
    exact ((linked membri i lt).mp (legati i lt)).2 w link
  · rintro ⟨⟨nodup, membri⟩, heads, words⟩
    exact ⟨fun i lt => (linked membri i lt).mpr ⟨heads i lt, fun w link => words w ⟨i, lt, link⟩⟩,
      nodup, membri⟩

theorem Disposti.parole (ordinati : Ordinati bs sospesi liste)
    (word : Intestazione bs w) (link : Legame liste u) : w.1 ≠ u.1 := by
  obtain ⟨y, yMem, k, small, isW⟩ := word.posto
  obtain ⟨i, c, ⟨_, z, zMem, isC, _, long, _⟩, isU⟩ := ordinati.posto link
  have away := laid.non_dentro zMem yMem long
  have zMultiple := (laid.multipli z zMem).1
  have yMultiple := (laid.multipli y yMem).1
  omega

theorem Disposti.nodup : (bs.map start).Nodup := by
  refine pairwise_map.mpr (laid.apart.ordered.imp_of_mem fun {x y} xMem _ below => ?_)
  have long := laid.lungo xMem
  rw [stop] at below
  omega

theorem Intestazione.unica (fst : Intestazione bs w) (snd : Intestazione bs u)
    (same : w.1 = u.1) : w = u := by
  have links : ∀ {w : Nat × Nat}, w ∈ linkWords 0 4 0 (bs.map start) 0 →
      w.1 % 16 = 0 ∨ w.1 % 16 = 4 := by
    intro w link
    obtain ⟨b, mem, isW⟩ := (mem_linkWords link).1
    have mul := (laid.inizi mem).1
    omega
  have fields : ∀ {x : Block} {w : Nat × Nat}, x ∈ bs →
      (w = (x.start + 8, x.size - 16) ∨ w = (x.start + 12, if x.free then 1 else 0)) →
      w.1 % 16 = 8 ∧ w = (x.start + 8, x.size - 16) ∨
        w.1 % 16 = 12 ∧ w = (x.start + 12, if x.free then 1 else 0) := by
    intro x w mem isW
    have mul := (laid.multipli x mem).1
    exact isW.imp (fun isW => ⟨by rw [isW]; omega, isW⟩)
      fun isW => ⟨by rw [isW]; omega, isW⟩
  rcases fst with link | ⟨x, xMem, isW⟩
  · have place := links link
    rcases snd with link' | ⟨y, yMem, isU⟩
    · refine linkWords_unique laid.nodup (fun b mem c cMem => ?_) link link' same
      have bMul := (laid.inizi mem).1
      have cMul := (laid.inizi cMem).1
      omega
    · have other := fields yMem isU
      omega
  · have place := fields xMem isW
    rcases snd with link' | ⟨y, yMem, isU⟩
    · have other := links link'
      omega
    · rcases place with ⟨at8, isW⟩ | ⟨at12, isW⟩
      · obtain ⟨_, isU⟩ := (fields yMem isU).resolve_right (by omega)
        rw [isW, isU] at same
        rw [isW, isU, laid.apart.start_injective xMem yMem (Nat.add_right_cancel same)]
      · obtain ⟨_, isU⟩ := (fields yMem isU).resolve_left (by omega)
        rw [isW, isU] at same
        rw [isW, isU, laid.apart.start_injective xMem yMem (Nat.add_right_cancel same)]

theorem inCassetto_cons {c : Nat} (mem : x ∈ bs) (isB : x.start = b)
    (free : x.free = true) (ready : b ∉ sospesi) :
    InCassetto bs sospesi i c ↔
      (c = b ∧ 16 < x.size ∧ i = cassettoDi (x.size - 16)) ∨ InCassetto bs (b :: sospesi) i c := by
  constructor
  · rintro ⟨present, y, yMem, yStart, yFree, long, isI⟩
    by_cases here : c = b
    · have same := laid.apart.start_injective yMem mem (yStart.trans (here.trans isB.symm))
      rw [same] at long isI
      exact .inl ⟨here, long, isI.symm⟩
    · exact .inr ⟨not_mem_cons_of_ne_of_not_mem here present, y, yMem, yStart, yFree, long, isI⟩
  · rintro (⟨here, long, isI⟩ | ⟨absent, found⟩)
    · rw [here]
      exact ⟨ready, x, mem, isB, free, long, isI.symm⟩
    · exact ⟨not_mem_of_not_mem_cons absent, found⟩

theorem Legami.senza (mem : x ∈ bs)
    (isB : x.start = b) (free : x.free = true) (ready : b ∉ sospesi) (short : x.size = 16) :
    Legami h bs (b :: sospesi) liste ↔ Legami h bs sospesi liste := by
  have same : ∀ i c, InCassetto bs sospesi i c ↔ InCassetto bs (b :: sospesi) i c := by
    intro i c
    rw [inCassetto_cons laid mem isB free ready, or_iff_right]
    omega
  exact ⟨fun links =>
    { links with membri := fun i lt c => (links.membri i lt c).trans (same i c).symm },
    fun links => { links with membri := fun i lt c => (links.membri i lt c).trans (same i c) }⟩

end

theorem Ordinati.unico (ordinati : Ordinati bs sospesi liste) (laid : Disposti bs)
    (fst : Legame liste w) (snd : Legame liste u) (same : w.1 = u.1) : w = u := by
  obtain ⟨i, lt, link⟩ := fst
  obtain ⟨k, kin, link'⟩ := snd
  have mul : ∀ c ∈ liste i, c % 16 = 0 :=
    fun c mem => (((ordinati.membri i lt c).mp mem).multiplo laid).1
  obtain ⟨b, mem, isW⟩ := (mem_linkWords link).1
  obtain ⟨c, cMem, isU⟩ := (mem_linkWords link').1
  have inB := (ordinati.membri i lt b).mp mem
  have inC := (ordinati.membri k kin c).mp cMem
  have bMul := (inB.multiplo laid).1
  have cMul := (inC.multiplo laid).1
  have isC : c = b := by omega
  rw [isC] at inC
  rw [inC.unico laid inB] at link'
  refine linkWords_unique (ordinati.nodup i lt) (fun c mem d dMem => ?_) link link' same
  have cMul := mul c mem
  have dMul := mul d dMem
  omega

theorem Ordinati.parole (ordinati : Ordinati bs sospesi liste) (laid : Disposti bs)
    (word : Intestazione bs w ∨ Legame liste w) : w.1 % 4 = 0 ∧ w.2 < 2 ^ 32 := by
  rcases word with (link | ⟨x, mem, isW⟩) | ⟨i, lt, link⟩
  · obtain ⟨⟨b, mem, isW⟩, isV⟩ := mem_linkWords link
    have mul := (laid.inizi mem).1
    refine ⟨by omega, ?_⟩
    rcases isV with null | null | isNode
    · omega
    · omega
    · exact (laid.inizi isNode).2.2
  · have mul := laid.multipli x mem
    rw [stop] at mul
    rcases isW with isW | isW
    · rw [isW]
      omega
    · rw [isW]
      split <;> omega
  · have nodes : ∀ c ∈ liste i, c % 16 = 0 ∧ 0 < c ∧ c < 2 ^ 32 :=
      fun c mem => ((ordinati.membri i lt c).mp mem).multiplo laid
    obtain ⟨⟨b, mem, isW⟩, isV⟩ := mem_linkWords link
    have mul := (nodes b mem).1
    refine ⟨by omega, ?_⟩
    rcases isV with null | null | isNode
    · omega
    · omega
    · exact (nodes _ isNode).2.2

/-- Words of the shape are written, and those of the new shape that are not were there:
the heap has the new shape. -/
theorem Coerente.scrivi (inv : Coerente h bs sospesi)
    (links : Legami h bs sospesi liste) (laid : Disposti bs')
    (ordinati : Ordinati bs' sospesi' liste')
    (scritte : h'.mem = h.mem.putAll ws) (giuste : ∀ w ∈ ws, Intestazione bs' w ∨ Legame liste' w)
    (testate : ∀ w, Intestazione bs' w → w ∈ ws ∨ Intestazione bs w)
    (legate : ∀ w, Legame liste' w → w ∈ ws ∨ Legame liste w)
    (primo : h'.primo = (bs'.map start).headD 0)
    (ultimo : h'.ultimo = (bs'.map start).getLastD 0)
    (heads : ∀ i < heapCassetti, h'.cassetto i = (liste' i).headD 0) :
    Coerente h' bs' sospesi' := by
  have was := ((riflette_iff inv.disposti).mp inv.riflette).2
  have linked := ((legami_iff inv.disposti).mp links).2.2
  have now : ∀ w, Intestazione bs' w ∨ Legame liste' w → h'.parola w.1 = w.2 := by
    intro w word
    rw [Heap.parola, scritte]
    refine Buffer.le32_putAll_of_words (fun w => Intestazione bs' w ∨ Legame liste' w)
      (fun w => ordinati.parole laid) ?_ giuste word ?_
    · rintro w u (fst | fst) (snd | snd) same
      · exact fst.unica laid snd same
      · exact absurd same (laid.parole ordinati fst snd)
      · exact absurd same.symm (laid.parole ordinati snd fst)
      · exact ordinati.unico laid fst snd same
    · rcases word with header | link
      · exact (testate w header).imp_right (was w)
      · exact (legate w link).imp_right (linked w)
  exact ⟨(riflette_iff laid).mpr ⟨⟨primo, ultimo⟩, fun w word => now w (.inl word)⟩, laid, liste',
    (legami_iff laid).mpr ⟨ordinati, heads, fun w word => now w (.inr word)⟩⟩

/-- The list of one drawer changes at one place. -/
theorem Coerente.collega (front old new : List Nat) {rest : List Nat}
    (inv : Coerente h bs sospesi) (linked : Legami h bs sospesi liste) (lt : i < heapCassetti)
    (shape : liste i = front ++ (old ++ rest))
    (ordinati : Ordinati bs sospesi' (update liste i (front ++ (new ++ rest))))
    (scritte : h'.mem = h.mem.putAll ws) (cuciture : ∀ w, w ∈ ws ↔ w ∈ seam 16 20 front new rest)
    (globali : h'.globali = h.globali)
    (heads : ∀ k, h'.cassetto k =
      if k = i then (front ++ (new ++ rest)).headD 0 else h.cassetto k) :
    Coerente h' bs sospesi' ∧ Intatta bs h h' ∧ h'.spazio = h.spazio := by
  have laid := inv.disposti
  obtain ⟨primo, ultimo⟩ := ((riflette_iff laid).mp inv.riflette).1
  have nonNull : ∀ c ∈ front ++ rest, c ≠ 0 := by
    intro c mem
    have listed : c ∈ liste i := by
      rw [shape]
      rcases mem_append.mp mem with early | late
      · exact mem_append_left _ early
      · exact mem_append_right _ (mem_append_right _ late)
    exact (((linked.membri i lt c).mp listed).multiplo laid).2.1.ne'
  obtain ⟨sewn, splice⟩ := linkWords_splice 16 20 old new nonNull
  have links : ∀ w ∈ ws, Legame (update liste i (front ++ (new ++ rest))) w := by
    intro w written
    refine ⟨i, lt, ?_⟩
    rw [update_self]
    exact sewn w ((cuciture w).mp written)
  refine ⟨inv.scrivi linked laid ordinati scritte (fun w written => .inr (links w written))
    (fun _ => .inr) ?_
    ((congrArg Globali.primo globali).trans primo) ((congrArg Globali.ultimo globali).trans ultimo)
    ?_, ?_, congrArg Globali.spazio globali⟩
  · rintro w ⟨k, kin, link⟩
    by_cases here : k = i
    · rw [here, update_self] at link
      refine (splice w link).imp (cuciture w).mpr fun old => ⟨i, lt, ?_⟩
      rw [shape]
      exact old
    · rw [update_of_ne here] at link
      exact .inr ⟨k, kin, link⟩
  · intro k kin
    rw [heads]
    split
    case isTrue here => rw [here, update_self]
    case isFalse other =>
      rw [update_of_ne other]
      exact ((legami_iff laid).mp linked).2.1 k kin
  · intro a used
    rw [scritte]
    refine Buffer.putAll_outside fun w written => ?_
    obtain ⟨k, c, ⟨_, y, yMem, isY, free, long, _⟩, isW⟩ := ordinati.posto (links w written)
    have mul := (laid.multipli y yMem).2.1
    have away := laid.fuori yMem free used
    rw [stop] at away
    omega

end Shape

section Moves

variable {h : Heap} {bs : List Block} {sospesi : List Nat} {x : Block} {b : Nat}

theorem Coerente.metti (inv : Coerente h bs (b :: sospesi)) (mem : x ∈ bs) (isB : x.start = b)
    (free : x.free = true) (ready : b ∉ sospesi) :
    Coerente (cassettoMetti h b) bs sospesi ∧ Intatta bs h (cassettoMetti h b) ∧
      (cassettoMetti h b).spazio = h.spazio := by
  have laid := inv.disposti
  have isDim := inv.dim mem
  rw [isB] at isDim
  obtain ⟨liste, links⟩ := inv.cassetti
  by_cases empty : h.dim b = 0
  · have same : cassettoMetti h b = h := by rw [cassettoMetti, if_pos empty]
    have smaller := (Legami.senza laid mem isB free ready (by omega)).mp links
    rw [same]
    exact ⟨⟨inv.riflette, laid, liste, smaller⟩, Intatta.refl bs h, rfl⟩
  have drawer : cassettoDi (x.size - 16) = cassettoDi (h.dim b) := by
    rw [← isDim, Nat.add_sub_cancel]
  have nowIn := fun k c => inCassetto_cons (i := k) (c := c) laid mem isB free ready
  have scritte := cassettoMetti_mem empty
  have heads := cassettoMetti_cassetto empty
  have lt := cassettoDi_lt (h.dim b)
  have isTop := ((legami_iff laid).mp links).2.1 _ lt
  rw [drawer] at nowIn
  generalize cassettoDi (h.dim b) = i at *
  refine inv.collega [] [] [b] links lt rfl ⟨?_, ?_⟩ scritte ?_ (cassettoMetti_globali h b) heads
  · intro k kin
    by_cases here : k = i
    · rw [here, update_self]
      refine nodup_cons.mpr ⟨fun member => ?_, links.nodup i lt⟩
      exact ne_of_not_mem_cons ((links.membri i lt b).mp member).1 rfl
    · rw [update_of_ne here]
      exact links.nodup k kin
  · intro k kin c
    rw [nowIn, ← links.membri k kin c]
    by_cases here : k = i
    · rw [here, update_self]
      show c ∈ b :: liste i ↔ _
      rw [mem_cons]
      exact or_congr_left ⟨fun isC => ⟨isC, by omega, rfl⟩, fun both => both.1⟩
    · rw [update_of_ne here, or_iff_right (fun both => here both.2.2)]
  · rw [isTop]
    simp only [seam, linkWords, mem_append, mem_cons, mem_nodeWord, not_mem_nil, or_false]
    tauto

theorem Coerente.togli (inv : Coerente h bs sospesi) (mem : x ∈ bs) (isB : x.start = b)
    (free : x.free = true) (ready : b ∉ sospesi) :
    Coerente (cassettoTogli h b) bs (b :: sospesi) ∧ Intatta bs h (cassettoTogli h b) ∧
      (cassettoTogli h b).spazio = h.spazio := by
  have laid := inv.disposti
  have isDim := inv.dim mem
  rw [isB] at isDim
  obtain ⟨liste, links⟩ := inv.cassetti
  by_cases empty : h.dim b = 0
  · have same : cassettoTogli h b = h := by rw [cassettoTogli, if_pos empty]
    have smaller := (Legami.senza laid mem isB free ready (by omega)).mpr links
    rw [same]
    exact ⟨⟨inv.riflette, laid, liste, smaller⟩, Intatta.refl bs h, rfl⟩
  have drawer : cassettoDi (x.size - 16) = cassettoDi (h.dim b) := by
    rw [← isDim, Nat.add_sub_cancel]
  have wasIn := fun k c => inCassetto_cons (i := k) (c := c) laid mem isB free ready
  have scritte := cassettoTogli_mem empty
  have heads := cassettoTogli_cassetto empty
  have lt := cassettoDi_lt (h.dim b)
  have inB : InCassetto bs sospesi (cassettoDi (h.dim b)) b :=
    ⟨ready, x, mem, isB, free, by omega, drawer⟩
  rw [drawer] at wasIn
  generalize cassettoDi (h.dim b) = i at *
  have nodes := fun c listed => ((links.membri i lt c).mp listed).multiplo laid
  obtain ⟨front, rest, shape⟩ := append_of_mem ((links.membri i lt b).mpr inB)
  obtain ⟨notB, nodup⟩ := nodup_cons.mp (nodup_middle.mp (shape ▸ links.nodup i lt))
  have legata := links.legati i lt
  rw [shape] at nodes legata
  obtain ⟨isPrima, isDopo⟩ := legata.links_of_split
  have isTop := legata.head_eq
  have primaFacts : front = [] ∧ h.prima b = 0 ∨ h.prima b ∈ front ∧ front ≠ [] := by
    rw [isPrima]
    rcases eq_nil_or_concat' front with none | ⟨initial, last, isFront⟩
    · exact .inl ⟨none, by rw [none]; rfl⟩
    · rw [isFront]
      simp
  have primaWord : h.prima b % 16 = 0 ∧ h.prima b ≠ b := by
    have bNode := nodes b mem_append_cons_self
    rcases primaFacts with ⟨_, null⟩ | ⟨listed, _⟩
    · omega
    · exact ⟨(nodes _ (mem_append_left _ listed)).1,
        fun same => notB (mem_append_left _ (same ▸ listed))⟩
  refine inv.collega front [b] [] links lt shape ⟨?_, ?_⟩
    (scritte (nodes b mem_append_cons_self).1 primaWord.1 primaWord.2) ?_
    cassettoTogli_globali ?_
  · intro k kin
    by_cases here : k = i
    · rw [here, update_self]
      exact nodup
    · rw [update_of_ne here]
      exact links.nodup k kin
  · intro k kin c
    have was := (links.membri k kin c).trans (wasIn k c)
    by_cases here : k = i
    · rw [here, shape, perm_middle.mem_iff, mem_cons] at was
      rw [here, update_self]
      constructor
      · exact fun listed => (was.mp (.inr listed)).resolve_left fun both => notB (both.1 ▸ listed)
      · exact fun inC => (was.mpr (.inr inC)).resolve_left (ne_of_not_mem_cons inC.1)
    · rw [update_of_ne here, was, or_iff_right (fun both => here both.2.2)]
  · intro w
    rw [isPrima, isDopo]
    simp only [seam, linkWords, mem_append, not_mem_nil, or_false, nil_append]
    exact or_comm
  · intro k
    rw [heads]
    by_cases here : k = i
    · rcases primaFacts with ⟨none, null⟩ | ⟨listed, ne⟩
      · rw [if_pos ⟨null, here⟩, if_pos here, isDopo, none]
        rfl
      · obtain ⟨top, more, isFront⟩ := exists_cons_of_ne_nil ne
        rw [if_neg (fun both => (nodes _ (mem_append_left _ listed)).2.1.ne' both.1),
          if_pos here, here, isTop, isFront]
        rfl
    · rw [if_neg (fun both => here both.2), if_neg here]

end Moves

end ExOs.Libc
