import ExOs.Mm.Pmm
import Mathlib.Tactic.Common

/-!
# The kernel heap

The allocator of `kernel/mm/kmalloc.c`, as the 32-bit kernel compiles it: a
list of regions, each a run of pages whose blocks follow one another from
`regionePrimo` to `fine`, and a doubly linked list of the free ones.  Headers
are read and written field by field, so the memory is split by type: `blocco`
holds the headers of blocks, `regione` those of regions, `parola` the words
that the canary uses.  Addresses are numbers below `2 ^ 32`, zero is null, and
unsigned arithmetic is written out modulo `2 ^ 32`.
-/

namespace ExOs.Mm.Kmalloc

/-- `BLOCK_HEADER_SIZE`: five words and two pointers. -/
def blockHeaderSize : Nat := 28

/-- `REGION_HEADER_SIZE`: two words. -/
def regionHeaderSize : Nat := 8

def heapMagic : Nat := 0xDEADBEEF

def heapCanarino : Nat := 0xC0DA5EED

def heapMinSize : Nat := 16

/-- How many addresses there are: a walk that takes more steps never ends. -/
def indirizzi : Nat := 2 ^ 32

/-- The values of an unsigned 32-bit integer, pointers included. -/
def parola32 (n : Nat) : Nat := n % 2 ^ 32

/-- `a - b` on unsigned 32-bit integers. -/
def meno32 (a b : Nat) : Nat := (a + (2 ^ 32 - b % 2 ^ 32)) % 2 ^ 32

/-- `BLOCK_FREE` and `BLOCK_USED`. -/
inductive Flag where
  | libero
  | usato
  deriving DecidableEq, Repr

/-- `KHeapBlock`, without the return address kept for the log. -/
structure KHeapBlock where
  size : Nat
  magic : Nat
  flags : Flag
  chiesti : Nat
  prev : Nat
  next : Nat

/-- `KHeapRegion`. -/
structure KHeapRegion where
  next : Nat
  fine : Nat

/-- The heap's memory and its globals. -/
structure Heap where
  blocco : Nat → KHeapBlock
  regione : Nat → KHeapRegion
  parola : Nat → Nat
  freeList : Nat
  regioni : Nat
  canariniRotti : Nat

/-- How a call can fail to return. -/
inductive Guasto where
  | kpanic
  | senzaFine
  deriving DecidableEq, Repr

variable (h : Heap)

variable (b : Nat)

def Heap.setBlocco (nuovo : KHeapBlock) : Heap :=
  { h with blocco := fun x => if x = b then nuovo else h.blocco x }

def Heap.setSize (b size : Nat) : Heap := h.setBlocco b { h.blocco b with size := size }

def Heap.setFlags (flags : Flag) : Heap :=
  h.setBlocco b { h.blocco b with flags := flags }

def Heap.setChiesti (b chiesti : Nat) : Heap :=
  h.setBlocco b { h.blocco b with chiesti := chiesti }

def Heap.setPrev (b prev : Nat) : Heap := h.setBlocco b { h.blocco b with prev := prev }

def Heap.setNext (b next : Nat) : Heap := h.setBlocco b { h.blocco b with next := next }

def Heap.setRegione (r : Nat) (nuova : KHeapRegion) : Heap :=
  { h with regione := fun x => if x = r then nuova else h.regione x }

/-- The five assignments that make a free block out of raw memory; `chiesti`
keeps whatever was there. -/
def Heap.nuovoLibero (b size : Nat) : Heap :=
  h.setBlocco b
    { h.blocco b with
      size := size, magic := heapMagic, flags := .libero, prev := 0, next := 0 }

/-! ## Helpers -/

def heapAlign (size : Nat) : Nat := parola32 (size + 7) / 8 * 8

def blockValid : Bool := b ≠ 0 && (h.blocco b).magic = heapMagic

def canarinoDi : Nat := parola32 (b + blockHeaderSize + (h.blocco b).chiesti)

def canarinoCE : Bool :=
  (h.blocco b).flags = .usato && parola32 ((h.blocco b).chiesti + 4) ≤ (h.blocco b).size

def canarinoScrivi : Heap :=
  if canarinoCE h b then
    { h with
      parola := fun x => if x = canarinoDi h b then heapCanarino else h.parola x }
  else h

/-- `canarino_rotto` only counts and logs; its callers ignore the result. -/
def canarinoRotto : Heap :=
  if canarinoCE h b ∧ h.parola (canarinoDi h b) ≠ heapCanarino then
    { h with canariniRotti := parola32 (h.canariniRotti + 1) }
  else h

def blockNextPhys : Nat := parola32 (b + blockHeaderSize + (h.blocco b).size)

def freeListRemove : Heap :=
  let h₁ :=
    if (h.blocco b).prev ≠ 0 then h.setNext (h.blocco b).prev (h.blocco b).next
    else { h with freeList := (h.blocco b).next }
  let h₂ :=
    if (h₁.blocco b).next ≠ 0 then h₁.setPrev (h₁.blocco b).next (h₁.blocco b).prev
    else h₁
  (h₂.setPrev b 0).setNext b 0

def freeListAdd : Heap :=
  let h₁ := (h.setPrev b 0).setNext b h.freeList
  let h₂ := if h₁.freeList ≠ 0 then h₁.setPrev h₁.freeList b else h₁
  { h₂ with freeList := b }

/-- The two walks of the region list, `regione_di` and the search of
`heap_expand` for a region to lengthen, stop at the first region that passes
a test; null when none does. -/
def primaRegione (h : Heap) (prova : Nat → Bool) : Nat → Nat → Except Guasto Nat
  | 0, _ => .error .senzaFine
  | fuel + 1, r =>
    if r = 0 then .ok 0
    else if prova r then .ok r
    else primaRegione h prova fuel (h.regione r).next

def regioneDi (p : Nat) : Except Guasto Nat :=
  primaRegione h (fun r => r ≤ p && p < (h.regione r).fine) indirizzi h.regioni

/-- The region that ends exactly where a new run of pages begins. -/
def regioneAttaccata (virt : Nat) : Except Guasto Nat :=
  primaRegione h (fun r => (h.regione r).fine = virt) indirizzi h.regioni

def regionePrimo (r : Nat) : Nat := parola32 (r + regionHeaderSize)

def dentroRegione (r b : Nat) : Bool :=
  regionePrimo r ≤ b && parola32 (b + blockHeaderSize) ≤ (h.regione r).fine

/-- A run of pages that begins where region `r` ends lengthens it. -/
def allungaRegione (r virt sizeBytes : Nat) : Heap :=
  (h.setRegione r
    { h.regione r with fine := parola32 (virt + sizeBytes) }).nuovoLibero virt
      (meno32 sizeBytes blockHeaderSize)

/-- Any other run is a region of its own, with its header in front. -/
def nuovaRegione (virt sizeBytes : Nat) : Heap :=
  let h₁ := h.setRegione virt { next := h.regioni, fine := parola32 (virt + sizeBytes) }
  { h₁ with regioni := virt }.nuovoLibero (regionePrimo virt)
    (meno32 (meno32 sizeBytes regionHeaderSize) blockHeaderSize)

/-- `heap_expand`.  `pagine` is what the physical memory manager answers: the
address of the run, or nothing.  The result is null when it has none. -/
def heapExpand (pages : Nat) (pagine : Option Nat) : Except Guasto (Heap × Nat) := do
  match pagine with
  | none => return (h, 0)
  | some virt =>
    let sizeBytes := parola32 (pages * pageSize)
    let r ← regioneAttaccata h virt
    if r ≠ 0 then return (allungaRegione h r virt sizeBytes, virt)
    else return (nuovaRegione h virt sizeBytes, regionePrimo virt)

/-- The statically initialised globals, before `kmalloc_init`. -/
def heapVuoto : Heap where
  blocco := fun _ => ⟨0, 0, .usato, 0, 0, 0⟩
  regione := fun _ => ⟨0, 0⟩
  parola := fun _ => 0
  freeList := 0
  regioni := 0
  canariniRotti := 0

def heapPagesInitial : Nat := 16

/-- `kmalloc_init`, over any memory `h` that holds no region yet. -/
def kmallocInit (pagine : Option Nat) : Except Guasto Heap := do
  let h₁ := { h with freeList := 0 }
  let (h₂, firstBlock) ← heapExpand h₁ heapPagesInitial pagine
  if firstBlock = 0 then throw .kpanic
  return freeListAdd h₂ firstBlock

/-! ## Allocation -/

/-- The size `kmalloc` looks for: the request and its canary, rounded up. -/
def alignedSize (size : Nat) : Nat :=
  let aligned := heapAlign (parola32 (parola32 size + 4))
  if aligned < heapMinSize then heapMinSize else aligned

/-- The first-fit walk of the free list; null when no block is large enough. -/
def cerca (h : Heap) (aligned : Nat) : Nat → Nat → Except Guasto Nat
  | 0, _ => .error .senzaFine
  | fuel + 1, block =>
    if block = 0 then .ok 0
    else if blockValid h block = false then .error .kpanic
    else if (h.blocco block).flags = .libero ∧ aligned ≤ (h.blocco block).size then .ok block
    else cerca h aligned fuel (h.blocco block).next

/-- How many pages `kmalloc` asks for; the rounding ignores the header of a
new region. -/
def pagesNeeded (aligned : Nat) : Nat :=
  let pages := parola32 (parola32 (aligned + blockHeaderSize) + (pageSize - 1)) / pageSize
  if pages < 4 then 4 else pages

/-- Splitting: what exceeds the request becomes a free block of its own when
it can hold a header and a minimal payload. -/
def spezza (block aligned : Nat) : Heap :=
  let leftover := meno32 (h.blocco block).size aligned
  if blockHeaderSize + heapMinSize ≤ leftover then
    let residual := parola32 (block + blockHeaderSize + aligned)
    let h₁ := h.nuovoLibero residual (meno32 leftover blockHeaderSize)
    (freeListAdd h₁ residual).setSize block aligned
  else h

/-- The part of `kmalloc` that follows the choice of a block. -/
def assegna (block aligned size : Nat) : Heap :=
  let h₁ := spezza (freeListRemove h block) block aligned
  let h₂ := (h₁.setFlags block .usato).setChiesti block (parola32 size)
  canarinoScrivi h₂ block

/-- `kmalloc`: the new heap and the payload's address, null on failure.
`pagine` is the answer of the physical memory manager, should it be asked. -/
def kmalloc (size : Nat) (pagine : Option Nat) : Except Guasto (Heap × Nat) := do
  if size = 0 then return (h, 0)
  let aligned := alignedSize size
  let block ← cerca h aligned indirizzi h.freeList
  if block ≠ 0 then return (assegna h block aligned size, parola32 (block + blockHeaderSize))
  let (h₁, nuovo) ← heapExpand h (pagesNeeded aligned) pagine
  if nuovo = 0 then return (h₁, 0)
  let h₂ := assegna (freeListAdd h₁ nuovo) nuovo aligned size
  return (h₂, parola32 (nuovo + blockHeaderSize))

/-- The scan of a region for the block that ends where `block` begins. -/
def prevPhys (h : Heap) (regione block : Nat) : Nat → Nat → Except Guasto Nat
  | 0, _ => .error .senzaFine
  | fuel + 1, scan =>
    if block ≤ scan then .ok 0
    else if dentroRegione h regione scan = false then .ok 0
    else if blockValid h scan = false then .ok 0
    else if blockNextPhys h scan = block then .ok scan
    else if blockNextPhys h scan ≤ scan then .ok 0
    else prevPhys h regione block fuel (blockNextPhys h scan)

/-- Coalescing `block` with the block after it, when that one is free. -/
def unisciAvanti (regione block : Nat) : Heap :=
  let next := blockNextPhys h block
  if dentroRegione h regione next ∧ blockValid h next ∧ (h.blocco next).flags = .libero then
    let h₁ := freeListRemove h next
    h₁.setSize block (parola32 ((h₁.blocco block).size + (blockHeaderSize + (h₁.blocco next).size)))
  else h

/-- Coalescing the block before `block` with it; also says which block is to
be put on the free list. -/
def unisciIndietro (prev block : Nat) : Heap × Nat :=
  if prev ≠ 0 ∧ (h.blocco prev).flags = .libero then
    let h₁ := freeListRemove h prev
    (h₁.setSize prev
      (parola32 ((h₁.blocco prev).size + (blockHeaderSize + (h₁.blocco block).size))), prev)
  else (h, block)

/-- `kfree`. -/
def kfree (ptr : Nat) : Except Guasto Heap := do
  if ptr = 0 then return h
  let block := meno32 ptr blockHeaderSize
  let regione ← regioneDi h block
  if regione = 0 then throw .kpanic
  if blockValid h block = false then throw .kpanic
  if (h.blocco block).flags = .libero then return h
  let h₁ := (canarinoRotto h block).setFlags block .libero
  let h₂ := unisciAvanti h₁ regione block
  let prev ← prevPhys h₂ regione block indirizzi (regionePrimo regione)
  let unito := unisciIndietro h₂ prev block
  return freeListAdd unito.1 unito.2

end ExOs.Mm.Kmalloc
