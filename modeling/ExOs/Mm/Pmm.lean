import ExOs.Library.ProbeTables
import Mathlib.Algebra.Ring.Nat

/-!
# The physical memory manager

`kernel/mm/pmm.c` as built for 64 bits: the bitmap and the reference bytes that
follow it in memory, the table of the references past a byte, the pool above 4
GB, and the five allocators.
-/

namespace ExOs.Mm

open ExOs.Library Function

def pageSize : Nat := 4096

def userSpaceBase : Nat := 0x04000000

def gb4 : Nat := 0x100000000

def rifMax : Nat := 255

def altaMaxGb : Nat := 60

def pmmPagine4Gb : Nat := 0x100000

def pagingFinestraFisica : Nat := 0x003FF000

/-- `x++` and `x--` in 32 bits. -/
def piu (x : Nat) : Nat := (x + 1) % 2 ^ 32

def meno (x : Nat) : Nat := (x + 2 ^ 32 - 1) % 2 ^ 32

theorem meno_eq {x : Nat} (pos : 0 < x) (short : x < 2 ^ 32) : meno x = x - 1 := by
  unfold meno
  omega

theorem piu_eq {x : Nat} (short : x + 1 < 2 ^ 32) : piu x = x + 1 := by
  unfold piu
  omega

/-! ## References past the byte -/

structure RifOltre where
  pagina : Nat
  inPiu : Nat
deriving DecidableEq

def RifOltre.chiave (r : RifOltre) : Option Nat :=
  if r.pagina = 0 then none else some r.pagina

def RifOltre.vuoto : RifOltre := { pagina := 0, inPiu := 0 }

/-- `g_oltre`, `g_oltre_posti`, `g_oltre_usati`. -/
structure Oltre where
  slot : Nat → RifOltre
  posti : Nat
  usati : Nat

def Oltre.avanti (posti i : Nat) : Nat := (i + 1) &&& (posti - 1)

def Oltre.casa (posti a : Nat) : Nat := ((a >>> 12) * 2654435761 % 2 ^ 64) &&& (posti - 1)

variable (t : Oltre)

def Oltre.trova (a : Nat) : Option Nat :=
  if t.posti = 0 then none
  else
    ProbeTable.find RifOltre.chiave (Oltre.avanti t.posti) t.slot a t.posti (Oltre.casa t.posti a)

def Oltre.doppi (posti : Nat) : Nat := if posti = 0 then 64 else posti * 2

/-- `oltre_cresci`: `memoria` says whether `kmalloc` has the memory, and a
table it gives is shorter than 4 GB. -/
def Oltre.cresci (memoria : Bool) : Option Oltre :=
  let posti := Oltre.doppi t.posti
  if memoria ∧ posti * 16 < 2 ^ 32 then
    some { t with
      slot := ProbeTable.rehash RifOltre.chiave (Oltre.avanti posti)
        (Oltre.casa posti) .vuoto posti t.slot t.posti
      posti := posti }
  else none

/-- One more reference for `a`; nothing when there is no memory to count
it. -/
def Oltre.aggiungi (a : Nat) (memoria : Bool) : Option Oltre :=
  match t.trova a with
  | some i =>
    if (t.slot i).inPiu = 0xFFFFFFFF then none
    else
      some { t with
        slot := update t.slot i { t.slot i with inPiu := (t.slot i).inPiu + 1 } }
  | none =>
    let conPosto := if t.posti < (t.usati + 1) * 2 then t.cresci memoria else some t
    conPosto.map fun t =>
      { t with
        slot := update t.slot
          (ProbeTable.firstFree RifOltre.chiave (Oltre.avanti t.posti) t.slot t.posti
            (Oltre.casa t.posti a))
          { pagina := a, inPiu := 1 }
        usati := t.usati + 1 }

/-- One reference less for `a`; nothing when the table has none. -/
def Oltre.togli (a : Nat) : Option Oltre :=
  match t.trova a with
  | none => none
  | some i =>
    let inPiu := meno (t.slot i).inPiu
    if inPiu ≠ 0 then some { t with slot := update t.slot i { t.slot i with inPiu := inPiu } }
    else
      some { t with
        slot := ProbeTable.closeGap RifOltre.chiave (Oltre.avanti t.posti)
          (Oltre.casa t.posti) .vuoto t.posti (update t.slot i .vuoto) i
          (Oltre.avanti t.posti i)
        usati := t.usati - 1 }

/-- The references of `a` that the table counts. -/
def Oltre.di (a : Nat) : Nat :=
  match t.trova a with
  | some i => (t.slot i).inPiu
  | none => 0

/-! ## State -/

abbrev Memoria := Nat → BitVec 8

/-- `BITMAP_TEST`. -/
def bitTest (mem : Memoria) (page : Nat) : Bool := (mem (page / 8)).getLsbD (page % 8)

/-- `BITMAP_SET`. -/
def bitSet (mem : Memoria) (page : Nat) : Memoria :=
  update mem (page / 8) (mem (page / 8) ||| 1#8 <<< (page % 8))

/-- `BITMAP_CLR`. -/
def bitClr (mem : Memoria) (page : Nat) : Memoria :=
  update mem (page / 8) (mem (page / 8) &&& ~~~(1#8 <<< (page % 8)))

/-- `mem` is the memory from `g_bitmap` on, where `g_rif` follows after
`bitmapSize` bytes; `alta` and `altaRif` say whether the tables of the pool
above 4 GB exist. -/
structure Pmm where
  mem : Memoria
  totalPages : Nat
  freePages : Nat
  usedPages : Nat
  bitmapSize : Nat
  lastAlloc : Nat
  lastAllocK : Nat
  oltre : Oltre
  alta : Bool
  altaMem : Memoria
  altaRif : Bool
  altaRifMem : Memoria
  altaPagine : Nat
  altaLibere : Nat
  altaCursore : Nat

namespace Pmm

variable (s : Pmm)

/-- `g_rif[page]`. -/
def rif (page : Nat) : BitVec 8 := s.mem (s.bitmapSize + page)

def conRif (page : Nat) (b : BitVec 8) : Pmm :=
  { s with mem := update s.mem (s.bitmapSize + page) b }

variable (addr : Nat)

def addrToPage : Nat := addr / pageSize

def pageToAddr (page : Nat) : Nat := page * pageSize

def limiteKernel : Nat := min (addrToPage userSpaceBase) s.totalPages

/-! ## Allocators -/

/-- The first free page of `[da, a)`. -/
def cerca (da a : Nat) : Option Nat :=
  (List.range' da (a - da)).find? fun i => !bitTest s.mem i

def prendi (page : Nat) : Pmm :=
  { s with
    mem := bitSet s.mem page
    freePages := meno s.freePages
    usedPages := piu s.usedPages }

def allocPage : Nat × Pmm :=
  let fascia := s.limiteKernel
  if s.freePages = 0 then (0, s)
  else
    let start := if s.lastAlloc < fascia then fascia else s.lastAlloc
    match s.cerca start s.totalPages with
    | some i => (pageToAddr i, { s.prendi i with lastAlloc := i + 1 })
    | none =>
      match s.cerca fascia start with
      | some i => (pageToAddr i, { s.prendi i with lastAlloc := i + 1 })
      | none =>
        -- The kernel's band comes last.
        match s.cerca 0 fascia with
        | some i => (pageToAddr i, s.prendi i)
        | none => (0, s)

def allocPageKernel : Nat × Pmm :=
  let limite := s.limiteKernel
  match s.cerca s.lastAllocK limite with
  | some i => (pageToAddr i, { s.prendi i with lastAllocK := i + 1 })
  | none =>
    match s.cerca 0 (min s.lastAllocK limite) with
    | some i => (pageToAddr i, { s.prendi i with lastAllocK := i + 1 })
    | none => (0, s)

/-- The end of the free pages from `i` on, at most `fine`. -/
def finePezzo (mem : Memoria) (i fine : Nat) : Nat :=
  ((List.range' i (fine - i)).find? (bitTest mem)).getD fine

/-- The first-fit search from page `i` on; a failed stretch is skipped, so `a`
rounds are enough. -/
def contigueDa (mem : Memoria) (a count : Nat) : Nat → Nat → Option Nat
  | 0, _ => none
  | giri + 1, i =>
    if a - count < i then none
    else if bitTest mem i then contigueDa mem a count giri (i + 1)
    else
      let j := finePezzo mem (i + 1) (min (i + count) a)
      if j - i = count then some i else contigueDa mem a count giri (j + 1)

def cercaContigue (da a count : Nat) : Option Nat :=
  if a < count ∨ a - count < da then none
  else contigueDa s.mem a count (a + 1) da

def prendiTutte (page count : Nat) : Pmm := (List.range' page count).foldl prendi s

/-- Its loop is `pmm_cerca_contigue` over the whole band. -/
def allocPagesKernel (count : Nat) : Nat × Pmm :=
  if count = 0 then (0, s)
  else if count = 1 then s.allocPageKernel
  else
    match s.cercaContigue 0 s.limiteKernel count with
    | some i => (pageToAddr i, s.prendiTutte i count)
    | none => (0, s)

def allocPages (count : Nat) : Nat × Pmm :=
  let fascia := s.limiteKernel
  let tetto := min s.totalPages pmmPagine4Gb
  if count = 0 then (0, s)
  else if count = 1 then s.allocPage
  else if s.freePages < count then (0, s)
  else
    match s.cercaContigue fascia tetto count with
    | some i => (pageToAddr i, s.prendiTutte i count)
    | none =>
      match s.cercaContigue 0 fascia count with
      | some i => (pageToAddr i, s.prendiTutte i count)
      | none => (0, s)

/-! ## The pool above 4 GB -/

def altaDentro (a : Nat) : Bool := s.alta && gb4 ≤ a && a < gb4 + s.altaPagine * pageSize

def altaIndice (a : Nat) : Nat := (a - gb4) / pageSize

/-- The page the cursor finds in `giri` steps, and where it stops. -/
def altaCercaDa (s : Pmm) : Nat → Nat → Option Nat × Nat
  | 0, cursore => (none, cursore)
  | giri + 1, cursore =>
    let dopo := if s.altaPagine ≤ cursore + 1 then 0 else cursore + 1
    if bitTest s.altaMem cursore then altaCercaDa s giri dopo
    else (some cursore, dopo)

def allocPageUtente : Nat × Pmm :=
  if s.altaLibere = 0 then s.allocPage
  else
    match s.altaCercaDa s.altaPagine s.altaCursore with
    | (some k, cursore) =>
      (gb4 + k * pageSize, { s with
          altaMem := bitSet s.altaMem k
          altaLibere := meno s.altaLibere
          altaCursore := cursore })
    | (none, cursore) => { s with altaLibere := 0, altaCursore := cursore }.allocPage

def altaLibera (a : Nat) : Pmm :=
  if bitTest s.altaMem (altaIndice a) then
    { s with
      altaMem := bitClr s.altaMem (altaIndice a)
      altaLibere := piu s.altaLibere }
  else s

/-- The reference byte of a high page in use. -/
def rifAlto (a : Nat) : Option (BitVec 8) :=
  if s.altaRif ∧ s.altaDentro a ∧ a % pageSize = 0 ∧ bitTest s.altaMem (altaIndice a) then
    some (s.altaRifMem (altaIndice a))
  else none

def conRifAlto (a : Nat) (b : BitVec 8) : Pmm :=
  { s with altaRifMem := update s.altaRifMem (altaIndice a) b }

/-- `pmm_free_page` above 4 GB. -/
def freePageAlta : Pmm :=
  if s.altaDentro addr then
    match s.rifAlto addr with
    | some b =>
      if 0 < b.toNat then
        match s.oltre.togli addr with
        | some t => { s with oltre := t }
        | none => s.conRifAlto addr (b - 1)
      else s.altaLibera addr
    | none => s.altaLibera addr
  else s

def freePage : Pmm :=
  if gb4 ≤ addr then s.freePageAlta addr
  else if addr = 0 ∨ addr % pageSize ≠ 0 then s
  else
    let page := addrToPage addr
    if s.totalPages ≤ page ∨ bitTest s.mem page = false then s
    else if 0 < (s.rif page).toNat then
      match s.oltre.togli addr with
      | some t => { s with oltre := t }
      | none => s.conRif page (s.rif page - 1)
    else
      { s with
        mem := bitClr s.mem page
        freePages := piu s.freePages
        usedPages := meno s.usedPages
        lastAlloc := if page < s.lastAlloc then page else s.lastAlloc }

/-- One more owner; nothing when the call fails. -/
def refInc (memoria : Bool) : Option Pmm :=
  if gb4 ≤ addr then
    match s.rifAlto addr with
    | none => none
    | some b =>
      if b.toNat < rifMax then some (s.conRifAlto addr (b + 1))
      else (s.oltre.aggiungi addr memoria).map fun t => { s with oltre := t }
  else if addr % pageSize ≠ 0 then none
  else
    let page := addrToPage addr
    if s.totalPages ≤ page ∨ bitTest s.mem page = false then none
    else if (s.rif page).toNat < rifMax then some (s.conRif page (s.rif page + 1))
    else (s.oltre.aggiungi addr memoria).map fun t => { s with oltre := t }

/-- The owners a byte and the table count, in 32 bits. -/
def somma (b : BitVec 8) : Nat :=
  (1 + b.toNat + if b.toNat = rifMax then s.oltre.di addr else 0) % 2 ^ 32

def refCount : Nat :=
  if gb4 ≤ addr then
    match s.rifAlto addr with
    | none =>
      if s.altaDentro addr ∧ bitTest s.altaMem (altaIndice addr) then 1 else 0
    | some b => s.somma addr b
  else
    let page := addrToPage addr
    if s.totalPages ≤ page ∨ bitTest s.mem page = false then 0
    else s.somma addr (s.rif page)

end Pmm

end ExOs.Mm
