import ExOs.Library.Buffers

/-!
# The heap of the C library

The allocator of `lib/libc.c` as the 32-bit programs have it, over `sbrk`.
Every block is on one doubly linked list in the order of the addresses; the
free ones are also in a drawer for their size, whose links are inside their own
bytes.  So the memory is one array of bytes, from which headers, links and the
bytes of the program are all read.  Addresses and sizes are numbers below `2 ^
32`, and unsigned arithmetic is written out modulo `2 ^ 32`.
-/

namespace ExOs.Libc

open ExOs.Library

/-- `HEAP_ALLINEA`. -/
def multiplo : Nat := 16

def bloccoHdr : Nat := 16

def heapMinSbrk : Nat := 65536

def heapMinSpezza : Nat := 32

def heapPagina : Nat := 4096

def heapTrattieni : Nat := 65536

def heapMinReso : Nat := 65536

def heapCassetti : Nat := 96

/-- How many addresses there are: a walk that takes more steps never ends. -/
def indirizzi : Nat := 2 ^ 32

def parola32 (n : Nat) : Nat := n % 2 ^ 32

/-- `a - b` on unsigned 32-bit integers. -/
def meno32 (a b : Nat) : Nat := (a + (2 ^ 32 - b % 2 ^ 32)) % 2 ^ 32

def einval : Nat := 22

def enomem : Nat := 12

/-- The address space of the process, for the kernel: where the heap begins, its break
and its limit.  `concessi` marks the bytes that `sbrk` has given and not taken back. -/
structure Spazio where
  heapStart : Nat
  heapEnd : Nat
  heapMax : Nat
  concessi : Nat → Bool

/-- An error code as a system call returns it. -/
def errore (codice : Nat) : Nat := 2 ^ 32 - codice

/-- `sys_sbrk`, of the kernel: `incr` is the word of a signed integer, and `pagine` says
whether there are pages to promise. -/
def sysSbrk (s : Spazio) (incr : Nat) (pagine : Bool) : Spazio × Nat :=
  if s.heapStart = 0 ∨ s.heapMax = 0 then (s, errore enomem)
  else if incr = 0 then (s, s.heapEnd)
  else if incr < 2 ^ 31 then
    let pages := parola32 (incr + (heapPagina - 1)) / heapPagina
    if s.heapMax < s.heapEnd ∨ (s.heapMax - s.heapEnd) / heapPagina < pages then (s, errore enomem)
    else if ¬pagine then (s, errore enomem)
    else
      ({ s with
        heapEnd := parola32 (s.heapEnd + pages * heapPagina)
        concessi := fun a =>
          s.concessi a || (s.heapEnd ≤ a && a < s.heapEnd + pages * heapPagina) }, s.heapEnd)
  else
    let shrink := (2 ^ 32 - incr) / heapPagina * heapPagina
    if shrink = 0 then (s, s.heapEnd)
    else if meno32 s.heapEnd s.heapStart < shrink then (s, errore einval)
    else
      ({ s with
        heapEnd := meno32 s.heapEnd shrink
        concessi := fun a => s.concessi a && a < meno32 s.heapEnd shrink }, s.heapEnd)

/-- The memory and the globals of the allocator; `fili` is `g_ci_sono_fili`. -/
structure Heap where
  mem : Buffer
  primo : Nat
  ultimo : Nat
  cassetto : Nat → Nat
  fili : Bool
  errno : Nat
  spazio : Spazio

/-- A failed `sbrk`: `(void *)-1`. -/
def menoUno : Nat := 2 ^ 32 - 1

/-- An error is -4095..-1: an address above 2 GB is negative too. -/
def nonDato (r : Nat) : Bool := r = 0 || 0xFFFFF001 ≤ r

variable (h : Heap)

/-- `sbrk`, of the library. -/
def sbrk (incr : Nat) (pagine : Bool) : Heap × Nat :=
  let r := sysSbrk h.spazio incr pagine
  let h := { h with spazio := r.1 }
  if nonDato r.2 then ({ h with errno := if r.2 ≠ 0 then meno32 0 r.2 else enomem }, menoUno)
  else (h, r.2)

/-! ## Words of memory -/

def Heap.parola (a : Nat) : Nat := h.mem.le32 a

def Heap.scrivi (a v : Nat) : Heap := { h with mem := h.mem.putLe32 a v }

variable (b : Nat)

def Heap.prec : Nat := h.parola b

def Heap.succ : Nat := h.parola (b + 4)

def Heap.dim : Nat := h.parola (b + 8)

def Heap.libero : Nat := h.parola (b + 12)

/-- `LEGAMI(b)->prima` and `LEGAMI(b)->dopo`: in the bytes of the block. -/
def Heap.prima : Nat := h.parola (b + 16)

def Heap.dopo : Nat := h.parola (b + 20)

def Heap.setPrec (b v : Nat) : Heap := h.scrivi b v

def Heap.setSucc (b v : Nat) : Heap := h.scrivi (b + 4) v

def Heap.setDim (b v : Nat) : Heap := h.scrivi (b + 8) v

def Heap.setLibero (b v : Nat) : Heap := h.scrivi (b + 12) v

def Heap.setPrima (b v : Nat) : Heap := h.scrivi (b + 16) v

def Heap.setDopo (b v : Nat) : Heap := h.scrivi (b + 20) v

def Heap.setCassetto (i b : Nat) : Heap :=
  { h with cassetto := fun k => if k = i then b else h.cassetto k }

/-- `while ((dim >> k) > 1u) k++`. -/
def bitAlto (dim : Nat) : Nat → Nat → Nat
  | 0, k => k
  | fuel + 1, k => if 1 < dim >>> k then bitAlto dim fuel (k + 1) else k

def cassettoDi (dim : Nat) : Nat :=
  if dim ≤ 1024 then (dim + 15) / 16 - if dim = 0 then 0 else 1
  else
    let k := 64 + (bitAlto dim 32 0 - 10)
    if k < heapCassetti then k else heapCassetti - 1

def cassettoMetti : Heap :=
  if h.dim b = 0 then h
  else
    let i := cassettoDi (h.dim b)
    let h₁ := (h.setPrima b 0).setDopo b (h.cassetto i)
    let h₂ := if h₁.cassetto i ≠ 0 then h₁.setPrima (h₁.cassetto i) b else h₁
    h₂.setCassetto i b

def cassettoTogli : Heap :=
  if h.dim b = 0 then h
  else
    let h₁ :=
      if h.prima b ≠ 0 then h.setDopo (h.prima b) (h.dopo b)
      else h.setCassetto (cassettoDi (h.dim b)) (h.dopo b)
    if h₁.dopo b ≠ 0 then h₁.setPrima (h₁.dopo b) (h₁.prima b) else h₁

/-- The walk of one drawer: the block found, or null; `none` if it never ends. -/
def cercaNel (h : Heap) (utile i : Nat) : Nat → Nat → Option Nat
  | 0, _ => none
  | fuel + 1, b =>
    if b = 0 then some 0
    else if utile ≤ h.dim b then some b
    -- The size is exact: the first one fits or none does.
    else if i < 64 then some 0
    else cercaNel h utile i fuel (h.dopo b)

/-- The drawers from `i` up. -/
def cercaDa (h : Heap) (utile : Nat) : Nat → Nat → Option Nat
  | 0, _ => some 0
  | cassetti + 1, i => do
      let b ← cercaNel h utile i indirizzi (h.cassetto i)
      if b ≠ 0 then return b else cercaDa h utile cassetti (i + 1)

def cassettoCerca (utile : Nat) : Option (Heap × Nat) := do
  let i := cassettoDi utile
  let b ← cercaDa h utile (heapCassetti - i) i
  if b ≠ 0 then return (cassettoTogli h b, b) else return (h, 0)

/-! ## Blocks -/

def heapAllinea (n : Nat) : Nat := parola32 (n + (multiplo - 1)) / multiplo * multiplo

def quantoEstendi (utile : Nat) : Nat :=
  let quanto := parola32 (heapAllinea utile + bloccoHdr)
  let quanto := if quanto < heapMinSbrk then heapMinSbrk else quanto
  parola32 (quanto + (heapPagina - 1)) / heapPagina * heapPagina

/-- The block just obtained goes to the end of the list. -/
def accoda (b quanto : Nat) : Heap :=
  let h₁ := (((h.setDim b (meno32 quanto bloccoHdr)).setLibero b 1).setSucc b 0).setPrec b h.ultimo
  let h₂ := if h₁.ultimo ≠ 0 then h₁.setSucc h₁.ultimo b else { h₁ with primo := b }
  { h₂ with ultimo := b }

def Heap.fineDi : Nat := parola32 (b + bloccoHdr + h.dim b)

def heapEstendi (utile : Nat) (pagine : Bool) : Heap × Nat :=
  let quanto := quantoEstendi utile
  let r := sysSbrk h.spazio quanto pagine
  let h := { h with spazio := r.1 }
  if nonDato r.2 then (h, 0)
  else
    let b := r.2
    let h := accoda h b quanto
    let p := h.prec b
    if p ≠ 0 ∧ h.libero p ≠ 0 ∧ h.fineDi p = b then
      let h₁ := cassettoTogli h p
      let h₂ := h₁.setDim p (parola32 (h₁.dim p + (bloccoHdr + h₁.dim b)))
      let h₃ := { h₂.setSucc p 0 with ultimo := p }
      (cassettoMetti h₃ p, p)
    else (cassettoMetti h b, b)

/-- The writes that make one block of `b` and its successor `s`. -/
def unisci (b s : Nat) : Heap :=
  let h₁ := h.setDim b (parola32 (h.dim b + (bloccoHdr + h.dim s)))
  let h₂ := h₁.setSucc b (h₁.succ s)
  if h₂.succ s ≠ 0 then h₂.setPrec (h₂.succ s) b else { h₂ with ultimo := b }

def heapAssorbiSucc : Heap :=
  let s := h.succ b
  if s = 0 ∨ h.libero s = 0 then h
  else if h.fineDi b ≠ s then h
  else
    let h₁ := cassettoTogli h s
    let h₂ := if h₁.libero b ≠ 0 then cassettoTogli h₁ b else h₁
    let h₃ := unisci h₂ b s
    if h₃.libero b ≠ 0 then cassettoMetti h₃ b else h₃

def heapFondiConSucc : Heap :=
  if h.libero b = 0 then h else heapAssorbiSucc h b

/-- A new block inside `b`, whose bytes end where its header begins. -/
def inserisci (b nuovo dim libero dimB : Nat) : Heap :=
  let h₁ := ((h.setDim nuovo dim).setLibero nuovo libero).setPrec nuovo b
  let h₂ := h₁.setSucc nuovo (h₁.succ b)
  let h₃ := if h₂.succ b ≠ 0 then h₂.setPrec (h₂.succ b) nuovo else { h₂ with ultimo := nuovo }
  (h₃.setSucc b nuovo).setDim b dimB

def heapSpezza (b utile : Nat) : Heap :=
  if h.dim b < parola32 (utile + bloccoHdr + heapMinSpezza) then h
  else
    let resto := parola32 (b + bloccoHdr + utile)
    let h₁ := inserisci h b resto (meno32 (meno32 (h.dim b) utile) bloccoHdr) 1 utile
    heapFondiConSucc (cassettoMetti h₁ resto) resto

def heapMalloc (size : Nat) (pagine : Bool) : Option (Heap × Nat) := do
  let size := if size = 0 then 1 else size
  let utile := heapAllinea size
  if utile < size then return (h, 0)
  let (h, b) ← cassettoCerca h utile
  if b ≠ 0 then return (heapSpezza (h.setLibero b 0) b utile, parola32 (b + bloccoHdr))
  let (h, b) := heapEstendi h utile pagine
  if b = 0 then return (h, 0)
  let h := cassettoTogli h b
  return (heapSpezza (h.setLibero b 0) b utile, parola32 (b + bloccoHdr))

def heapRestituisci (pagine : Bool) : Heap :=
  let b := h.ultimo
  if h.fili then h
  else if b = 0 ∨ h.libero b = 0 then h
  else
    let totale := parola32 (bloccoHdr + h.dim b)
    if totale ≤ heapTrattieni then h
    else
      let quanto := (totale - heapTrattieni) / heapPagina * heapPagina
      if quanto < heapMinReso then h
      else
        let (h, cima) := sbrk h 0 pagine
        if cima = menoUno then h
        else if parola32 (b + totale) ≠ cima then h
        else
          let (h, r) := sbrk h (meno32 0 quanto) pagine
          if r = menoUno then h
          else
            let h := cassettoTogli h b
            cassettoMetti (h.setDim b (meno32 (h.dim b) quanto)) b

def heapFree (ptr : Nat) (pagine : Bool) : Heap :=
  if ptr = 0 then h
  else
    let b := meno32 ptr bloccoHdr
    if h.libero b ≠ 0 then h
    else
      let h := heapFondiConSucc (cassettoMetti (h.setLibero b 1) b) b
      let h := if h.prec b ≠ 0 then heapFondiConSucc h (h.prec b) else h
      if h.ultimo ≠ 0 ∧ h.libero h.ultimo ≠ 0 then heapRestituisci h pagine else h

def heapCalloc (nmemb size : Nat) (pagine : Bool) : Option (Heap × Nat) := do
  let tot := parola32 (nmemb * size)
  if nmemb ≠ 0 ∧ tot / nmemb ≠ size then return (h, 0)
  let (h, p) ← heapMalloc h tot pagine
  if p ≠ 0 then return ({ h with mem := h.mem.fill p tot 0 }, p) else return (h, 0)

def reallocDentro (b size : Nat) : Heap :=
  let h := heapSpezza h b (heapAllinea size)
  if h.succ b ≠ 0 ∧ h.libero (h.succ b) ≠ 0 then heapFondiConSucc h (h.succ b) else h

def heapRealloc (ptr size : Nat) (pagine : Bool) : Option (Heap × Nat) := do
  if ptr = 0 then return ← heapMalloc h size pagine
  if size = 0 then return (heapFree h ptr pagine, 0)
  let b := meno32 ptr bloccoHdr
  if heapAllinea size ≤ h.dim b then return (reallocDentro h b size, ptr)
  if h.succ b ≠ 0 ∧ h.libero (h.succ b) ≠ 0 ∧ h.fineDi b = h.succ b ∧
      heapAllinea size ≤ parola32 (h.dim b + bloccoHdr + h.dim (h.succ b)) then
    return (heapSpezza (heapAssorbiSucc h b) b (heapAllinea size), ptr)
  let (h, nuovo) ← heapMalloc h size pagine
  if nuovo = 0 then return (h, 0)
  let copia := if h.dim b < size then h.dim b else size
  let h := { h with mem := Buffer.copy h.mem nuovo h.mem ptr copia }
  return (heapFree h ptr pagine, nuovo)

/-- The part of `heap_memalign` that carves the aligned block out of a raw one.  The
alignment is a power of two, so its mask is a remainder. -/
def ritaglia (grezzo allineamento utile : Nat) : Heap × Nat :=
  let b := meno32 grezzo bloccoHdr
  let dimOrig := h.dim b
  let indirizzo := parola32 (grezzo + bloccoHdr + allineamento - 1) / allineamento * allineamento
  let nuovo := meno32 indirizzo bloccoHdr
  let offset := meno32 nuovo grezzo
  let h := inserisci h b nuovo (meno32 (meno32 dimOrig offset) bloccoHdr) 0 offset
  let h := cassettoMetti (h.setLibero b 1) b
  let h := if h.prec b ≠ 0 then heapFondiConSucc h (h.prec b) else h
  (heapSpezza h nuovo utile, parola32 (nuovo + bloccoHdr))

def heapMemalign (allineamento size : Nat) (pagine : Bool) : Option (Heap × Nat) := do
  if allineamento = 0 ∨ allineamento &&& (allineamento - 1) ≠ 0 then
    return ({ h with errno := einval }, 0)
  if allineamento ≤ multiplo then return ← heapMalloc h size pagine
  let size := if size = 0 then 1 else size
  let utile := heapAllinea size
  if utile < size then return (h, 0)
  if parola32 (utile + allineamento + bloccoHdr) < utile then return (h, 0)
  let (h, grezzo) ← heapMalloc h (parola32 (utile + allineamento + bloccoHdr)) pagine
  if grezzo = 0 then return (h, 0)
  if grezzo % allineamento = 0 then return (h, grezzo)
  return ritaglia h grezzo allineamento utile

/-- `heap_posix_memalign`, with a place for the result: the code, and the pointer stored. -/
def heapPosixMemalign (allineamento size : Nat) (pagine : Bool) :
    Option (Heap × Nat × Option Nat) := do
  if allineamento < 4 ∨ allineamento &&& (allineamento - 1) ≠ 0 then return (h, einval, none)
  let (h, p) ← heapMemalign h allineamento size pagine
  if p = 0 then return (h, enomem, none) else return (h, 0, some p)

end ExOs.Libc
