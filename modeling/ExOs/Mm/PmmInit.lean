import ExOs.Mm.PmmProprietari

/-!
# Starting the physical memory manager

`pmm_init` and `alta_init` on the firmware's memory map.  When the bitmap has
a bit for every page the state they leave counts its pages rightly; but it is
rounded down to whole bytes before it is rounded up to whole pages, so up to
seven pages can be left without a bit.
-/

namespace ExOs.Mm

open ExOs.Library List

structure E820Entry where
  baseLow : UInt32
  baseHigh : UInt32
  lengthLow : UInt32
  lengthHigh : UInt32
  tipo : UInt32

def e820TypeUsable : UInt32 := 1

def rbFirmaRdbt : UInt32 := 0x54424452

/-- What Stage 2 leaves; `mappa` is the table at `e820Addr`. -/
structure BootInfo where
  memLower : UInt32
  memUpper : UInt32
  e820Addr : UInt32
  mappa : List E820Entry
  rdAddr : UInt32
  rdByte : UInt32
  rbFirma : UInt32
  rbAddr : UInt32
  rbByte : UInt32

/-- The bounds of the kernel's image in memory. -/
structure Immagine where
  kernelStart : Nat
  kernelEnd : Nat

/-- `ALIGN_UP` to a page. -/
def alignUp (x : Nat) : Nat := (x + (pageSize - 1)) / pageSize * pageSize

namespace E820Entry

def bassa (e : E820Entry) : Bool := e.tipo == e820TypeUsable && e.baseHigh == 0

def base (e : E820Entry) : Nat := e.baseHigh.toNat * 2 ^ 32 + e.baseLow.toNat

def length (e : E820Entry) : Nat := e.lengthHigh.toNat * 2 ^ 32 + e.lengthLow.toNat

end E820Entry

namespace BootInfo

variable (info : BootInfo)

def senzaMappa : Bool := info.mappa.isEmpty || info.e820Addr == 0

def maxAddr (info : BootInfo) : Nat :=
  if info.senzaMappa then ((info.memLower + info.memUpper) * 1024).toNat
  else
    (info.mappa.filter E820Entry.bassa).foldl
      (fun maxAddr e =>
        let fine := (e.baseLow + e.lengthLow).toNat
        if maxAddr < fine then fine else maxAddr) 0

/-- `g_total_pages`: the rounding wraps in 32 bits. -/
def pagine : Nat := alignUp info.maxAddr % 2 ^ 32 / pageSize

/-- `g_bitmap_size`. -/
def bitmapSize : Nat := alignUp (info.pagine / 8)

def rifSize : Nat := alignUp info.pagine

/-- The end of `g_rif`, in 32 bits. -/
def fineRif (nucleo : Immagine) : Nat :=
  (alignUp nucleo.kernelEnd + info.bitmapSize + info.rifSize) % 2 ^ 32

/-- The base system, unless the tables reach it. -/
def base (nucleo : Immagine) : Nat × Nat :=
  if info.rbFirma = rbFirmaRdbt ∧ info.rbAddr ≠ 0 ∧ info.rbAddr.toNat < info.fineRif nucleo then
    (0, 0)
  else (info.rbAddr.toNat, info.rbByte.toNat)

def libere : List (Nat × Nat) :=
  if info.senzaMappa then
    (0x00001000, 0x9F000) ::
      if 0 < info.memUpper then [(0x00100000, (info.memUpper * 1024).toNat)] else []
  else
    (info.mappa.filter fun e => e.bassa && e.lengthLow != 0).map fun e =>
      (e.baseLow.toNat, e.lengthLow.toNat)

/-- The regions that stay in use whatever the map says. -/
def riservate (nucleo : Immagine) : List (Nat × Nat) :=
  let inizio := nucleo.kernelStart % 2 ^ 32
  let (rbAddr, rbByte) := info.base nucleo
  [(0, pageSize), (0x0009FC00, 0x00060400),
    (inizio, (info.fineRif nucleo + (2 ^ 32 - inizio)) % 2 ^ 32), (0x00000500, 0x00007B00),
    (0x00007E00, 0x00004300), (0x0000C000, pageSize)] ++
  (if info.rdAddr ≠ 0 ∧ info.rdByte ≠ 0 then [(info.rdAddr.toNat, info.rdByte.toNat)] else []) ++
  (if info.rbFirma = rbFirmaRdbt ∧ rbAddr ≠ 0 ∧ rbByte ≠ 0 then [(rbAddr, rbByte)] else []) ++
  [(pagingFinestraFisica, pageSize)]

/-- The first 16 usable regions that reach above 4 GB, from there on. -/
def regioniAlte : List (Nat × Nat) :=
  (info.mappa.filterMap fun e =>
    let fine := (e.base + e.length) % 2 ^ 64
    if e.tipo = e820TypeUsable ∧ gb4 < fine then some (max e.base gb4, fine)
    else none).take 16

def fineAlta : Nat :=
  min (info.regioniAlte.foldl (fun fine r => max fine r.2) gb4) (gb4 + altaMaxGb * 0x40000000)

/-- `g_alta_pagine`. -/
def altaPagine : Nat := (info.fineAlta - gb4) / pageSize

/-- The pages of the bitmap of the pool above 4 GB. -/
def pagineBitmap : Nat := ((info.altaPagine + 7) / 8 + pageSize - 1) / pageSize

def pagineRif : Nat := (info.altaPagine + pageSize - 1) / pageSize

end BootInfo

/-- The first `n` bytes filled with `b`. -/
def riempi (n : Nat) (b : BitVec 8) (mem : Memoria) : Memoria := fun i => if i < n then b else mem i

namespace Pmm

def segnaUsata (s : Pmm) (i : Nat) : Pmm :=
  if bitTest s.mem i then s
  else
    { s with
      mem := bitSet s.mem i
      usedPages := piu s.usedPages
      freePages := if 0 < s.freePages then meno s.freePages else s.freePages }

def markUsed (s : Pmm) (r : Nat × Nat) : Pmm :=
  let pageStart := addrToPage r.1
  let pageEnd := min (addrToPage ((r.1 + r.2 + pageSize - 1) % 2 ^ 32)) s.totalPages
  (List.range' pageStart (pageEnd - pageStart)).foldl segnaUsata s

def segnaLibera (s : Pmm) (i : Nat) : Pmm :=
  if bitTest s.mem i then
    { s with
      mem := bitClr s.mem i
      freePages := piu s.freePages
      usedPages := if 0 < s.usedPages then meno s.usedPages else s.usedPages }
  else s

def markFree (s : Pmm) (r : Nat × Nat) : Pmm :=
  let pageStart := addrToPage r.1
  let pageEnd := min (addrToPage ((r.1 + r.2) % 2 ^ 32)) s.totalPages
  (List.range' pageStart (pageEnd - pageStart)).foldl segnaLibera s

/-- The tables before any region is marked, in the memory `ram` that follows
the kernel. -/
def vuoto (info : BootInfo) (ram : Memoria) : Pmm where
  mem := riempi info.bitmapSize 0xFF#8 (riempi (info.bitmapSize + info.rifSize) 0#8 ram)
  totalPages := info.pagine
  freePages := 0
  usedPages := info.pagine
  bitmapSize := info.bitmapSize
  lastAlloc := addrToPage 0x00100000
  lastAllocK := addrToPage 0x00100000
  oltre := { slot := fun _ => .vuoto, posti := 0, usati := 0 }
  alta := false
  altaMem := fun _ => 0
  altaRif := false
  altaRifMem := fun _ => 0
  altaPagine := 0
  altaLibere := 0
  altaCursore := 0

/-- The pages of one region above 4 GB become free: the bitmap and the count of
its free pages.  The region ends below 2 ^ 64. -/
def liberaRegione (fine : Nat) (alta : Memoria × Nat) (r : Nat × Nat) : Memoria × Nat :=
  let b := alignUp r.1
  let e := min r.2 fine
  (List.range' (altaIndice b) ((e - b) / pageSize)).foldl
    (fun alta k => (bitClr alta.1 k, piu alta.2)) alta

/-- The bitmap of the pool above 4 GB in pages that held `ram`, and its free
pages. -/
def altaBitmap (info : BootInfo) (ram : Memoria) : Memoria × Nat :=
  info.regioniAlte.foldl (liberaRegione info.fineAlta)
    (riempi (info.pagineBitmap * pageSize) 0xFF#8 ram, 0)

/-- The end of `alta_init` once the pages `f` of the reference bytes, which held
`ram`, have been asked for. -/
def conRiferimenti (info : BootInfo) (ram : Memoria) : Nat × Pmm → Pmm
  | (f, s) =>
    if f = 0 then s
    else
      { s with
        altaRif := true
        altaRifMem := riempi (info.pagineRif * pageSize) 0#8 ram }

/-- The same once the pages `f` of the bitmap have been asked for. -/
def conBitmap (info : BootInfo) (ramAlta ramRif : Memoria) : Nat × Pmm → Pmm
  | (f, s) =>
    if f = 0 then s
    else
      conRiferimenti info ramRif
        ({ s with
          alta := true
          altaPagine := info.altaPagine
          altaMem := (altaBitmap info ramAlta).1
          altaLibere := (altaBitmap info ramAlta).2 }.allocPagesKernel info.pagineRif)

/-- `ramAlta` and `ramRif` are what the pages of its two tables held. -/
def altaInit (s : Pmm) (info : BootInfo) (ramAlta ramRif : Memoria) : Pmm :=
  if info.senzaMappa ∨ info.regioniAlte.isEmpty then s
  else conBitmap info ramAlta ramRif (s.allocPagesKernel info.pagineBitmap)

def bassaInit (nucleo : Immagine) (info : BootInfo) (ram : Memoria) : Pmm :=
  (info.riservate nucleo).foldl markUsed (info.libere.foldl markFree (vuoto info ram))

end Pmm

open Pmm in
/-- Nothing when no RAM is found, where the kernel stops. -/
def pmmInit (nucleo : Immagine) (info : BootInfo) (ram ramAlta ramRif : Memoria) : Option Pmm :=
  if info.maxAddr = 0 then none
  else some ((bassaInit nucleo info ram).altaInit info ramAlta ramRif)

namespace Pmm

/-! ## Marking regions -/

def coperte (total size : Nat) : Nat := min total (8 * size)

/-- The state while regions are marked. -/
structure Avvio (total size : Nat) (s : Pmm) : Prop where
  pagine : s.totalPages = total
  bitmap : s.bitmapSize = size
  sotto : total ≤ pmmPagine4Gb
  rif : ∀ q < total, s.mem (size + q) = 0
  coda : ∀ p, total ≤ p → p < 8 * size → bitTest s.mem p = true
  libere : s.freePages = countBelow (coperte total size) fun p => !bitTest s.mem p
  fermo : s.lastAlloc = addrToPage 0x00100000
  tavola : s.oltre = { slot := fun _ => .vuoto, posti := 0, usati := 0 }
  alta : s.alta = false
  altaPagine : s.altaPagine = 0
  altaRif : s.altaRif = false
  altaCursore : s.altaCursore = 0

variable {total size : Nat} {s : Pmm}

variable {p : Nat} {r : Nat × Nat} {info : BootInfo} {ram : Memoria} {mem : Memoria} {count : Nat}

theorem Avvio.scoperta (avvio : s.Avvio total size) (lt : p < total)
    (beyond : 8 * size ≤ p) : bitTest s.mem p = false := by
  have byte := avvio.rif (p / 8 - size) (by omega)
  rw [Nat.add_sub_cancel' (by omega)] at byte
  rw [bitTest, byte]
  exact BitVec.getLsbD_zero

theorem bitSet_beyond (mem : Memoria) (covered : p < 8 * size) (q : Nat) :
    bitSet mem p (size + q) = mem (size + q) := by
  rw [bitSet, Function.update_of_ne (by omega)]

theorem bitClr_beyond (mem : Memoria) (covered : p < 8 * size) (q : Nat) :
    bitClr mem p (size + q) = mem (size + q) := by
  rw [bitClr, Function.update_of_ne (by omega)]

section

variable (avvio : s.Avvio total size)

include avvio

theorem Avvio.conMem {free used : Nat}
    (bytes : ∀ q, mem (size + q) = s.mem (size + q))
    (tail : ∀ q, total ≤ q → bitTest mem q = bitTest s.mem q)
    (counted : free = countBelow (coperte total size) fun p => !bitTest mem p) :
    { s with mem := mem, freePages := free, usedPages := used }.Avvio total size := { avvio with
  rif := fun q lt => (bytes q).trans (avvio.rif q lt)
  coda := fun q above lt => (tail q above).trans (avvio.coda q above lt)
  libere := counted }

theorem Avvio.coperte_le : coperte total size ≤ pmmPagine4Gb :=
  Nat.le_trans (Nat.min_le_left _ _) avvio.sotto

theorem Avvio.segnaLibera (lt : p < total) : (s.segnaLibera p).Avvio total size := by
  rw [Pmm.segnaLibera]
  split
  · next used =>
    have covered : p < 8 * size := by
      by_contra beyond
      rw [avvio.scoperta lt (by omega)] at used
      simp at used
    have marked := libere_bitClr (n := coperte total size) (Nat.lt_min.mpr ⟨lt, covered⟩) used
    have most := countBelow_le (coperte total size) (fun q => !bitTest (bitClr s.mem p) q)
    have few := avvio.coperte_le
    apply avvio.conMem (bitClr_beyond s.mem covered)
    · intro q above
      rw [bitTest_bitClr, Function.update_of_ne (by omega)]
    · unfold pmmPagine4Gb at few
      rw [marked, avvio.libere]
      exact piu_eq (by omega)
  · exact avvio

theorem Avvio.segnaUsata (lt : p < coperte total size) : (s.segnaUsata p).Avvio total size := by
  obtain ⟨below, covered⟩ := Nat.lt_min.mp lt
  rw [Pmm.segnaUsata]
  split
  · exact avvio
  rename_i clear
  have free : bitTest s.mem p = false := by simpa using clear
  have marked := libere_bitSet lt free
  have most := countBelow_le (coperte total size) (fun q => !bitTest s.mem q)
  have few := avvio.coperte_le
  apply avvio.conMem (bitSet_beyond s.mem covered)
  · intro q above
    rw [bitTest_bitSet, Function.update_of_ne (by omega)]
  · unfold pmmPagine4Gb at few
    rw [avvio.libere, meno_eq (by omega) (by omega), marked]
    rfl

end

theorem Avvio.foldl {step : Pmm → Nat → Pmm} {bound : Nat}
    (kept : ∀ {s : Pmm}, s.Avvio total size → ∀ {p}, p < bound → (step s p).Avvio total size) :
    ∀ (pages : List Nat) (s : Pmm), s.Avvio total size → (∀ p ∈ pages, p < bound) →
      (pages.foldl step s).Avvio total size
  | [], _, avvio, _ => avvio
  | p :: pages, s, avvio, inside =>
    Avvio.foldl kept pages (step s p) (kept avvio (inside p mem_cons_self))
      fun q mem => inside q (mem_cons_of_mem p mem)

theorem Avvio.markFree (avvio : s.Avvio total size) (r : Nat × Nat) :
    (s.markFree r).Avvio total size := by
  apply Avvio.foldl (fun avvio _ lt => avvio.segnaLibera lt) _ s avvio
  intro p mem
  rw [avvio.pagine, mem_range'_1] at mem
  omega

/-- The end of a region that is marked as used. -/
def paginaFine (r : Nat × Nat) : Nat := addrToPage ((r.1 + r.2 + pageSize - 1) % 2 ^ 32)

theorem Avvio.markUsed (avvio : s.Avvio total size) (fits : min (paginaFine r) total ≤ 8 * size) :
    (s.markUsed r).Avvio total size := by
  apply Avvio.foldl (fun avvio _ lt => avvio.segnaUsata lt) _ s avvio
  intro p mem
  rw [avvio.pagine, mem_range'_1] at mem
  have stop : p < min (paginaFine r) total := by
    unfold paginaFine
    omega
  exact Nat.lt_min.mpr
    ⟨Nat.lt_of_lt_of_le stop (Nat.min_le_right _ _), Nat.lt_of_lt_of_le stop fits⟩

/-! ## The pages below 4 GB -/

theorem le_alignUp {x : Nat} : x ≤ alignUp x := by
  unfold alignUp pageSize
  omega

theorem pagine_lt : info.pagine < pmmPagine4Gb := by
  unfold BootInfo.pagine pageSize pmmPagine4Gb
  omega

theorem vuoto_bit (covered : p < 8 * info.bitmapSize) : bitTest (vuoto info ram).mem p = true := by
  have byte : (vuoto info ram).mem (p / 8) = 0xFF#8 := if_pos (by omega)
  have small : p % 8 < 8 := Nat.mod_lt p (by decide)
  rw [bitTest, byte]
  generalize p % 8 = j at small
  decide +revert

theorem vuoto_avvio : (vuoto info ram).Avvio info.pagine info.bitmapSize where
  pagine := rfl
  bitmap := rfl
  sotto := Nat.le_of_lt pagine_lt
  rif q lt := by
    have long : q < info.rifSize := Nat.lt_of_lt_of_le lt le_alignUp
    show riempi _ _ (riempi _ _ _) _ = _
    rw [riempi, if_neg (by omega), riempi, if_pos (by omega)]
    rfl
  coda p _ covered := vuoto_bit covered
  libere := by
    apply Eq.symm
    apply countBelow_eq_zero
    intro p lt
    rw [vuoto_bit (Nat.lt_min.mp lt).2]
    rfl
  fermo := rfl
  tavola := rfl
  alta := rfl
  altaPagine := rfl
  altaRif := rfl
  altaCursore := rfl

variable (regioni : List (Nat × Nat)) {nucleo : Immagine}

theorem Avvio.foldl_markFree :
    ∀ {s : Pmm}, s.Avvio total size → (regioni.foldl Pmm.markFree s).Avvio total size := by
  induction regioni with
  | nil => exact fun avvio => avvio
  | cons r regioni ih =>
    intro s avvio
    exact ih (avvio.markFree r)

theorem Avvio.foldl_markUsed : ∀ {s : Pmm}, s.Avvio total size →
      (∀ r ∈ regioni, min (paginaFine r) total ≤ 8 * size) →
      (regioni.foldl Pmm.markUsed s).Avvio total size := by
  induction regioni with
  | nil => exact fun avvio _ => avvio
  | cons r regioni ih =>
    intro s avvio fits
    apply ih (avvio.markUsed (fits r mem_cons_self))
    intro other mem
    exact fits other (mem_cons_of_mem r mem)

theorem bassaInit_avvio (nucleo : Immagine) (info : BootInfo) (ram : Memoria)
    (fits : ∀ r ∈ info.riservate nucleo, min (paginaFine r) info.pagine ≤ 8 * info.bitmapSize) :
    (bassaInit nucleo info ram).Avvio info.pagine info.bitmapSize :=
  (vuoto_avvio.foldl_markFree info.libere).foldl_markUsed _ fits

theorem segnaUsata_bit {i p : Nat} :
    bitTest (s.segnaUsata i).mem p = (decide (p = i) || bitTest s.mem p) := by
  rw [segnaUsata]
  split
  · next used =>
    by_cases same : p = i
    · rw [same, used, Bool.or_true]
    · rw [decide_eq_false same, Bool.false_or]
  · rw [bitTest_bitSet, Function.update_apply]
    split <;> simp [*]

theorem foldl_segnaUsata_bit {pages : List Nat} :
    ∀ s : Pmm, bitTest (pages.foldl segnaUsata s).mem p =
      (decide (p ∈ pages) || bitTest s.mem p) := by
  induction pages with
  | nil =>
    simp
  | cons i pages ih =>
    intro s
    rw [foldl_cons, ih, segnaUsata_bit]
    simp only [mem_cons, Bool.decide_or]
    cases decide (p = i) <;> simp

theorem markUsed_keeps (used : bitTest s.mem p = true) : bitTest (s.markUsed r).mem p = true := by
  rw [markUsed, foldl_segnaUsata_bit, used, Bool.or_true]

theorem markUsed_bit (lower : addrToPage r.1 ≤ p)
    (upper : p < paginaFine r) (lt : p < s.totalPages) :
    bitTest (s.markUsed r).mem p = true := by
  rw [markUsed, foldl_segnaUsata_bit, Bool.or_eq_true, decide_eq_true_eq, mem_range'_1]
  unfold paginaFine at upper
  exact .inl (by omega)

theorem foldl_markUsed_keeps :
    ∀ {s : Pmm}, bitTest s.mem p = true → bitTest (regioni.foldl markUsed s).mem p = true := by
  induction regioni with
  | nil => exact fun used => used
  | cons r regioni ih =>
    intro s used
    exact ih (markUsed_keeps used)

theorem riservata_usata (covered : info.pagine ≤ 8 * info.bitmapSize)
    (mem : r ∈ info.riservate nucleo) (lower : addrToPage r.1 ≤ p)
    (upper : p < paginaFine r) (lt : p < info.pagine) :
    bitTest (bassaInit nucleo info ram).mem p = true := by
  obtain ⟨pre, after, split⟩ := append_of_mem mem
  have avvio : (pre.foldl markUsed
      (info.libere.foldl markFree (vuoto info ram))).Avvio info.pagine info.bitmapSize := by
    apply (vuoto_avvio.foldl_markFree info.libere).foldl_markUsed
    intro other _
    exact Nat.le_trans (Nat.min_le_right _ _) covered
  rw [bassaInit, split, foldl_append, foldl_cons]
  apply foldl_markUsed_keeps
  exact markUsed_bit lower upper (avvio.pagine.symm ▸ lt)

def primi (mem : Memoria) (p : Nat) : Nat := if bitTest mem p then 1 else 0

theorem Avvio.sano (avvio : s.Avvio total size) (covered : total ≤ 8 * size)
    (enough : total = 0 ∨ addrToPage 0x00100000 ≤ 8 * size)
    (zero : 0 < total → bitTest s.mem 0 = true) : s.Sano (primi s.mem) := by
  have noExtra : ∀ a, s.oltre.di a = 0 := by
    intro a
    rw [avvio.tavola]
    rfl
  exact {
    spazio := by
      rw [avvio.pagine, avvio.bitmap]
      exact covered
    sotto := avvio.pagine.symm ▸ avvio.sotto
    coda := by
      rw [avvio.pagine, avvio.bitmap]
      exact avvio.coda
    hint := by
      rw [avvio.pagine, avvio.bitmap, avvio.fermo]
      exact enough
    tavola := by
      rw [avvio.tavola]
      exact Oltre.Sana.nuova
    zero := avvio.pagine.symm ▸ zero
    basse := by
      intro p _ lt
      rw [avvio.pagine] at lt
      rw [Pmm.rif, avvio.bitmap, avvio.rif p lt, noExtra]
      exact Pagina.iniziale
    alte := by
      intro hasAlta
      rw [avvio.alta] at hasAlta
      simp at hasAlta
    libere := by rw [avvio.libere, avvio.pagine, coperte, Nat.min_eq_left covered]
    cursore := .inl avvio.altaPagine }

theorem coperte_iff : info.pagine ≤ 8 * info.bitmapSize ↔
      info.pagine % 32768 = 0 ∨ 8 ≤ info.pagine % 32768 := by
  unfold BootInfo.bitmapSize alignUp pageSize
  omega

theorem bassaInit_sano (nucleo : Immagine) (ram : Memoria)
    (covered : info.pagine ≤ 8 * info.bitmapSize) :
    (bassaInit nucleo info ram).Sano (primi (bassaInit nucleo info ram).mem) := by
  have avvio := bassaInit_avvio nucleo info ram
    fun r _ => Nat.le_trans (Nat.min_le_right (paginaFine r) _) covered
  apply avvio.sano covered
  · unfold BootInfo.bitmapSize alignUp addrToPage pageSize at *
    omega
  · intro some
    exact riservata_usata covered (r := (0, pageSize)) mem_cons_self
      (Nat.zero_le _) (by decide) some

/-! ## The pool above 4 GB -/

/-- What the kernel's allocators leave alone. -/
def parteAlta (s : Pmm) : Oltre × Bool × Bool × Nat × Nat :=
  (s.oltre, s.alta, s.altaRif, s.altaPagine, s.altaCursore)

theorem parteAlta_prendiTutte :
    ∀ (s : Pmm) (page : Nat), (s.prendiTutte page count).parteAlta = s.parteAlta := by
  induction count with
  | zero => exact fun _ _ => rfl
  | succ count ih =>
    intro s page
    exact ih (s.prendi page) (page + 1)

theorem parteAlta_allocPagesKernel (s : Pmm) (count : Nat) :
    (s.allocPagesKernel count).2.parteAlta = s.parteAlta := by
  rw [allocPagesKernel]
  split
  · rfl
  split
  · rw [allocPageKernel]
    split
    · rfl
    · split <;> rfl
  · split
    · exact parteAlta_prendiTutte s _
    · rfl

theorem Dato.sano {owners : Nat → Nat} {r : Nat × Pmm}
    (dato : Dato s owners count r) : ∃ owners, r.2.Sano owners := by
  rcases dato with ⟨_, sano⟩ | ⟨page, _, _, _, sano⟩
  · exact ⟨owners, sano⟩
  · exact ⟨_, sano⟩

variable {owners : Nat → Nat}

theorem Sano.accendi (sano : s.Sano owners) {pagine : Nat} {libere : Nat}
    (noTable : ∀ a, s.oltre.di a = 0) (noBytes : s.altaRif = false)
    (pos : 0 < pagine) (start : s.altaCursore = 0) :
    ∃ owners, { s with
      alta := true, altaPagine := pagine, altaMem := mem, altaLibere := libere }.Sano owners := by
  have below := sano.sotto
  refine ⟨fun q => if q < pmmPagine4Gb then owners q else primi mem (q - pmmPagine4Gb), ?_⟩
  exact { sano with
    basse := by
      intro p nz lt
      dsimp only at lt ⊢
      rw [if_pos (by omega)]
      exact sano.basse p nz lt
    alte := by
      intro _ k _
      have byte : byteAlto { s with
          alta := true, altaPagine := pagine, altaMem := mem, altaLibere := libere } k = 0 := by
        exact if_neg (by simp [noBytes])
      rw [byte]
      rw [noTable, if_neg (by omega), Nat.add_sub_cancel_left]
      exact Pagina.iniziale
    cursore := by
      rw [start]
      exact .inr ⟨rfl, pos⟩ }

theorem Sano.conByte (sano : s.Sano owners) (noBytes : s.altaRif = false)
    (empty : ∀ k < s.altaPagine, mem k = 0#8) :
    { s with altaRif := true, altaRifMem := mem }.Sano owners := { sano with
  alte := by
    intro hasAlta k lt
    have page := sano.alte hasAlta k lt
    rw [byteAlto, noBytes] at page
    rw [byteAlto]
    dsimp only
    rw [empty k lt]
    exact page }

theorem conRiferimenti_sano {r : Nat × Pmm} (sano : r.2.Sano owners)
    (noBytes : r.2.altaRif = false) (pages : r.2.altaPagine = info.altaPagine) :
    ∃ owners, (conRiferimenti info ram r).Sano owners := by
  rw [conRiferimenti]
  split
  · exact ⟨owners, sano⟩
  refine ⟨owners, sano.conByte noBytes ?_⟩
  intro k lt
  apply if_pos
  unfold BootInfo.pagineRif pageSize
  omega

theorem conBitmap_sano {r : Nat × Pmm} (sano : r.2.Sano owners)
    (noTable : ∀ a, r.2.oltre.di a = 0) (noBytes : r.2.altaRif = false)
    (start : r.2.altaCursore = 0) (pos : r.1 ≠ 0 → 0 < info.altaPagine) (ramAlta ramRif : Memoria) :
    ∃ owners, (conBitmap info ramAlta ramRif r).Sano owners := by
  obtain ⟨f, s⟩ := r
  rw [conBitmap]
  split
  · exact ⟨owners, sano⟩
  rename_i missing
  obtain ⟨fst, sano₁⟩ := sano.accendi noTable noBytes (pos missing) start
  obtain ⟨snd, sano₂⟩ := (sano₁.allocPagesKernel info.pagineRif).sano
  have left := parteAlta_allocPagesKernel { s with
    alta := true
    altaPagine := info.altaPagine
    altaMem := (altaBitmap info ramAlta).1
    altaLibere := (altaBitmap info ramAlta).2 } info.pagineRif
  simp only [parteAlta, Prod.mk.injEq] at left
  exact conRiferimenti_sano sano₂ (left.2.2.1.trans noBytes) left.2.2.2.1

theorem altaInit_sano (sano : s.Sano owners) (avvio : s.Avvio total size)
    (info : BootInfo) (ramAlta ramRif : Memoria) :
    ∃ owners, (s.altaInit info ramAlta ramRif).Sano owners := by
  by_cases nothing : info.senzaMappa ∨ info.regioniAlte.isEmpty
  · rw [altaInit, if_pos nothing]
    exact ⟨owners, sano⟩
  have pos : (s.allocPagesKernel info.pagineBitmap).1 ≠ 0 → 0 < info.altaPagine := by
    intro found
    by_contra none
    have noTable : info.pagineBitmap = 0 := by
      unfold BootInfo.pagineBitmap pageSize
      omega
    rw [noTable] at found
    exact found rfl
  have left := parteAlta_allocPagesKernel s info.pagineBitmap
  simp only [parteAlta, Prod.mk.injEq] at left
  obtain ⟨table, _, bytes, _, cursor⟩ := left
  obtain ⟨fst, sano₁⟩ := (sano.allocPagesKernel info.pagineBitmap).sano
  rw [altaInit, if_neg nothing]
  apply conBitmap_sano sano₁ _ (bytes.trans avvio.altaRif) (cursor.trans avvio.altaCursore) pos
  intro a
  rw [table, avvio.tavola]
  rfl

theorem pmmInit_sano {ram ramAlta ramRif : Memoria} (covered : info.pagine ≤ 8 * info.bitmapSize)
    (started : pmmInit nucleo info ram ramAlta ramRif = some s) :
    ∃ owners, s.Sano owners := by
  rw [pmmInit] at started
  split at started
  · simp at started
  have avvio := bassaInit_avvio nucleo info ram
    fun r _ => Nat.le_trans (Nat.min_le_right (paginaFine r) _) covered
  rw [← Option.some.inj started]
  exact altaInit_sano (bassaInit_sano nucleo ram covered) avvio info ramAlta ramRif

end Pmm

end ExOs.Mm
