import ExOs.Library.Runs
import ExOs.Mm.PmmInit

/-!
# Runs of the physical memory manager

A ledger beside the manager counts the owners of every page: one when an
allocator gives it out, one more for each reference taken, one less for each
release.
-/

namespace ExOs.Mm

open ExOs.Library

theorem Pagina.libera_iff {usata : Bool} {byte extra n : Nat}
    (page : Pagina usata byte extra n) : (!usata) = true ↔ n = 0 := by
  cases usata with
  | true =>
    have count := page.usata.1
    constructor
    · simp
    · omega
  | false =>
    have none := page.libera.2.2
    simp [none]

namespace Pmm

inductive Allocatore where
  | page
  | pageKernel
  | pageUtente
  | pages (count : Nat)
  | pagesKernel (count : Nat)

def Allocatore.pagine : Allocatore → Nat
  | .page | .pageKernel | .pageUtente => 1
  | .pages count | .pagesKernel count => count

def alloca (s : Pmm) : Allocatore → Nat × Pmm
  | .page => s.allocPage
  | .pageKernel => s.allocPageKernel
  | .pageUtente => s.allocPageUtente
  | .pages count => s.allocPages count
  | .pagesKernel count => s.allocPagesKernel count

def libera (s : Pmm) (addr : Nat) : Bool :=
  if gb4 ≤ addr then !bitTest s.altaMem (altaIndice addr)
  else !bitTest s.mem (addrToPage addr)

variable {s : Pmm} {owners : Nat → Nat}

section

variable (sano : s.Sano owners)

include sano

theorem Sano.alloca (a : Allocatore) : Dato s owners a.pagine (s.alloca a) := by
  cases a with
  | page => exact sano.allocPage
  | pageKernel => exact sano.allocPageKernel
  | pageUtente => exact sano.allocPageUtente
  | pages count => exact sano.allocPages count
  | pagesKernel count => exact sano.allocPagesKernel count

theorem Sano.libera_iff {addr : Nat} (managed : s.gestita addr = true) :
    s.libera addr = true ↔ owners (addrToPage addr) = 0 := by
  rcases gestita_cases managed with ⟨p, isAddr, nz, lt, low⟩ | ⟨k, isAddr, hasAlta, lt⟩
  · rw [libera, if_neg (by omega), isAddr, addrToPage_pageToAddr]
    exact (sano.basse p nz lt).libera_iff
  · rw [libera, isAddr, if_pos (gb4_le_altoAddr k), altaIndice_altoAddr, addrToPage_altoAddr]
    exact (sano.alte hasAlta k lt).libera_iff

theorem Sano.gestita_amministrata {q : Nat}
    (inside : s.Amministrata q) : s.gestita (pageToAddr q) = true := by
  have below := sano.sotto
  rcases inside with ⟨nz, low⟩ | ⟨hasAlta, lower, upper⟩
  · apply gestita_pageToAddr nz low
    unfold pageToAddr pmmPagine4Gb gb4 pageSize at *
    omega
  have isHigh : pageToAddr q = altoAddr (q - pmmPagine4Gb) := by
    rw [altoAddr_eq, Nat.add_sub_cancel' lower]
  rw [isHigh]
  exact gestita_altoAddr hasAlta (by omega)

theorem Sano.congr {owners' : Nat → Nat}
    (same : ∀ q, s.Amministrata q → owners' q = owners q) : s.Sano owners' := { sano with
  basse := by
    intro p nz lt
    rw [same p (Or.inl ⟨nz, lt⟩)]
    exact sano.basse p nz lt
  alte := by
    intro hasAlta k lt
    rw [same _ (Or.inr ⟨hasAlta, by omega, by omega⟩)]
    exact sano.alte hasAlta k lt }

end

end Pmm

/-! ## The ledger -/

open Pmm

/-- `conto` counts the owners of each page. -/
structure Sistema where
  pmm : Pmm
  conto : Nat → Nat

inductive Evento where
  | alloca (a : Allocatore)
  | refInc (addr : Nat) (memoria : Bool)
  | freePage (addr : Nat)

namespace Sistema

def passo (c : Sistema) : Evento → Sistema
  | .alloca a =>
    { pmm := (c.pmm.alloca a).2
      conto :=
        if (c.pmm.alloca a).1 = 0 then c.conto
        else assegna c.conto (addrToPage (c.pmm.alloca a).1) a.pagine }
  | .refInc addr memoria =>
    match c.pmm.refInc addr memoria with
    | none => c
    | some pmm => { pmm := pmm, conto := c.pmm.dopoRefInc c.conto addr }
  | .freePage addr =>
    { pmm := c.pmm.freePage addr, conto := c.pmm.dopoFree c.conto addr }

/-- The manager has just been started; its pages in use have one owner. -/
def Avviato (mappa : BootInfo → Prop) (c : Sistema) : Prop :=
  ∃ nucleo info ram ramAlta ramRif, mappa info ∧
    pmmInit nucleo info ram ramAlta ramRif = some c.pmm ∧
    c.conto = fun p => c.pmm.refCount (pageToAddr p)

/-- The states of the runs from the maps in `mappa` by the calls in
`chiamata`. -/
def Corsa (mappa : BootInfo → Prop) (chiamata : Sistema → Evento → Prop) : Sistema → Prop :=
  Reached (Avviato mappa) fun c e c' => chiamata c e ∧ c' = c.passo e

theorem Corsa.poi {mappa : BootInfo → Prop} {chiamata : Sistema → Evento → Prop}
    {c : Sistema} (corsa : Corsa mappa chiamata c) (e : Evento) (admitted : chiamata c e) :
    Corsa mappa chiamata (c.passo e) :=
  Reached.next corsa ⟨admitted, rfl⟩

/-- The manager agrees with the ledger. -/
structure Contato (c : Sistema) : Prop where
  conti : ∀ addr, c.pmm.gestita addr = true → c.pmm.refCount addr = c.conto (addrToPage addr)
  libere : ∀ addr, c.pmm.gestita addr = true →
    (c.pmm.libera addr = true ↔ c.conto (addrToPage addr) = 0)
  bitmap : c.pmm.freePages = countBelow c.pmm.totalPages fun p => !bitTest c.pmm.mem p
  nuove : ∀ a, (c.pmm.alloca a).1 ≠ 0 → ∀ i < a.pagine,
    c.pmm.gestita ((c.pmm.alloca a).1 + i * pageSize) = true ∧
      c.pmm.refCount ((c.pmm.alloca a).1 + i * pageSize) = 0

/-- The bitmap has a bit for every page, and no region wraps around. -/
def Capiente (info : BootInfo) : Prop :=
  (info.pagine % 32768 = 0 ∨ 8 ≤ info.pagine % 32768) ∧ ∀ e ∈ info.mappa, e.base + e.length < 2 ^ 64

/-- The owners of a page fit 32 bits, and what is released above 4 GB is a
page. -/
def Ammesso (c : Sistema) : Evento → Prop
  | .alloca _ => True
  | .refInc addr _ =>
    c.pmm.gestita addr = true → c.conto (addrToPage addr) + 1 < 2 ^ 32
  | .freePage addr => gb4 ≤ addr → addr % pageSize = 0

end Sistema

namespace Pmm

variable {s : Pmm} {owners : Nat → Nat}

theorem Sano.contato (sano : s.Sano owners) : Sistema.Contato { pmm := s, conto := owners } where
  conti _ managed := sano.refCount managed
  libere _ managed := sano.libera_iff managed
  bitmap := sano.libere
  nuove := by
    intro a found i lt
    rcases sano.alloca a with ⟨missing, _⟩ | ⟨page, isAddr, _, free, _⟩
    · exact absurd missing found
    obtain ⟨place, nobody⟩ := free (page + i) (by omega) (by omega)
    have isPage : (s.alloca a).1 + i * pageSize = pageToAddr (page + i) := by
      rw [isAddr, pageToAddr, pageToAddr, Nat.add_mul]
    have managed := sano.gestita_amministrata place
    rw [isPage, sano.refCount managed, addrToPage_pageToAddr]
    exact ⟨managed, nobody⟩

end Pmm

namespace Sistema

variable {c : Sistema}

theorem Avviato.sano (started : Avviato Capiente c) : c.pmm.Sano c.conto := by
  obtain ⟨nucleo, info, ram, ramAlta, ramRif, capiente, made, ledger⟩ := started
  obtain ⟨owners, sano⟩ := pmmInit_sano (coperte_iff.mpr capiente.1) made
  apply sano.congr
  intro q inside
  rw [ledger]
  dsimp only
  rw [sano.refCount (sano.gestita_amministrata inside), addrToPage_pageToAddr]

theorem passo_sano (sano : c.pmm.Sano c.conto) {e : Evento}
    (ammesso : Ammesso c e) : (c.passo e).pmm.Sano (c.passo e).conto := by
  cases e with
  | alloca a =>
    rw [passo]
    rcases sano.alloca a with ⟨missing, sano'⟩ | ⟨page, isAddr, nz, _, sano'⟩
    · rw [if_pos missing]
      exact sano'
    have found : (c.pmm.alloca a).1 ≠ 0 := by
      rw [isAddr, pageToAddr, pageSize]
      omega
    rw [if_neg found, isAddr, addrToPage_pageToAddr]
    exact sano'
  | refInc addr memoria =>
    rw [passo]
    cases done : c.pmm.refInc addr memoria with
    | none => exact sano
    | some pmm => exact sano.refInc ammesso done
  | freePage addr => exact sano.freePage ammesso

theorem Corsa.sano (corsa : Corsa Capiente Ammesso c) : c.pmm.Sano c.conto := by
  refine Reached.invariant (fun c : Sistema => c.pmm.Sano c.conto) ?_ ?_ corsa
  · exact fun _ started => started.sano
  · rintro c e c' sano ⟨ammesso, isNext⟩
    rw [isNext]
    exact passo_sano sano ammesso

/-- In every state of a run that starts with a bit for every page, the count of
every page is the ledger's, the page is free exactly when it is 0, the free
pages are those of the bitmap, and the allocators give out pages of nobody. -/
theorem corsa_contata {c : Sistema} (corsa : Corsa Capiente Ammesso c) : Contato c :=
  corsa.sano.contato

/-! ## A run -/

def usabile (base length : UInt32) : E820Entry :=
  { baseLow := base, baseHigh := 0, lengthLow := length, lengthHigh := 0, tipo := 1 }

/-- Four pages from 1 MB on; the kernel and its tables take three. -/
def infoPiccola : BootInfo where
  memLower := 0
  memUpper := 0
  e820Addr := 0x8000
  mappa := [usabile 0x100000 0x4000]
  rdAddr := 0
  rdByte := 0
  rbFirma := 0
  rbAddr := 0
  rbByte := 0

def nucleoPiccolo : Immagine := { kernelStart := 0x100000, kernelEnd := 0x100800 }

def avvia (nucleo : Immagine) (info : BootInfo) : Sistema :=
  let s := (bassaInit nucleo info fun _ => 0).altaInit info (fun _ => 0) fun _ => 0
  { pmm := s, conto := fun p => s.refCount (pageToAddr p) }

theorem avvia_avviato {mappa : BootInfo → Prop} {info : BootInfo} (good : mappa info)
    (ne : info.maxAddr ≠ 0) {nucleo : Immagine} : Avviato mappa (avvia nucleo info) :=
  ⟨nucleo, info, fun _ => 0, fun _ => 0, fun _ => 0, good, if_neg ne, rfl⟩

def corsaPiccola : Sistema :=
  ((avvia nucleoPiccolo infoPiccola).passo (.alloca .page)).passo (.refInc 0x103000 false)

theorem corsa_contata_condivisa :
    Corsa Capiente Ammesso corsaPiccola ∧ corsaPiccola.conto 0x103 = 2 ∧ Contato corsaPiccola := by
  have start : Corsa Capiente Ammesso (avvia nucleoPiccolo infoPiccola) := by
    apply Reached.start
    apply avvia_avviato
    · exact ⟨by decide +kernel, by decide +kernel⟩
    · decide +kernel
  have given := start.poi (.alloca .page) trivial
  have shared : Corsa Capiente Ammesso corsaPiccola :=
    given.poi (.refInc 0x103000 false) fun _ => by decide +kernel
  exact ⟨shared, by decide +kernel, corsa_contata shared⟩

/-- A machine with one page more than 128 MB. -/
def infoScoperta : BootInfo :=
  { infoPiccola with
    mappa := [usabile 0 0x9FC00, usabile 0x100000 0x07F01000] }

def nucleoScoperto : Immagine := { kernelStart := 0x100000, kernelEnd := 0x180000 }

end Sistema

theorem Pmm.Avvio.freePages_ne {total size : Nat} {s : Pmm} (avvio : s.Avvio total size)
    (uncovered : 8 * size < total) :
    s.freePages ≠ countBelow s.totalPages fun p => !bitTest s.mem p := by
  have clear : (!bitTest s.mem (8 * size)) = true := by
    rw [avvio.scoperta uncovered (Nat.le_refl _)]
    rfl
  have more : countBelow (8 * size) (fun p => !bitTest s.mem p) <
      countBelow total fun p => !bitTest s.mem p :=
    countBelow_lt_countBelow uncovered clear
  rw [avvio.libere, avvio.pagine, coperte, Nat.min_eq_right (Nat.le_of_lt uncovered)]
  exact Nat.ne_of_lt more

namespace Sistema

/-- A run from the machine with a page without a bit miscounts its free
pages. -/
theorem avvio_scoperto : ¬ ∀ c, Corsa (fun _ => True) (fun _ _ => True) c → Contato c := by
  intro always
  have contato := always (avvia nucleoScoperto infoScoperta)
    (Reached.start (avvia_avviato trivial (by decide +kernel)))
  have avvio := bassaInit_avvio nucleoScoperto infoScoperta (fun _ => 0) (by decide +kernel)
  have bitmap := contato.bitmap
  exact avvio.freePages_ne (by decide +kernel) bitmap

end Sistema

end ExOs.Mm
