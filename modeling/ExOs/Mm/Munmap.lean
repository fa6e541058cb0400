import ExOs.Mm.Pmm

/-!
# Unmapping

`sys_munmap` of `kernel/syscall/syscall_impl.c`, as built for 64 bits: the
pages of the range are given back one after the other, at addresses that wrap
at 4 GB.
-/

namespace ExOs.Mm

open Function

def userSpaceEnd : Nat := 0xFFFF0000

/-- An entry of a page table: not present, perhaps with a mark, or a page. -/
inductive Pte where
  | assente
  | segnata
  | presente (phys : Nat)
deriving DecidableEq

/-- What `sys_munmap` reads and writes: the entries of the process by page
number, the page allocator and the bounds of its heap. -/
structure Spazio where
  pte : Nat → Pte
  pmm : Pmm
  heapStart : Nat
  heapEnd : Nat

inductive Risposta where
  | einval
  | fatto
deriving DecidableEq

namespace Spazio

def pagingGetPhysical (s : Spazio) (va : Nat) : Nat :=
  match s.pte (va / pageSize) with
  | .presente phys => phys
  | _ => 0

def pagingUnmapPage (s : Spazio) (va : Nat) : Spazio :=
  { s with pte := update s.pte (va / pageSize) .assente }

/-- One turn of the loop. -/
def smonta (s : Spazio) (va : Nat) : Spazio :=
  let phys := s.pagingGetPhysical va
  (if phys ≠ 0 then { s with pmm := s.pmm.freePage phys } else s).pagingUnmapPage va

/-- `addr & 0xFFFFF000`. -/
def inizio (a1 : UInt32) : Nat := a1.toNat / pageSize * pageSize

/-- `ALIGN_UP(length, PAGE_SIZE) / PAGE_SIZE`. -/
def pagine (a2 : UInt32) : Nat := (a2.toNat + (pageSize - 1)) % 2 ^ 32 / pageSize

def sysMunmap (s : Spazio) (a1 a2 : UInt32) : Risposta × Spazio :=
  let addr := inizio a1
  if addr < userSpaceBase ∨ userSpaceEnd ≤ addr then (.einval, s)
  else if a2 = 0 then (.einval, s)
  else
    let s₁ := ((List.range (pagine a2)).map fun i => (addr + i * pageSize) % 2 ^ 32).foldl smonta s
    if (addr + pagine a2 * pageSize) % 2 ^ 32 = s₁.heapEnd ∧ s₁.heapStart ≤ addr then
      (.fatto, { s₁ with heapEnd := addr })
    else (.fatto, s₁)

/-- Where the pages of the range `[a1, a1 + a2)` end, without a wrap. -/
def fine (a1 a2 : UInt32) : Nat := (a1.toNat + a2.toNat + (pageSize - 1)) / pageSize * pageSize

/-- Only pages of user space that meet the range are unmapped and freed, and a
range that leaves user space is refused. -/
structure Confinata (s : Spazio) (a1 a2 : UInt32) : Prop where
  entro : ∃ l : List Nat,
    (∀ va ∈ l, userSpaceBase ≤ va ∧ va < userSpaceEnd ∧ inizio a1 ≤ va ∧ va < fine a1 a2) ∧
      (s.sysMunmap a1 a2).2.pte = (l.foldl smonta s).pte ∧
      (s.sysMunmap a1 a2).2.pmm = (l.foldl smonta s).pmm
  rifiutata : inizio a1 < userSpaceBase ∨ userSpaceEnd < fine a1 a2 →
    s.sysMunmap a1 a2 = (.einval, s)

variable {s : Spazio} {a1 a2 : UInt32}

theorem sysMunmap_fatto (s : Spazio) (low : userSpaceBase ≤ inizio a1)
    (high : inizio a1 < userSpaceEnd)
    (ne : a2 ≠ 0) :
    (s.sysMunmap a1 a2).1 = .fatto ∧
      (s.sysMunmap a1 a2).2.pte = (((List.range (pagine a2)).map fun i =>
        (inizio a1 + i * pageSize) % 2 ^ 32).foldl smonta s).pte ∧
      (s.sysMunmap a1 a2).2.pmm = (((List.range (pagine a2)).map fun i =>
        (inizio a1 + i * pageSize) % 2 ^ 32).foldl smonta s).pmm := by
  unfold sysMunmap
  dsimp only
  rw [if_neg (by omega), if_neg ne]
  split <;> exact ⟨rfl, rfl, rfl⟩

theorem Confinata.nulla (refused : s.sysMunmap a1 a2 = (.einval, s)) : Confinata s a1 a2 :=
  ⟨⟨[], by simp, by rw [refused]; rfl, by rw [refused]; rfl⟩, fun _ => refused⟩

theorem confinata_iff (s : Spazio) (a1 a2 : UInt32) : Confinata s a1 a2 ↔
    inizio a1 < userSpaceBase ∨ userSpaceEnd ≤ inizio a1 ∨ a2 = 0 ∨ fine a1 a2 ≤ userSpaceEnd := by
  constructor
  · intro confinata
    by_contra bad
    push Not at bad
    obtain ⟨low, high, ne, leaves⟩ := bad
    have done := (sysMunmap_fatto s low high ne).1
    rw [confinata.rifiutata (Or.inr leaves)] at done
    cases done
  · intro good
    by_cases out : inizio a1 < userSpaceBase ∨ userSpaceEnd ≤ inizio a1
    · exact Confinata.nulla (if_pos out)
    by_cases absent : a2 = 0
    · exact Confinata.nulla (by simp only [sysMunmap]; rw [if_neg out, if_pos absent])
    have low : userSpaceBase ≤ inizio a1 := by omega
    have high : inizio a1 < userSpaceEnd := by omega
    have le : fine a1 a2 ≤ userSpaceEnd := by tauto
    obtain ⟨_, pte, pmm⟩ := sysMunmap_fatto s low high absent
    refine ⟨⟨_, fun va mem => ?_, pte, pmm⟩, fun leaves => by omega⟩
    obtain ⟨i, small, isVa⟩ := List.mem_map.mp mem
    -- The range ends in user space, so neither the rounding nor an address wraps.
    have few := List.mem_range.mp small
    unfold inizio pagine fine pageSize userSpaceEnd userSpaceBase at *
    omega

/-- The kernel's own first two pages, mapped onto themselves. -/
def nucleo : Spazio :=
  { pte := fun page => if page < 2 then .presente (page * pageSize) else .assente
    pmm :=
      { mem := fun _ => 255, totalPages := 2, freePages := 0, usedPages := 2, bitmapSize := 1,
        lastAlloc := 0, lastAllocK := 0,
        oltre := { slot := fun _ => .vuoto, posti := 0, usati := 0 },
        alta := false, altaMem := fun _ => 0, altaRif := false, altaRifMem := fun _ => 0,
        altaPagine := 0, altaLibere := 0, altaCursore := 0 }
    heapStart := userSpaceBase
    heapEnd := userSpaceBase }

/-- Nineteen pages from `0xFFFEF000` on end in the kernel's second one. -/
theorem nucleo_smontato : (nucleo.sysMunmap 0xFFFEF000 0x13000).1 = .fatto ∧
    (nucleo.sysMunmap 0xFFFEF000 0x13000).2.pte 1 = .assente ∧
    ¬ Confinata nucleo 0xFFFEF000 0x13000 := by
  have done : (nucleo.sysMunmap 0xFFFEF000 0x13000).1 = .fatto := by decide +kernel
  refine ⟨done, by decide +kernel, fun confinata => ?_⟩
  rw [confinata.rifiutata (by decide)] at done
  nomatch done

end Spazio

end ExOs.Mm
