import ExOs.Library.Runs
import ExOs.Mm.HeapSafety

/-!
# Runs of the kernel heap

On a coherent heap the walks of the allocator end and find what they look for,
so `kmalloc` and `kfree` return and keep it coherent; but for a request whose
run of pages is too short for its headers: `Capiente` says when it is not.
-/

namespace ExOs.Mm.Kmalloc

open ExOs.Library List Function

variable {regioni libere : List Nat} {r b : Nat} {blocchi : Nat → List Nat} {h : Heap}
  {vive : List (Nat × Nat)} {s : Stato} {sospeso : Option Nat} {size : Nat} {h' : Heap}

theorem primaRegione_eq {prova : Nat → Bool} : ∀ {fuel head : Nat},
      Chain (fun r => (h.regione r).next) head regioni → regioni.length < fuel →
      primaRegione h prova fuel head = .ok ((regioni.find? prova).getD 0) := by
  induction regioni with
  | nil =>
    intro fuel head chain enough
    have null : head = 0 := chain
    cases fuel with
    | zero => simp at enough
    | succ fuel => simp [primaRegione, null]
  | cons r rest ih =>
    intro fuel head chain enough
    obtain ⟨atHead, ne, tail⟩ := chain
    cases fuel with
    | zero => simp at enough
    | succ fuel =>
      subst atHead
      rw [primaRegione, if_neg ne]
      by_cases passes : prova head
      · rw [if_pos passes, List.find?_cons_of_pos passes]
        rfl
      rw [if_neg passes, List.find?_cons_of_neg passes]
      apply ih tail
      simp only [length_cons] at enough
      omega

theorem cerca_eq {aligned : Nat} : ∀ {fuel head : Nat},
      Chain (fun b => (h.blocco b).next) head libere →
      (∀ b ∈ libere, blockValid h b = true ∧ (h.blocco b).flags = .libero) → libere.length < fuel →
      cerca h aligned fuel head =
        .ok ((libere.find? fun b => aligned ≤ (h.blocco b).size).getD 0) := by
  induction libere with
  | nil =>
    intro fuel head chain _ enough
    have null : head = 0 := chain
    cases fuel with
    | zero => simp at enough
    | succ fuel => simp [cerca, null]
  | cons b rest ih =>
    intro fuel head chain sound enough
    obtain ⟨atHead, ne, tail⟩ := chain
    cases fuel with
    | zero => simp at enough
    | succ fuel =>
      subst atHead
      obtain ⟨valid, free⟩ := sound head (mem_cons_self)
      rw [cerca, if_neg ne, if_neg (by simp [valid])]
      by_cases fits : aligned ≤ (h.blocco head).size
      · rw [if_pos ⟨free, fits⟩, List.find?_cons_of_pos (by simp [fits])]
        rfl
      rw [if_neg (fun both => fits both.2), List.find?_cons_of_neg (by simp [fits])]
      apply ih tail
      · intro other mem
        exact sound other (mem_cons_of_mem head mem)
      · simp only [length_cons] at enough
        omega

theorem Forma.prevPhys_eq {after pre : List Nat}
    (forma : Forma h regioni blocchi) (reg : r ∈ regioni) :
    ∀ {fuel scan : Nat}, Tiles (lunghezza h) scan (h.regione r).fine (pre ++ b :: after) →
      (∀ x ∈ pre, x ∈ blocchi r) → pre.length < fuel →
      prevPhys h r b fuel scan = .ok (pre.getLastD 0) := by
  have finite := forma.fine_lt reg
  induction pre with
  | nil =>
    intro fuel scan tiling _ enough
    have atB : scan = b := tiling.1
    cases fuel with
    | zero => simp at enough
    | succ fuel =>
      rw [prevPhys, if_pos (Nat.le_of_eq atB.symm)]
      rfl
  | cons x rest ih =>
    intro fuel scan tiling inside enough
    obtain ⟨atX, tail⟩ := tiling
    subst atX
    have xMem := inside scan (mem_cons_self)
    have xBounds := forma.estremi reg xMem
    have nextEq : blockNextPhys h scan = scan + lunghezza h scan := by
      rw [blockNextPhys, parola32_of_lt (by omega), lunghezza]
      omega
    have advances : scan < scan + lunghezza h scan := by
      simp only [lunghezza, blockHeaderSize]
      omega
    have beforeB : scan + lunghezza h scan ≤ b := (tail.mem_bounds (by simp)).1
    cases fuel with
    | zero => simp at enough
    | succ fuel =>
      rw [prevPhys, if_neg (by omega), if_neg (by simp [forma.dentroRegione_true reg xMem]),
        if_neg (by simp [forma.blockValid_true ⟨r, reg, xMem⟩]), nextEq]
      cases rest with
      | nil =>
        have reaches : scan + lunghezza h scan = b := tail.1
        rw [if_pos reaches]
        rfl
      | cons y more =>
        have atY : scan + lunghezza h scan = y := tail.1
        have yBefore : y < b := by
          have later := (tail.2.mem_bounds (show b ∈ more ++ b :: after by simp)).1
          simp only [lunghezza, blockHeaderSize] at *
          omega
        rw [if_neg (by omega), if_neg (by omega)]
        rw [ih tail (fun z mem => inside z (mem_cons_of_mem scan mem)) (by
            simp only [length_cons] at enough ⊢
            omega)]
        rfl

/-! ## Growth -/

def InListaRegioni (h : Heap) (r : Nat) : Prop := OnList (fun r => (h.regione r).next) h.regioni r

def InListaLibera (h : Heap) (b : Nat) : Prop := OnList (fun b => (h.blocco b).next) h.freeList b

/-- Whether a run of pages begins where a region of the heap ends. -/
def Attaccata (h : Heap) (virt : Nat) : Prop := ∃ r, InListaRegioni h r ∧ (h.regione r).fine = virt

/-- What the physical memory manager promises of a run of pages: aligned,
inside the address space, and in no region of the heap. -/
structure Promessa (h : Heap) (pages virt : Nat) : Prop where
  nonNulla : virt ≠ 0
  allineata : virt % pageSize = 0
  finita : virt + pages * pageSize < 2 ^ 32
  disgiunta : ∀ r, InListaRegioni h r → virt + pages * pageSize ≤ r ∨ (h.regione r).fine ≤ virt

namespace Coerente

variable {h : Heap} {regioni libere : List Nat} {blocchi : Nat → List Nat}
  {vive : List (Nat × Nat)} {sospeso : Option Nat}

section

variable (inv : Coerente h regioni blocchi libere vive sospeso)

include inv

theorem inListaRegioni_iff : InListaRegioni h r ↔ r ∈ regioni := inv.forma.catena.onList_iff

theorem inListaLibera_iff : InListaLibera h b ↔ b ∈ libere := inv.lista.legata.chain.onList_iff

theorem regioni_length : regioni.length < indirizzi := by
  have forma := inv.forma
  refine length_lt_of_addresses ?_ (by decide) ?_
  · refine forma.separate.imp_of_mem ?_
    intro r s fst _ apart equal
    have nonEmpty := forma.regione_lt_fine fst
    rw [← equal] at apart
    omega
  · intro r mem
    have nonEmpty := forma.regione_lt_fine mem
    have finite := forma.fine_lt mem
    exact ⟨forma.catena.ne_zero r mem, by rw [indirizzi]; omega⟩

theorem libere_length : libere.length < indirizzi := by
  refine length_lt_of_addresses inv.lista.nodup (by decide) ?_
  intro b mem
  obtain ⟨block, _, _⟩ := (inv.esatta b).mp mem
  refine ⟨inv.forma.blocco_ne_zero block, ?_⟩
  obtain ⟨r, reg, inRegion⟩ := block
  have bounds := inv.forma.blocco_entro reg inRegion
  have finite := inv.forma.fine_lt reg
  rw [indirizzi]
  omega

theorem regioneAttaccata_eq {virt : Nat} :
    regioneAttaccata h virt = .ok ((regioni.find? fun r => (h.regione r).fine = virt).getD 0) :=
  primaRegione_eq inv.forma.catena inv.regioni_length

end

theorem nuovoBlocco {regioni' : List Nat} {blocchi' : Nat → List Nat}
    (inv : Coerente h regioni blocchi libere vive none) (forma : Forma h' regioni' blocchi')
    (members : ∀ x, Appartiene regioni' blocchi' x ↔ Appartiene regioni blocchi x ∨ x = b)
    (fresh : ¬ Appartiene regioni blocchi b) (sameHead : h'.freeList = h.freeList)
    (same : ∀ x, x ≠ b → h'.blocco x = h.blocco x) (free : (h'.blocco b).flags = .libero) :
    Coerente h' regioni' blocchi' libere vive (some b) := by
  have notListed : b ∉ libere := fun listed =>
    fresh ((inv.esatta b).mp listed).1
  refine
    { forma := forma, lista := ?_, esatta := ?_, sospesa := ?_, allocate := ?_,
      distinte := inv.distinte }
  · refine inv.lista.congr sameHead ?_
    intro x listed
    rw [same x (fun equal => notListed (equal ▸ listed))]
    exact ⟨rfl, rfl⟩
  · intro x
    rw [members x]
    by_cases isB : x = b
    · simp [isB, notListed]
    have ne : some b ≠ some x := fun equal =>
      isB (Option.some.inj equal).symm
    rw [inv.esatta x, same x isB]
    simp [isB, ne]
  · intro x equal
    rw [← Option.some.inj equal, members b]
    exact ⟨Or.inr rfl, free⟩
  · intro v alive
    obtain ⟨x, atX, inRegion, used, long⟩ := inv.allocate v alive
    have notB : x ≠ b := fun equal => fresh (equal ▸ inRegion)
    refine ⟨x, atX, (members x).mpr (Or.inl inRegion), ?_, ?_⟩
    · rw [same x notB]
      exact used
    · rw [same x notB]
      exact long

section Espansione

variable {virt bytes : Nat}

variable (inv : Coerente h regioni blocchi libere vive none)

include inv

theorem allungaRegione (reg : r ∈ regioni) (atEnd : (h.regione r).fine = virt)
    (apart : ∀ s ∈ regioni, virt + bytes ≤ s ∨ (h.regione s).fine ≤ virt)
    (long : 36 ≤ bytes) (room : virt + bytes + pageSize ≤ 2 ^ 32) :
    Coerente (allungaRegione h r virt bytes) regioni
        (update blocchi r (blocchi r ++ [virt])) libere vive (some virt) ∧
      blockHeaderSize + ((Kmalloc.allungaRegione h r virt bytes).blocco virt).size = bytes := by
  have small : virt + bytes < 2 ^ 32 := by
    simp only [pageSize] at room
    omega
  have endEq : parola32 (virt + bytes) = virt + bytes := parola32_of_lt small
  have sizeEq : meno32 bytes blockHeaderSize = bytes - blockHeaderSize := by
    apply meno32_of_le (by omega)
    simp only [blockHeaderSize]
    omega
  set h' := Kmalloc.allungaRegione h r virt bytes
  have written : h'.blocco virt = { h.blocco virt with
      size := meno32 bytes blockHeaderSize, magic := heapMagic, flags := .libero,
      prev := 0, next := 0 } := if_pos rfl
  have size : blockHeaderSize + (h'.blocco virt).size = bytes := by
    rw [written, sizeEq]
    simp only [blockHeaderSize]
    omega
  have same : ∀ x, x ≠ virt → h'.blocco x = h.blocco x := fun x ne => if_neg ne
  have atRegion : h'.regione r = { h.regione r with fine := parola32 (virt + bytes) } := if_pos rfl
  have elsewhere : ∀ s, s ≠ r → h'.regione s = h.regione s := fun s ne => if_neg ne
  have longer : Forma h' regioni (update blocchi r (blocchi r ++ [virt])) := by
    apply inv.forma.allunga reg atEnd apart (by omega) room
    · rfl
    · intro s
      by_cases isR : s = r
      · rw [isR, atRegion]
      · rw [elsewhere s isR]
    · intro s ne
      rw [elsewhere s ne]
    · rw [atRegion, endEq]
    · exact size
    · rw [written]
    · exact fun x ne => .of_eq (same x ne)
  refine ⟨?_, size⟩
  apply inv.nuovoBlocco longer (Forma.appartiene_allunga reg)
  · exact inv.forma.non_appartiene_fuori apart ⟨Nat.le_refl virt, by omega⟩
  · rfl
  · exact same
  · rw [written]

theorem nuovaRegione (nonzero : virt ≠ 0)
    (apart : ∀ s ∈ regioni, virt + bytes ≤ s ∨ (h.regione s).fine ≤ virt)
    (long : 36 ≤ bytes) (room : virt + bytes + pageSize ≤ 2 ^ 32) :
    regionePrimo virt = virt + regionHeaderSize ∧
      Coerente (nuovaRegione h virt bytes) (virt :: regioni)
        (update blocchi virt [virt + regionHeaderSize]) libere vive
        (some (virt + regionHeaderSize)) ∧
      regionHeaderSize + (blockHeaderSize + ((Kmalloc.nuovaRegione h virt bytes).blocco
          (virt + regionHeaderSize)).size) = bytes := by
  have small : virt + bytes < 2 ^ 32 := by
    simp only [pageSize] at room
    omega
  have endEq : parola32 (virt + bytes) = virt + bytes := parola32_of_lt small
  have firstEq : regionePrimo virt = virt + regionHeaderSize := by
    apply parola32_of_lt
    simp only [regionHeaderSize]
    omega
  have sizeEq : meno32 (meno32 bytes regionHeaderSize) blockHeaderSize =
        bytes - regionHeaderSize - blockHeaderSize := by
    simp only [regionHeaderSize, blockHeaderSize]
    rw [meno32_of_le (a := bytes) (by omega) (by omega), meno32_of_le (by omega) (by omega)]
  set b := virt + regionHeaderSize with atB
  set h' := Kmalloc.nuovaRegione h virt bytes
  have written : ∃ chiesti, h'.blocco b = {
      size := meno32 (meno32 bytes regionHeaderSize) blockHeaderSize, magic := heapMagic,
      flags := .libero, prev := 0, next := 0, chiesti := chiesti } := ⟨_, if_pos firstEq.symm⟩
  obtain ⟨_, written⟩ := written
  have size : regionHeaderSize + (blockHeaderSize + (h'.blocco b).size) = bytes := by
    rw [written, sizeEq]
    simp only [regionHeaderSize, blockHeaderSize]
    omega
  have same : ∀ x, x ≠ b → h'.blocco x = h.blocco x := fun x ne => if_neg (firstEq ▸ ne)
  have atRegion : h'.regione virt = { next := h.regioni, fine := parola32 (virt + bytes) } :=
    if_pos rfl
  have grown : Forma h' (virt :: regioni) (update blocchi virt [b]) := by
    apply inv.forma.nuova nonzero apart room
    · rfl
    · rw [atRegion]
    · rw [atRegion, endEq]
    · exact fun s ne => if_neg ne
    · exact size
    · rw [written]
    · exact fun x ne => .of_eq (same x ne)
  have notRegion : virt ∉ regioni := by
    intro mem
    have away := apart virt mem
    have nonEmpty := inv.forma.regione_lt_fine mem
    omega
  refine ⟨firstEq, ?_, size⟩
  apply inv.nuovoBlocco grown (Forma.appartiene_nuova notRegion)
  · apply inv.forma.non_appartiene_fuori apart
    simp only [regionHeaderSize]
    omega
  · rfl
  · exact same
  · rw [written]

end Espansione

/-- `heap_expand` with a run of pages gives a suspended block that fills it,
but for the header of a region when it starts one. -/
theorem heapExpand_some {pages virt : Nat} (inv : Coerente h regioni blocchi libere vive none)
    (promessa : Promessa h pages virt) (pos : 0 < pages) :
    ∃ h' b regioni' blocchi', heapExpand h pages (some virt) = .ok (h', b) ∧
        Coerente h' regioni' blocchi' libere vive (some b) ∧ (Attaccata h virt →
            blockHeaderSize + (h'.blocco b).size = pages * pageSize) ∧
          (¬ Attaccata h virt → regionHeaderSize + (blockHeaderSize + (h'.blocco b).size) =
              pages * pageSize) := by
  have large : pageSize ≤ pages * pageSize := Nat.le_mul_of_pos_left _ pos
  have room : virt + pages * pageSize + pageSize ≤ 2 ^ 32 := by
    have aligned := promessa.allineata
    have small := promessa.finita
    simp only [pageSize] at *
    omega
  have apart : ∀ s ∈ regioni, virt + pages * pageSize ≤ s ∨ (h.regione s).fine ≤ virt := by
    intro s mem
    exact promessa.disgiunta s (inv.inListaRegioni_iff.mpr mem)
  have sizeEq : parola32 (pages * pageSize) = pages * pageSize := by
    apply parola32_of_lt
    have small := promessa.finita
    omega
  have long : 36 ≤ pages * pageSize := by
    refine Nat.le_trans ?_ large
    decide
  have expanded : heapExpand h pages (some virt) =
      if (regioni.find? fun r => (h.regione r).fine = virt).getD 0 ≠ 0 then
        .ok (Kmalloc.allungaRegione h
          ((regioni.find? fun r => (h.regione r).fine = virt).getD 0) virt (pages * pageSize), virt)
      else .ok (Kmalloc.nuovaRegione h virt (pages * pageSize), regionePrimo virt) := by
    simp only [heapExpand, inv.regioneAttaccata_eq, sizeEq]
    rfl
  rw [expanded]
  cases found : regioni.find? fun r => (h.regione r).fine = virt with
  | some r =>
    have reg : r ∈ regioni := mem_of_find?_eq_some found
    have atEnd : (h.regione r).fine = virt := by simpa using List.find?_some found
    have ne : r ≠ 0 := inv.forma.catena.ne_zero r reg
    have attached : Attaccata h virt := ⟨r, inv.inListaRegioni_iff.mpr reg, atEnd⟩
    obtain ⟨grown, size⟩ := inv.allungaRegione reg atEnd apart long room
    rw [Option.getD_some, if_pos ne]
    exact ⟨_, _, _, _, rfl, grown, fun _ => size, fun detached => absurd attached detached⟩
  | none =>
    have detached : ¬ Attaccata h virt := by
      intro attached
      obtain ⟨r, listed, atEnd⟩ := attached
      have reg := inv.inListaRegioni_iff.mp listed
      have fails := List.find?_eq_none.mp found r reg
      simp [atEnd] at fails
    obtain ⟨fst, grown, size⟩ := inv.nuovaRegione promessa.nonNulla apart long room
    rw [fst]
    exact ⟨_, _, _, _, rfl, grown, fun attached => absurd attached detached, fun _ => size⟩

end Coerente

/-! ## Calls -/

def Sano (h : Heap) (vive : List (Nat × Nat)) : Prop :=
  ∃ regioni blocchi libere, Coerente h regioni blocchi libere vive none

/-- When a request is served without overrunning its block: rounding the size
does not wrap, and a run of pages that has to be asked for also holds the
headers that go into it. -/
def Capiente (h : Heap) (size : Nat) (pagine : Option Nat) : Prop :=
  size + 11 < 2 ^ 32 ∧
    ∀ virt, pagine = some virt →
      (∀ b, InListaLibera h b → (h.blocco b).size < alignedSize size) →
        blockHeaderSize + alignedSize size ≤ pagesNeeded (alignedSize size) * pageSize ∧
          (¬ Attaccata h virt → regionHeaderSize + (blockHeaderSize + alignedSize size) ≤
              pagesNeeded (alignedSize size) * pageSize)

theorem le_alignedSize (small : size + 11 < 2 ^ 32) : size + 4 ≤ alignedSize size := by
  have rounded : heapAlign (parola32 (parola32 size + 4)) = (size + 11) / 8 * 8 := by
    simp only [heapAlign, parola32]
    omega
  unfold alignedSize
  dsimp only
  split
  · omega
  · omega

theorem pagesNeeded_pos {aligned : Nat} : 0 < pagesNeeded aligned := by
  simp only [pagesNeeded]
  split <;> omega

theorem Coerente.parola32_payload (inv : Coerente h regioni blocchi libere vive sospeso)
    (block : Appartiene regioni blocchi b) :
    parola32 (b + blockHeaderSize) = b + blockHeaderSize := by
  obtain ⟨r, reg, mem⟩ := block
  have bounds := inv.forma.estremi reg mem
  have finite := inv.forma.fine_lt reg
  apply parola32_of_lt
  omega

theorem Coerente.regioneDi_eq (inv : Coerente h regioni blocchi libere vive sospeso)
    (reg : r ∈ regioni) (mem : b ∈ blocchi r) :
    regioneDi h b = .ok r := by
  have inside := inv.forma.blocco_entro reg mem
  unfold regioneDi
  rw [primaRegione_eq inv.forma.catena inv.regioni_length]
  cases found : regioni.find? fun r => decide (r ≤ b) && decide (b < (h.regione r).fine) with
  | none =>
    have fails := List.find?_eq_none.mp found r reg
    simp [inside] at fails
  | some s =>
    have other : s ∈ regioni := mem_of_find?_eq_some found
    have passes : s ≤ b ∧ b < (h.regione s).fine := by simpa using List.find?_some found
    rw [Option.getD_some, inv.forma.regione_unica other reg passes inside]

theorem Forma.prevPhys_regione {pre after : List Nat}
    (forma : Forma h regioni blocchi) (reg : r ∈ regioni) (shape : blocchi r = pre ++ b :: after) :
    prevPhys h r b indirizzi (regionePrimo r) = .ok (pre.getLastD 0) := by
  have inBefore : ∀ x ∈ pre, x ∈ blocchi r := by
    intro x mem
    rw [shape]
    exact mem_append_left _ mem
  have tiling := forma.tessere r reg
  rw [shape] at tiling
  rw [forma.regionePrimo_eq reg]
  apply forma.prevPhys_eq reg tiling inBefore
  refine length_lt_of_addresses ?_ (by decide) ?_
  · have nodup := forma.blocchi_nodup reg
    rw [shape] at nodup
    exact (nodup_append.mp nodup).1
  · intro x mem
    have bounds := forma.blocco_entro reg (inBefore x mem)
    have finite := forma.fine_lt reg
    exact ⟨forma.blocco_ne_zero ⟨r, reg, inBefore x mem⟩, by rw [indirizzi]; omega⟩

theorem kfree_eq {p prev : Nat} (ne : p ≠ 0) (backEq : meno32 p blockHeaderSize = b)
    (regionEq : regioneDi h b = .ok r) (region : r ≠ 0)
    (valid : blockValid h b = true) (used : (h.blocco b).flags = .usato)
    (scan : prevPhys (unisciAvanti ((canarinoRotto h b).setFlags b .libero) r b) r b
        indirizzi (regionePrimo r) = .ok prev) :
    kfree h p = .ok (freeListAdd (unisciIndietro
          (unisciAvanti ((canarinoRotto h b).setFlags b .libero) r b) prev b).1
        (unisciIndietro (unisciAvanti ((canarinoRotto h b).setFlags b .libero) r b) prev b).2) := by
  unfold kfree
  rw [if_neg ne, backEq]
  simp only [regionEq, bind, Except.bind]
  rw [if_neg region, if_neg (by simp [valid]), if_neg (by simp [used])]
  simp only [scan]
  rfl

theorem fusione_congr {vicino : Option Nat}
    (same : ∀ x ∈ vicino, (h'.blocco x).flags = (h.blocco x).flags) :
    fusione h' vicino = fusione h vicino := by
  cases vicino with
  | none => rfl
  | some x => simp [fusione, same x rfl]

section

variable (inv : Coerente h regioni blocchi libere vive none)

include inv

theorem Coerente.cerca (aligned : Nat) : cerca h aligned indirizzi h.freeList =
      .ok ((libere.find? fun b => aligned ≤ (h.blocco b).size).getD 0) :=
  cerca_eq inv.lista.legata.chain (fun b listed =>
      have free := (inv.esatta b).mp listed
      ⟨inv.forma.blockValid_true free.1, free.2.1⟩)
    inv.libere_length

/-- A request served from the free list. -/
theorem Coerente.kmalloc_trovato (pagine : Option Nat) (ne : size ≠ 0)
    (found : (libere.find? fun b => alignedSize size ≤ (h.blocco b).size) = some b) :
    kmalloc h size pagine =
      .ok (Kmalloc.assegna h b (alignedSize size) size, b + blockHeaderSize) := by
  have block := ((inv.esatta b).mp (mem_of_find?_eq_some found)).1
  rw [kmalloc, if_neg ne, ← inv.parola32_payload block]
  simp [inv.cerca, found, bind, Except.bind, inv.forma.blocco_ne_zero block]
  rfl

/-- The three stages of `kfree` on a live block, which goes through them
suspended; the last one puts it back on the free list. -/
theorem Coerente.kfree {pre after : List Nat} (reg : r ∈ regioni)
    (shape : blocchi r = pre ++ b :: after) (used : (h.blocco b).flags = .usato) :
    ∃ h' front after' libere' c, kfree h (b + blockHeaderSize) = .ok (freeListAdd h' c) ∧
      Coerente h' regioni (update blocchi r (front ++ c :: after')) libere'
        (vive.filter fun v => v.1 ≠ b + blockHeaderSize) (some c) ∧
      Coalescenza ((canarinoRotto h b).setFlags b .libero) h' libere libere' b c
        (fusione h after.head? + fusione h pre.getLast?) ∧
      (∀ x ∈ blocchi r, (h.blocco x).flags = .usato → x ≠ b → x ∈ front ++ c :: after') ∧
      (Separati h pre → Separati h' front ∧ ∀ x ∈ front.getLast?, (h'.blocco x).flags = .usato) ∧
      (Separati h after → Separati h' after' ∧
        ∀ y ∈ after'.head?, (h'.blocco y).flags = .usato) := by
  have mem : b ∈ blocchi r := by simp [shape]
  have valid := inv.forma.blockValid_true ⟨r, reg, mem⟩
  have bounds := inv.forma.estremi reg mem
  have finite := inv.forma.fine_lt reg
  have nodup := inv.forma.blocchi_nodup reg
  rw [shape, nodup_append, nodup_cons] at nodup
  have rNonNull := inv.forma.catena.ne_zero r reg
  have backEq : meno32 (b + blockHeaderSize) blockHeaderSize = b := by
    rw [meno32_of_le (by omega) (by omega)]
    omega
  have released := inv.rilascia ⟨r, reg, mem⟩ used
  set h₁ := (canarinoRotto h b).setFlags b .libero with atRelease
  have same : ∀ x, x ≠ b → (h₁.blocco x).flags = (h.blocco x).flags := by
    intro x ne
    simp [atRelease, Heap.setFlags, Heap.setBlocco, ne, canarinoRotto_blocco]
  have samePre : ∀ x ∈ pre, (h₁.blocco x).flags = (h.blocco x).flags := fun x xIn =>
    same x (nodup.2.2 x xIn b (by simp))
  have sameAfter : ∀ x ∈ after, (h₁.blocco x).flags = (h.blocco x).flags := fun x xIn =>
    same x fun equal => nodup.2.1.1 (equal ▸ xIn)
  obtain ⟨after', libere', joined, forward, stayAfter, apartAfter⟩ := released.avanti reg shape
  have shape' : update blocchi r (pre ++ b :: after') r = pre ++ b :: after' := update_self ..
  obtain ⟨front, libere'', whole, backward, stayPre, apartPre⟩ := joined.indietro reg shape'
  have ret := kfree_eq (by simp [blockHeaderSize]) backEq (inv.regioneDi_eq reg mem) rNonNull valid
    used (joined.forma.prevPhys_regione reg shape')
  rw [update_idem] at whole
  rw [fusione_congr fun x _ => forward.flags x,
    fusione_congr fun x xIn => samePre x (mem_of_getLast? xIn)] at backward
  rw [fusione_congr fun x xIn => sameAfter x (mem_of_mem_head? xIn)] at forward
  refine ⟨_, front, after', libere'', _, ret, whole, forward.trans backward,
    fun x xIn live ne => ?_, fun sep => ?_, fun sep => ?_⟩
  · rw [shape] at xIn
    have live' := (same x ne).trans live
    rcases mem_append.mp xIn with left | right
    · exact mem_append_left _ (stayPre x left ((forward.flags x).trans live'))
    · refine mem_append_right _ (mem_cons_of_mem _ (stayAfter x ?_ live'))
      exact (mem_cons.mp right).resolve_left ne
  · obtain ⟨apart, last⟩ :=
      apartPre (sep.congr fun x xIn => (forward.flags x).trans (samePre x xIn))
    exact ⟨apart.congr fun x _ => backward.flags x,
      fun x xIn => (backward.flags x).trans (last x xIn)⟩
  · obtain ⟨apart, next⟩ := apartAfter (sep.congr sameAfter)
    have flags := (forward.trans backward).flags
    exact ⟨apart.congr fun x _ => flags x, fun x xIn => (flags x).trans (next x xIn)⟩

end

theorem Sano.kmalloc {pagine : Option Nat} (sano : Sano h vive)
    (promessa : ∀ virt, pagine = some virt → Promessa h (pagesNeeded (alignedSize size)) virt)
    (capiente : Capiente h size pagine) :
    ∃ h' p, kmalloc h size pagine = .ok (h', p) ∧
      Sano h' (if p = 0 then vive else (p, size) :: vive) := by
  by_cases empty : size = 0
  · exact ⟨h, 0, by simp [Kmalloc.kmalloc, empty]; rfl, by simpa using sano⟩
  obtain ⟨regioni, blocchi, libere, inv⟩ := sano
  have enough := Nat.le_of_add_right_le (le_alignedSize capiente.1)
  cases found : libere.find? fun b => alignedSize size ≤ (h.blocco b).size with
  | some b =>
    have listed : b ∈ libere := mem_of_find?_eq_some found
    have fits : alignedSize size ≤ (h.blocco b).size := by simpa using List.find?_some found
    obtain ⟨blocchi', libere', served, _⟩ := inv.assegna size listed fits enough
    refine ⟨_, _, inv.kmalloc_trovato pagine empty found, ?_⟩
    exact ⟨regioni, blocchi', libere', served⟩
  | none =>
    have noneFits : ∀ b, InListaLibera h b → (h.blocco b).size < alignedSize size := by
      intro b listed
      have fails := List.find?_eq_none.mp found b (inv.inListaLibera_iff.mp listed)
      simpa using fails
    cases pagine with
    | none =>
      refine ⟨h, 0, ?_, ?_⟩
      · simp [Kmalloc.kmalloc, empty, inv.cerca, found, bind, Except.bind, heapExpand]
        rfl
      · simpa using ⟨regioni, blocchi, libere, inv⟩
    | some virt =>
      obtain ⟨h', b, regioni', blocchi', grown, suspended, attached, detached⟩ :=
        inv.heapExpand_some (promessa virt rfl) pagesNeeded_pos
      obtain ⟨roomAttached, roomDetached⟩ := capiente.2 virt rfl noneFits
      have fits : alignedSize size ≤ (h'.blocco b).size := by
        by_cases joined : Attaccata h virt
        · have filled := attached joined
          omega
        · have filled := detached joined
          have room := roomDetached joined
          omega
      have listed := suspended.add
      have sameSize := (freeListAdd_stessiBlocchi h' b).size b
      have block := (suspended.sospesa b rfl).1
      have ne := suspended.forma.blocco_ne_zero block
      obtain ⟨blocchi'', libere', served, _⟩ :=
        listed.assegna size (mem_cons_self) (sameSize.symm ▸ fits) enough
      refine ⟨Kmalloc.assegna (freeListAdd h' b) b (alignedSize size) size,
        b + blockHeaderSize, ?_, ?_⟩
      · rw [← suspended.parola32_payload block]
        simp [Kmalloc.kmalloc, empty, inv.cerca, found, bind, Except.bind, grown, ne]
        rfl
      · exact ⟨regioni', blocchi'', libere', served⟩

theorem Sano.kfree {p : Nat} (sano : Sano h vive) (live : p ∈ vive.map Prod.fst) :
    ∃ h', kfree h p = .ok h' ∧ Sano h' (vive.filter fun v => v.1 ≠ p) := by
  obtain ⟨regioni, blocchi, libere, inv⟩ := sano
  obtain ⟨v, alive, atP⟩ := mem_map.mp live
  obtain ⟨b, atB, ⟨r, reg, mem⟩, used, _⟩ := inv.allocate v alive
  obtain ⟨pre, after, shape⟩ := append_of_mem mem
  obtain ⟨_, _, _, _, _, ret, whole, _⟩ := inv.kfree reg shape used
  rw [← atP.symm.trans atB] at ret whole
  exact ⟨_, ret, regioni, _, _, whole.add⟩

theorem Coerente.vuoto (noList : h.freeList = 0) (noRegion : h.regioni = 0) :
    Coerente h [] (fun _ => []) [] [] none :=
  { forma :=
      { catena := noRegion
        separate := List.Pairwise.nil
        finita := by simp
        tessere := by simp
        firmati := by simp }
    lista := ⟨noList, nodup_nil⟩
    esatta := by simp [Appartiene]
    sospesa := by simp
    allocate := by simp
    distinte := by simp }

theorem kmallocInit_sano {virt : Nat}
    (empty : h.regioni = 0) (promessa : Promessa h heapPagesInitial virt)
    (started : kmallocInit h (some virt) = .ok h') : Sano h' [] := by
  have bare : Coerente { h with freeList := 0 } [] (fun _ => []) [] [] none := .vuoto rfl empty
  have promessa' : Promessa { h with freeList := 0 } heapPagesInitial virt := { promessa with }
  obtain ⟨h₂, b, regioni, blocchi, grown, suspended, _⟩ :=
    bare.heapExpand_some promessa' (by decide)
  have ne := suspended.forma.blocco_ne_zero (suspended.sospesa b rfl).1
  have finished : kmallocInit h (some virt) = .ok (freeListAdd h₂ b) := by
    simp only [kmallocInit, grown, bind, Except.bind]
    rw [if_neg ne]
    rfl
  rw [finished] at started
  rw [← Except.ok.inj started]
  exact ⟨regioni, blocchi, _, suspended.add⟩

/-! ## Runs -/

/-- The heap and the live allocations: payload address and bytes asked for. -/
structure Stato where
  heap : Heap
  vive : List (Nat × Nat)

inductive Op where
  | kmalloc (size : Nat) (pagine : Option Nat)
  | kfree (ptr : Nat)

def passo (s : Stato) : Op → Except Guasto Stato
  | .kmalloc size pagine => do
      let (h, p) ← kmalloc s.heap size pagine
      return ⟨h, if p = 0 then s.vive else (p, size) :: s.vive⟩
  | .kfree p => do
      let h ← kfree s.heap p
      return ⟨h, s.vive.filter fun v => v.1 ≠ p⟩

/-- What the callers and the physical memory manager guarantee of a call. -/
def Ammessa (s : Stato) : Op → Prop
  | .kmalloc size pagine =>
    size < 2 ^ 32 ∧
      ∀ virt, pagine = some virt → Promessa s.heap (pagesNeeded (alignedSize size)) virt
  | .kfree p => p ∈ s.vive.map Prod.fst

/-- The calls that do not meet the short runs of pages. -/
def OpCapiente (s : Stato) : Op → Prop
  | .kmalloc size pagine => Capiente s.heap size pagine
  | .kfree _ => True

/-- The heap as `kmalloc_init` leaves it, over any memory without regions. -/
def Iniziale (s : Stato) : Prop :=
  s.vive = [] ∧ ∃ memoria virt,
    memoria.regioni = 0 ∧ Promessa memoria heapPagesInitial virt ∧
      kmallocInit memoria (some virt) = .ok s.heap

/-- The states reached by admitted calls that also meet `condizione`. -/
def Corsa (condizione : Stato → Op → Prop) : Stato → Prop :=
  Reached Iniziale fun s op s' =>
    Ammessa s op ∧ condizione s op ∧ passo s op = .ok s'

def Stato.dimensione (s : Stato) (p : Nat) : Nat := (s.heap.blocco (p - blockHeaderSize)).size

/-- A safe heap: its regions tiled by their blocks, the free list a doubly
linked list of exactly the free ones, and the live payloads inside regions,
long enough and disjoint. -/
structure Sicuro (s : Stato) (regioni : List Nat) (blocchi : Nat → List Nat)
    (libere : List Nat) : Prop where
  regioniListate : Chain (fun r => (s.heap.regione r).next) s.heap.regioni regioni
  tessere : ∀ r ∈ regioni,
    Tiles (lunghezza s.heap) (regionePrimo r) (s.heap.regione r).fine (blocchi r)
  listaLibera :
    Linked (fun b => (s.heap.blocco b).next) (fun b => (s.heap.blocco b).prev)
      0 s.heap.freeList libere
  senzaRipetizioni : libere.Nodup
  libereEsatte : ∀ b,
    b ∈ libere ↔ (∃ r ∈ regioni, b ∈ blocchi r) ∧ (s.heap.blocco b).flags = .libero
  entro : ∀ v ∈ s.vive, ∃ r ∈ regioni,
    regionePrimo r ≤ v.1 ∧ v.1 + s.dimensione v.1 ≤ (s.heap.regione r).fine
  lunghe : ∀ v ∈ s.vive, v.2 ≤ s.dimensione v.1
  disgiunte : s.vive.Pairwise fun v w =>
    v.1 + s.dimensione v.1 ≤ w.1 ∨ w.1 + s.dimensione w.1 ≤ v.1

theorem Sano.sicuro (sano : Sano s.heap s.vive) :
    ∃ regioni blocchi libere, Sicuro s regioni blocchi libere := by
  obtain ⟨regioni, blocchi, libere, inv⟩ := sano
  have forma := inv.forma
  have payload : ∀ v ∈ s.vive, ∃ b r, v.1 = b + blockHeaderSize ∧ r ∈ regioni ∧ b ∈ blocchi r ∧
        s.dimensione v.1 = (s.heap.blocco b).size ∧ v.2 ≤ (s.heap.blocco b).size := by
    intro v alive
    obtain ⟨b, atB, block, _, long⟩ := inv.allocate v alive
    obtain ⟨r, reg, mem⟩ := block
    refine ⟨b, r, atB, reg, mem, ?_, long⟩
    rw [Stato.dimensione, atB, Nat.add_sub_cancel]
  refine ⟨regioni, blocchi, libere,
    { regioniListate := forma.catena
      tessere := ?_
      listaLibera := inv.lista.legata
      senzaRipetizioni := inv.lista.nodup
      libereEsatte := ?_
      entro := ?_
      lunghe := ?_
      disgiunte := ?_ }⟩
  · intro r reg
    rw [forma.regionePrimo_eq reg]
    exact forma.tessere r reg
  · intro b
    rw [inv.esatta b]
    simp [Appartiene]
  · intro v alive
    obtain ⟨b, r, atB, reg, mem, size, _⟩ := payload v alive
    have bounds := forma.estremi reg mem
    refine ⟨r, reg, ?_, ?_⟩
    · rw [forma.regionePrimo_eq reg]
      omega
    · omega
  · intro v alive
    obtain ⟨b, r, _, _, _, size, long⟩ := payload v alive
    rw [size]
    exact long
  · have ne : s.vive.Pairwise fun v w => v.1 ≠ w.1 := pairwise_map.mp inv.distinte
    refine ne.imp_of_mem ?_
    intro v w vAlive wAlive apart
    obtain ⟨b, r, atB, reg, mem, size, _⟩ := payload v vAlive
    obtain ⟨c, q, atC, regione', member', size', _⟩ := payload w wAlive
    have bBounds := forma.estremi reg mem
    have cBounds := forma.estremi regione' member'
    by_cases sameRegion : r = q
    · subst sameRegion
      have tiles := (forma.tessere r reg).separate mem member'
      simp only [lunghezza] at tiles
      omega
    · have away := forma.regioni_separate reg regione' sameRegion
      omega

theorem passo_sano {op : Op} (sano : Sano s.heap s.vive) (ammessa : Ammessa s op)
    (capiente : OpCapiente s op) :
    ∃ s', passo s op = .ok s' ∧ Sano s'.heap s'.vive := by
  cases op with
  | kmalloc size pagine =>
    obtain ⟨h', p, ret, after⟩ := sano.kmalloc ammessa.2 capiente
    refine ⟨⟨h', if p = 0 then s.vive else (p, size) :: s.vive⟩, ?_, after⟩
    simp [passo, ret]
  | kfree p =>
    obtain ⟨h', ret, after⟩ := sano.kfree ammessa
    refine ⟨⟨h', s.vive.filter fun v => v.1 ≠ p⟩, ?_, after⟩
    simp [passo, ret]

theorem Corsa.sano (corsa : Corsa OpCapiente s) : Sano s.heap s.vive := by
  refine Reached.invariant (fun s => Sano s.heap s.vive) ?_ ?_ corsa
  · intro s iniziale
    obtain ⟨none, memoria, virt, empty, promessa, started⟩ := iniziale
    rw [none]
    exact kmallocInit_sano empty promessa started
  · intro s op s' sano taken
    obtain ⟨ammessa, capiente, ret⟩ := taken
    obtain ⟨after, returned', sano'⟩ := passo_sano sano ammessa capiente
    rw [ret] at returned'
    rw [Except.ok.inj returned']
    exact sano'

/-- Every state of a run whose requests all fit the pages they ask for is
safe, and there every such call returns. -/
theorem corsa_sicura {s : Stato} (corsa : Corsa OpCapiente s) :
    (∃ regioni blocchi libere, Sicuro s regioni blocchi libere) ∧
      ∀ op, Ammessa s op → OpCapiente s op → ∃ s', passo s op = .ok s' := by
  refine ⟨corsa.sano.sicuro, ?_⟩
  intro op ammessa capiente
  obtain ⟨s', ret, _⟩ := passo_sano corsa.sano ammessa capiente
  exact ⟨s', ret⟩

/-! ## A request that overruns its pages -/

/-- The state a call leaves; the state before it, when it does not return. -/
def dopo (s : Stato) (op : Op) : Stato := (passo s op).toOption.getD s

theorem passo_dopo {op : Op} (returns : (passo s op).toOption.isSome = true) :
    passo s op = .ok (dopo s op) := by
  unfold dopo
  cases res : passo s op with
  | ok after => rfl
  | error fault => simp [res, Except.toOption] at returns

/-- The heap right after `kmalloc_init`, with the initial pages at 1 MB. -/
def statoIniziale : Stato := ⟨freeListAdd (nuovaRegione heapVuoto 0x100000 65536) 0x100008, []⟩

theorem statoIniziale_iniziale : Iniziale statoIniziale := by
  refine ⟨rfl, heapVuoto, 0x100000, rfl, ⟨by decide, by decide, by decide, ?_⟩, rfl⟩
  intro r listed
  cases listed with
  | head ne | tail ne _ => exact absurd rfl ne

/-- The first request takes the whole initial region, so the second one needs
new pages: four of them, whose 16384 bytes do not hold 16352 and two headers. -/
def riempie : Op := .kmalloc 65490 none

def sfora : Op := .kmalloc 16348 (some 0x200000)

theorem riempie_ammessa : Ammessa s riempie := ⟨by decide, by simp⟩

theorem sfora_ammessa : Ammessa (dopo statoIniziale riempie) sfora := by
  refine ⟨by decide, ?_⟩
  intro virt answered
  rw [← Option.some.inj answered]
  refine ⟨by decide, by decide, by decide +kernel, ?_⟩
  intro r listed
  -- The only region on the list is the initial one.
  have last : ((dopo statoIniziale riempie).heap.regione 0x100000).next = 0 := by decide +kernel
  have chain : Chain (fun r => ((dopo statoIniziale riempie).heap.regione r).next)
        (dopo statoIniziale riempie).heap.regioni [0x100000] :=
    ⟨by decide +kernel, by decide, last⟩
  have isFirst : r = 0x100000 := by simpa using chain.onList_iff.mp listed
  rw [isFirst]
  decide +kernel

/-- Without the condition the heap breaks: the last block runs past `fine`. -/
theorem corsa_non_sicura : ¬ ∀ s, Corsa (fun _ _ => True) s →
      ∃ regioni blocchi libere, Sicuro s regioni blocchi libere := by
  intro always
  have start : Corsa (fun _ _ => True) statoIniziale := Reached.start statoIniziale_iniziale
  have full : Corsa (fun _ _ => True) (dopo statoIniziale riempie) := Reached.next start
      ⟨riempie_ammessa, trivial, passo_dopo (by decide +kernel)⟩
  have overrun : Corsa (fun _ _ => True) (dopo (dopo statoIniziale riempie) sfora) :=
    Reached.next full ⟨sfora_ammessa, trivial, passo_dopo (by decide +kernel)⟩
  obtain ⟨regioni, blocchi, libere, sicuro⟩ := always _ overrun
  set s := dopo (dopo statoIniziale riempie) sfora with final
  have stop : (s.heap.regione 0x200000).fine = 0x204000 := by
    decide +kernel
  have long : lunghezza s.heap 0x200008 = 16380 := by
    decide +kernel
  have regione : 0x200000 ∈ regioni := by
    apply sicuro.regioniListate.onList_iff.mp
    exact OnList.head (by decide)
  have tiling := sicuro.tessere 0x200000 regione
  cases tiles : blocchi 0x200000 with
  | nil =>
    rw [tiles] at tiling
    have empty : regionePrimo 0x200000 = 0x204000 := tiling
    nomatch empty
  | cons b rest =>
    rw [tiles] at tiling
    obtain ⟨atFirst, after⟩ := tiling
    rw [← atFirst] at after
    have past := after.start_le_stop
    have fst : regionePrimo 0x200000 = 0x200008 := by decide
    rw [fst] at past
    omega

/-- Two blocks are taken and the first is given back. -/
def statoTre : Stato :=
  [.kmalloc 100 none, .kmalloc 100 none, .kfree 0x100024].foldl dopo statoIniziale

theorem corsa_sicura_tre : Corsa OpCapiente statoTre ∧ statoTre.vive = [(0x1000A8, 100)] ∧
    ∃ regioni blocchi libere, Sicuro statoTre regioni blocchi libere := by
  have asked : ∀ {s : Stato}, Ammessa s (.kmalloc 100 none) ∧ OpCapiente s (.kmalloc 100 none) :=
    ⟨⟨by decide, by simp⟩, by decide, by simp⟩
  have due : Corsa OpCapiente
      ([.kmalloc 100 none, .kmalloc 100 none].foldl dopo statoIniziale) :=
    .next (.next (.start statoIniziale_iniziale) ⟨asked.1, asked.2, passo_dopo (by decide +kernel)⟩)
      ⟨asked.1, asked.2, passo_dopo (by decide +kernel)⟩
  have live : 0x100024 ∈ ([.kmalloc 100 none, .kmalloc 100 none].foldl dopo
      statoIniziale).vive.map Prod.fst := by decide +kernel
  have given : Ammessa _ (.kfree 0x100024) := live
  have corsa : Corsa OpCapiente statoTre :=
    due.next ⟨given, trivial, passo_dopo (by decide +kernel)⟩
  exact ⟨corsa, by decide +kernel, (corsa_sicura corsa).1⟩

end ExOs.Mm.Kmalloc
