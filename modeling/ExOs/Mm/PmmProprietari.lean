import ExOs.Mm.PmmOltre

/-!
# Owners of physical pages

The invariant of the page allocator: a ledger of the owners of every page
against the bitmap, the reference bytes and the table, and what each call does
to both.
-/

namespace ExOs.Mm

open ExOs.Library List Function

section Bits

variable {mem : Memoria} {p q : Nat}

theorem bitTest_byte {b : BitVec 8} {bit : Bool} (bits : ∀ i < 8, b.getLsbD i =
      if i = p % 8 then bit else (mem (p / 8)).getLsbD i) :
    bitTest (update mem (p / 8) b) = update (bitTest mem) p bit := by
  funext q
  rw [bitTest, update_apply (bitTest mem)]
  by_cases byte : q / 8 = p / 8
  · have same : q % 8 = p % 8 ↔ q = p := by omega
    rw [byte, update_self, bits _ (Nat.mod_lt q (by decide)), ← byte]
    simp only [same]
    rfl
  · rw [update_of_ne byte, if_neg fun same => byte (congrArg (· / 8) same)]
    rfl

theorem getLsbD_maschera {i : Nat} (small : i < 8) :
    (1#8 <<< (p % 8)).getLsbD i = decide (i = p % 8) := by
  have apart : (p % 8 ≤ i ∧ i - p % 8 = 0) ↔ i = p % 8 := by omega
  simp [small, ← apart, ← Nat.not_le, -not_le]

theorem bitTest_bitSet : bitTest (bitSet mem p) = update (bitTest mem) p true := by
  apply bitTest_byte
  intro i small
  rw [BitVec.getLsbD_or, getLsbD_maschera small]
  split <;> simp [*]

theorem bitTest_bitClr : bitTest (bitClr mem p) = update (bitTest mem) p false := by
  apply bitTest_byte
  intro i small
  rw [BitVec.getLsbD_and, BitVec.getLsbD_not, getLsbD_maschera small]
  split <;> simp [*]

theorem libere_bitSet {n : Nat} (lt : p < n) (free : bitTest mem p = false) :
    countBelow n (fun q => !bitTest mem q) =
      countBelow n (fun q => !bitTest (bitSet mem p) q) + 1 := by
  rw [bitTest_bitSet]
  apply countBelow_mark lt
  · rw [update_self, Bool.not_true]
  · rw [free, Bool.not_false]
  · intro q other
    rw [update_of_ne other]

theorem libere_bitClr {n : Nat} (lt : p < n) (used : bitTest mem p = true) :
    countBelow n (fun q => !bitTest (bitClr mem p) q) =
      countBelow n (fun q => !bitTest mem q) + 1 := by
  rw [bitTest_bitClr]
  apply countBelow_mark lt
  · rw [used, Bool.not_true]
  · rw [update_self, Bool.not_false]
  · intro q other
    rw [update_of_ne other]

theorem bitTest_update {i : Nat} (out : q / 8 ≠ i) (b : BitVec 8) :
    bitTest (update mem i b) q = bitTest mem q := by
  unfold bitTest
  rw [update_of_ne out]

end Bits

/-! ## The invariant -/

theorem Oltre.Sana.fermo {t : Oltre} (sana : t.Sana) (a : Nat) : Oltre.Cambia t t a (t.di a) :=
  ⟨sana, rfl, fun _ _ => rfl⟩

/-- A page, its reference byte and its count in the table, and its owners. -/
def Pagina (usata : Bool) (byte extra owners : Nat) : Prop :=
  if usata then owners = 1 + byte + extra ∧ owners < 2 ^ 32 ∧ (0 < extra → byte = rifMax)
  else byte = 0 ∧ extra = 0 ∧ owners = 0

theorem Pagina.nuova : Pagina true 0 0 1 := ⟨rfl, by omega, fun pos => absurd pos (Nat.lt_irrefl 0)⟩

theorem Pagina.vuota : Pagina false 0 0 0 := ⟨rfl, rfl, rfl⟩

theorem Pagina.iniziale {usata : Bool} : Pagina usata 0 0 (if usata then 1 else 0) := by
  cases usata with
  | true => exact Pagina.nuova
  | false => exact Pagina.vuota

variable {extra owners : Nat} {byte : Nat}

theorem Pagina.usata (page : Pagina true byte extra owners) :
    owners = 1 + byte + extra ∧ owners < 2 ^ 32 ∧ (0 < extra → byte = rifMax) :=
  page

theorem Pagina.libera (page : Pagina false byte extra owners) : byte = 0 ∧ extra = 0 ∧ owners = 0 :=
  page

theorem Pagina.extra_zero (page : Pagina true byte extra owners)
    (notFull : byte ≠ rifMax) : extra = 0 := by
  by_contra more
  exact notFull (page.usata.2.2 (Nat.pos_of_ne_zero more))

namespace Pmm

/-- The reference byte of high page `k`, 0 where there are none. -/
def byteAlto (s : Pmm) (k : Nat) : Nat :=
  if s.altaRif then (s.altaRifMem k).toNat else 0

def altoAddr (k : Nat) : Nat := gb4 + k * pageSize

/-- `owners` counts the owners of every page by its number; page 0 belongs to
nobody and is never given out. -/
structure Sano (s : Pmm) (owners : Nat → Nat) : Prop where
  spazio : s.totalPages ≤ 8 * s.bitmapSize
  sotto : s.totalPages ≤ pmmPagine4Gb
  coda : ∀ p, s.totalPages ≤ p → p < 8 * s.bitmapSize → bitTest s.mem p = true
  hint : s.totalPages = 0 ∨ s.lastAlloc ≤ 8 * s.bitmapSize
  tavola : s.oltre.Sana
  zero : 0 < s.totalPages → bitTest s.mem 0 = true
  basse : ∀ p, p ≠ 0 → p < s.totalPages →
    Pagina (bitTest s.mem p) (s.rif p).toNat (s.oltre.di (pageToAddr p)) (owners p)
  alte : s.alta = true → ∀ k < s.altaPagine,
    Pagina (bitTest s.altaMem k) (s.byteAlto k) (s.oltre.di (altoAddr k))
      (owners (pmmPagine4Gb + k))
  libere : s.freePages = countBelow s.totalPages fun p => !bitTest s.mem p
  cursore : s.altaPagine = 0 ∨ s.alta = true ∧ s.altaCursore < s.altaPagine

variable {s : Pmm} {owners : Nat → Nat} {s' : Pmm} {lastAlloc : Nat} {usata : Bool} {t : Oltre}
  {da : Nat} {libere : Nat} {page : Nat} {giri : Nat}

theorem Sano.conHint (sano : s.Sano owners)
    (hint : s.totalPages = 0 ∨ lastAlloc ≤ 8 * s.bitmapSize) {lastAllocK : Nat} :
    { s with lastAlloc := lastAlloc, lastAllocK := lastAllocK }.Sano owners :=
  { sano with hint := hint }

/-- The owners after `count` pages from `page` on are given out. -/
def assegna (owners : Nat → Nat) (page count : Nat) : Nat → Nat :=
  fun q => if page ≤ q ∧ q < page + count then 1 else owners q

theorem assegna_zero : assegna owners page 0 = owners := by
  funext q
  rw [assegna, if_neg (by omega)]

theorem assegna_succ {page count : Nat} :
    assegna (assegna owners page 1) (page + 1) count = assegna owners page (count + 1) := by
  funext q
  simp only [assegna]
  split
  · rw [if_pos (by omega)]
  · split
    · rw [if_pos (by omega)]
    · rw [if_neg (by omega)]

theorem Sano.short (sano : s.Sano owners) : s.freePages ≤ pmmPagine4Gb := by
  rw [sano.libere]
  exact Nat.le_trans (countBelow_le _ _) sano.sotto

variable {p a count k addr : Nat} {mem : Memoria} {b : BitVec 8} {memoria : Bool}

variable (sano : s.Sano owners)

include sano

theorem Sano.owners_libera (nz : p ≠ 0)
    (lt : p < s.totalPages) (free : bitTest s.mem p = false) : owners p = 0 := by
  have page := sano.basse p nz lt
  rw [free] at page
  exact page.libera.2.2

theorem Sano.notZero (lt : p < s.totalPages) (free : bitTest s.mem p = false) : p ≠ 0 := by
  intro zero
  rw [zero, sano.zero (by omega)] at free
  simp at free

omit sano

/-! ## One page changes -/

theorem altoAddr_eq : altoAddr k = pageToAddr (pmmPagine4Gb + k) := by
  unfold altoAddr pageToAddr gb4 pmmPagine4Gb pageSize
  omega

theorem pageToAddr_inj {q : Nat} (same : pageToAddr p = pageToAddr q) : p = q := by
  unfold pageToAddr pageSize at same
  omega

def conta (owners : Nat → Nat) (page n : Nat) : Nat → Nat := update owners page n

theorem assegna_uno : assegna owners page 1 = conta owners page 1 := by
  funext q
  rw [assegna, conta, update_apply]
  split
  · rw [if_pos (by omega)]
  · rw [if_neg (by omega)]

/-- `s'` is `s` but for page `x`, which the table counts `extra` times. -/
structure Cambiata (s s' : Pmm) (x extra : Nat) : Prop where
  forma : s'.totalPages = s.totalPages ∧ s'.bitmapSize = s.bitmapSize ∧ s'.alta = s.alta ∧
    s'.altaPagine = s.altaPagine ∧ s'.altaCursore = s.altaCursore
  tavola : Oltre.Cambia s.oltre s'.oltre (pageToAddr x) extra
  bit : ∀ q < 8 * s.bitmapSize, (q = x → s.totalPages ≤ q ∨ q = 0) →
    bitTest s'.mem q = bitTest s.mem q
  rif : ∀ q < s.totalPages, q ≠ x → s'.rif q = s.rif q
  alti : ∀ k, pmmPagine4Gb + k ≠ x →
    bitTest s'.altaMem k = bitTest s.altaMem k ∧ s'.byteAlto k = s.byteAlto k

include sano

theorem Sano.cambia {x extra n : Nat} (cambiata : Cambiata s s' x extra)
    (hint : s'.totalPages = 0 ∨ s'.lastAlloc ≤ 8 * s'.bitmapSize)
    (bassa : x ≠ 0 → x < s.totalPages → Pagina (bitTest s'.mem x) (s'.rif x).toNat extra n)
    (alta : ∀ k, x = pmmPagine4Gb + k → s.alta = true → k < s.altaPagine →
      Pagina (bitTest s'.altaMem k) (s'.byteAlto k) extra n)
    (libere : s'.freePages = countBelow s.totalPages fun p => !bitTest s'.mem p) :
    s'.Sano (conta owners x n) := by
  obtain ⟨total, bitmap, isAlta, pagine, cursore⟩ := cambiata.forma
  have spazio := sano.spazio
  have table := cambiata.tavola
  refine ⟨?_, ?_, ?_, hint, table.sana, ?_, ?_, ?_, ?_, ?_⟩
  · rw [total, bitmap]
    exact spazio
  · rw [total]
    exact sano.sotto
  · rw [total, bitmap]
    intro q beyond within
    exact (cambiata.bit q within fun _ => .inl beyond).trans (sano.coda q beyond within)
  · rw [total]
    intro pos
    exact (cambiata.bit 0 (by omega) fun _ => .inr rfl).trans (sano.zero pos)
  · rw [total]
    intro q nz lt
    by_cases same : q = x
    · rw [same, table.qui, conta, update_self]
      exact bassa (same ▸ nz) (same ▸ lt)
    · rw [cambiata.bit q (by omega) fun eq => absurd eq same, cambiata.rif q lt same,
        table.altrove _ fun eq => same (pageToAddr_inj eq), conta, update_of_ne same]
      exact sano.basse q nz lt
  · rw [isAlta, pagine]
    intro hasAlta k lt
    have old := sano.alte hasAlta k lt
    rw [altoAddr_eq] at old ⊢
    by_cases same : pmmPagine4Gb + k = x
    · rw [same, table.qui, conta, update_self]
      exact alta k same.symm hasAlta lt
    · obtain ⟨sameBit, sameByte⟩ := cambiata.alti k same
      rw [sameBit, sameByte, table.altrove _ fun eq => same (pageToAddr_inj eq), conta,
        update_of_ne same]
      exact old
  · rw [total]
    exact libere
  · rw [pagine, isAlta, cursore]
    exact sano.cursore

/-- The bit of a page that nothing counts becomes `usata`. -/
theorem Sano.conBit (lt : p < s.totalPages) (nz : p ≠ 0)
    {freePages usedPages lastAlloc : Nat} (bits : bitTest mem = update (bitTest s.mem) p usata)
    (sameRif : ∀ q, mem (s.bitmapSize + q) = s.rif q) (noByte : (s.rif p).toNat = 0)
    (noExtra : s.oltre.di (pageToAddr p) = 0)
    (hint : s.totalPages = 0 ∨ lastAlloc ≤ 8 * s.bitmapSize)
    (libere : freePages = countBelow s.totalPages fun q => !bitTest mem q) :
    { s with
      mem := mem, freePages := freePages, usedPages := usedPages, lastAlloc := lastAlloc }.Sano
      (conta owners p (if usata then 1 else 0)) := by
  have sotto := sano.sotto
  refine sano.cambia ⟨⟨rfl, rfl, rfl, rfl, rfl⟩, sano.tavola.fermo _, fun q _ kept => ?_,
    fun q _ _ => sameRif q, fun _ _ => ⟨rfl, rfl⟩⟩ hint (fun _ _ => ?_) (fun k isHigh => ?_) libere
  · rw [bits, update_of_ne (by omega)]
  · show Pagina (bitTest mem p) (mem (s.bitmapSize + p)).toNat _ _
    rw [bits, update_self, sameRif, noByte, noExtra]
    exact Pagina.iniziale
  · omega

theorem Sano.prendi (lt : p < s.totalPages)
    (free : bitTest s.mem p = false) : (s.prendi p).Sano (assegna owners p 1) := by
  have spazio := sano.spazio
  have nz := sano.notZero lt free
  have page := sano.basse p nz lt
  rw [free] at page
  obtain ⟨noByte, noExtra, _⟩ := page.libera
  rw [assegna_uno]
  refine sano.conBit lt nz bitTest_bitSet (fun q => update_of_ne (by omega) ..)
    noByte noExtra sano.hint ?_
  have count := libere_bitSet lt free
  have total := sano.libere
  have short := sano.short
  unfold pmmPagine4Gb at short
  rw [meno_eq (by omega) (by omega)]
  omega

omit sano

theorem Sano.prendiTutte (count : Nat) :
    ∀ (s : Pmm) (owners : Nat → Nat) (page : Nat), s.Sano owners → page + count ≤ s.totalPages →
      (∀ q, page ≤ q → q < page + count → bitTest s.mem q = false) →
      (s.prendiTutte page count).Sano (assegna owners page count) := by
  induction count with
  | zero =>
    intro s owners page sano _ _
    rw [assegna_zero]
    exact sano
  | succ count ih =>
    intro s owners page sano le free
    have fst := sano.prendi (p := page) (by omega) (free page (Nat.le_refl page) (by omega))
    have rest := ih (s.prendi page) _ (page + 1) fst
      (by show page + 1 + count ≤ s.totalPages; omega)
      (by
        intro q lower upper
        show bitTest (bitSet s.mem page) q = false
        rw [bitTest_bitSet, update_of_ne (by omega)]
        exact free q (by omega) (by omega))
    rw [assegna_succ] at rest
    exact rest

theorem cerca_eq_some (found : s.cerca da a = some p) : p < a ∧ bitTest s.mem p = false := by
  have mem := mem_of_find?_eq_some found
  have free := List.find?_some found
  rw [mem_range'_1] at mem
  refine ⟨by omega, ?_⟩
  simpa using free

theorem finePezzo_succ (mem : Memoria) {i fine : Nat} (lt : i < fine) : finePezzo mem i fine =
    if bitTest mem i then i else finePezzo mem (i + 1) fine := by
  unfold finePezzo
  rw [show fine - i = fine - (i + 1) + 1 by omega, range'_succ, find?_cons]
  cases bitTest mem i <;> rfl

/-- The stretch from `i` on is free, and a page in use ends it before
`fine`. -/
theorem finePezzo_spec (mem : Memoria) {i fine : Nat} (le : i ≤ fine) :
    i ≤ finePezzo mem i fine ∧ finePezzo mem i fine ≤ fine ∧
      (finePezzo mem i fine < fine → bitTest mem (finePezzo mem i fine) = true) ∧
      ∀ q, i ≤ q → q < finePezzo mem i fine → bitTest mem q = false := by
  induction h : fine - i generalizing i with
  | zero =>
    have stops : finePezzo mem i fine = fine := by
      unfold finePezzo
      rw [h]
      rfl
    rw [stops]
    exact ⟨le, Nat.le_refl _, fun lt => absurd lt (Nat.lt_irrefl _), by omega⟩
  | succ n ih =>
    rw [finePezzo_succ mem (by omega)]
    split
    · next busy => exact ⟨Nat.le_refl i, le, fun _ => busy, by omega⟩
    next clear =>
    obtain ⟨lower, upper, stops, free⟩ := ih (show i + 1 ≤ fine by omega) (by omega)
    refine ⟨by omega, upper, stops, ?_⟩
    intro q above below
    rcases Nat.eq_or_lt_of_le above with same | later
    · rw [← same]
      simpa using clear
    · exact free q later below

theorem contigueDa_eq_some (fits : count ≤ a) (pos : 0 < count) :
    ∀ i, contigueDa mem a count giri i = some p →
      i ≤ p ∧ p + count ≤ a ∧ ∀ q, p ≤ q → q < p + count → bitTest mem q = false := by
  induction giri with
  | zero =>
    intro i found
    simp [contigueDa] at found
  | succ giri ih =>
    intro i found
    rw [contigueDa] at found
    split at found
    · simp at found
    split at found
    · obtain ⟨lower, rest⟩ := ih (i + 1) found
      exact ⟨by omega, rest⟩
    next clear =>
    dsimp only at found
    obtain ⟨lower, _, _, free⟩ :=
      finePezzo_spec mem (show i + 1 ≤ min (i + count) a by omega)
    split at found
    · injection found with isP
      refine ⟨by omega, by omega, ?_⟩
      intro q above below
      rcases Nat.eq_or_lt_of_le (isP.trans_le above) with same | later
      · rw [← same]
        simpa using clear
      · exact free q later (by omega)
    · obtain ⟨above, rest⟩ := ih _ found
      exact ⟨by omega, rest⟩

theorem cercaContigue_eq_some (pos : 0 < count) (found : s.cercaContigue da a count = some p) :
    da ≤ p ∧ p + count ≤ a ∧ ∀ q, p ≤ q → q < p + count → bitTest s.mem q = false := by
  unfold cercaContigue at found
  split at found
  · simp at found
  · next room => exact contigueDa_eq_some (by omega) pos da found

/-! ## Allocations -/

/-- The number of a page that may be given out. -/
def Amministrata (s : Pmm) (q : Nat) : Prop :=
  q ≠ 0 ∧ q < s.totalPages ∨ s.alta = true ∧ pmmPagine4Gb ≤ q ∧ q < pmmPagine4Gb + s.altaPagine

/-- What an allocation of `count` pages may do: fail and leave the owners as
they are, or give out pages that nobody had. -/
def Dato (s : Pmm) (owners : Nat → Nat) (count : Nat) (r : Nat × Pmm) : Prop :=
  r.1 = 0 ∧ r.2.Sano owners ∨
    ∃ page, r.1 = pageToAddr page ∧ page ≠ 0 ∧
      (∀ q, page ≤ q → q < page + count → s.Amministrata q ∧ owners q = 0) ∧
      r.2.Sano (assegna owners page count)

theorem Sano.dato (sano : s.Sano owners) (lt : p < s.totalPages) (free : bitTest s.mem p = false)
    (hint : s.totalPages = 0 ∨ lastAlloc ≤ 8 * s.bitmapSize) (lastAllocK : Nat) :
    Dato s owners 1 (pageToAddr p,
      { s.prendi p with lastAlloc := lastAlloc, lastAllocK := lastAllocK }) := by
  refine .inr ⟨p, rfl, sano.notZero lt free, ?_, (sano.prendi lt free).conHint hint⟩
  intro q lower upper
  have same : q = p := by omega
  have nz := sano.notZero lt free
  rw [same]
  exact ⟨.inl ⟨nz, lt⟩, sano.owners_libera nz lt free⟩

theorem limiteKernel_le (s : Pmm) : s.limiteKernel ≤ s.totalPages := Nat.min_le_right _ _

section

variable (sano : s.Sano owners)

include sano

theorem Sano.dopo (lt : p < s.totalPages) : s.totalPages = 0 ∨ p + 1 ≤ 8 * s.bitmapSize :=
  .inr (Nat.le_trans lt sano.spazio)

theorem Sano.allocPage : Dato s owners 1 s.allocPage := by
  have band := s.limiteKernel_le
  unfold Pmm.allocPage
  dsimp only
  split
  · exact .inl ⟨rfl, sano⟩
  rename_i someFree
  split
  · next p found =>
    obtain ⟨lt, free⟩ := cerca_eq_some found
    exact sano.dato lt free (sano.dopo lt) _
  split
  · next p found =>
    obtain ⟨pre, free⟩ := cerca_eq_some found
    -- The hint may be past the last page, where every bit is set.
    have lt : p < s.totalPages := by
      by_contra beyond
      have notEmpty : s.totalPages ≠ 0 := by
        intro empty
        have absent := sano.libere
        rw [empty] at absent
        exact someFree absent
      have hint := sano.hint.resolve_left notEmpty
      have within : p < 8 * s.bitmapSize := by split at pre <;> omega
      rw [sano.coda p (by omega) within] at free
      simp at free
    exact sano.dato lt free (sano.dopo lt) _
  · split
    · next p found =>
      obtain ⟨lt, free⟩ := cerca_eq_some found
      exact sano.dato (Nat.lt_of_lt_of_le lt band) free sano.hint _
    · exact .inl ⟨rfl, sano⟩

theorem Sano.allocPageKernel : Dato s owners 1 s.allocPageKernel := by
  have band := s.limiteKernel_le
  unfold Pmm.allocPageKernel
  dsimp only
  split
  · next p found =>
    obtain ⟨lt, free⟩ := cerca_eq_some found
    exact sano.dato (Nat.lt_of_lt_of_le lt band) free sano.hint _
  split
  · next p found =>
    obtain ⟨lt, free⟩ := cerca_eq_some found
    exact sano.dato (by omega) free sano.hint _
  · exact .inl ⟨rfl, sano⟩

theorem Sano.datiContigui (several : 0 < count) (bounded : a ≤ s.totalPages)
    (found : s.cercaContigue da a count = some p) :
    Dato s owners count (pageToAddr p, s.prendiTutte p count) := by
  obtain ⟨_, fits, free⟩ := cercaContigue_eq_some several found
  have nz : p ≠ 0 := sano.notZero (by omega) (free p (Nat.le_refl p) (by omega))
  refine .inr ⟨p, rfl, nz, ?_, Sano.prendiTutte count s owners p sano (by omega) free⟩
  intro q lower upper
  have inside : q ≠ 0 ∧ q < s.totalPages := ⟨by omega, by omega⟩
  exact ⟨.inl inside, sano.owners_libera inside.1 inside.2 (free q lower upper)⟩

theorem Sano.allocPagesKernel (count : Nat) : Dato s owners count (s.allocPagesKernel count) := by
  unfold Pmm.allocPagesKernel
  split
  · exact .inl ⟨rfl, sano⟩
  split
  · next one =>
    rw [one]
    exact sano.allocPageKernel
  split
  · next p found =>
    exact sano.datiContigui (by omega) s.limiteKernel_le found
  · exact .inl ⟨rfl, sano⟩

theorem Sano.allocPages (count : Nat) : Dato s owners count (s.allocPages count) := by
  unfold Pmm.allocPages
  dsimp only
  split
  · exact .inl ⟨rfl, sano⟩
  split
  · next one =>
    rw [one]
    exact sano.allocPage
  split
  · exact .inl ⟨rfl, sano⟩
  split
  · next p found =>
    exact sano.datiContigui (by omega) (Nat.min_le_left _ _) found
  split
  · next p found =>
    exact sano.datiContigui (by omega) s.limiteKernel_le found
  · exact .inl ⟨rfl, sano⟩

end

theorem altaCercaDa_cursore (giri : Nat) : ∀ cursore, cursore < s.altaPagine →
      (s.altaCercaDa giri cursore).2 < s.altaPagine := by
  induction giri with
  | zero =>
    intro cursore lt
    exact lt
  | succ giri ih =>
    intro cursore lt
    have later : (if s.altaPagine ≤ cursore + 1 then 0 else cursore + 1) < s.altaPagine := by
      split <;> omega
    rw [altaCercaDa]
    split
    · exact ih _ later
    · exact later

theorem altaCercaDa_eq_some :
    ∀ cursore, cursore < s.altaPagine → (s.altaCercaDa giri cursore).1 = some k →
      k < s.altaPagine ∧ bitTest s.altaMem k = false := by
  induction giri with
  | zero =>
    intro cursore _ found
    simp [altaCercaDa] at found
  | succ giri ih =>
    intro cursore lt found
    rw [altaCercaDa] at found
    split at found
    · exact ih _ (by split <;> omega) found
    rename_i clear
    injection found with isK
    rw [← isK]
    exact ⟨lt, by simpa using clear⟩

include sano

theorem Sano.conCursore {cursore : Nat}
    (inside : s.altaPagine = 0 ∨ s.alta = true ∧ cursore < s.altaPagine) :
    { s with altaLibere := libere, altaCursore := cursore }.Sano owners :=
  { sano with cursore := inside }

theorem Sano.conBitAlto (bits : bitTest mem = update (bitTest s.altaMem) k usata)
    (bare : s.alta = true → k < s.altaPagine → s.byteAlto k = 0 ∧ s.oltre.di (altoAddr k) = 0) :
    { s with altaMem := mem, altaLibere := libere }.Sano
      (conta owners (pmmPagine4Gb + k) (if usata then 1 else 0)) := by
  have sotto := sano.sotto
  refine sano.cambia ⟨⟨rfl, rfl, rfl, rfl, rfl⟩, sano.tavola.fermo _, fun _ _ _ => rfl,
    fun _ _ _ => rfl,
    fun j other => ⟨?_, rfl⟩⟩ sano.hint (fun _ low => ?_) (fun j isHigh hasAlta lt => ?_)
    sano.libere
  · rw [bits, update_of_ne (by omega)]
  · omega
  · have same : j = k := by omega
    rw [same] at lt ⊢
    obtain ⟨noByte, noExtra⟩ := bare hasAlta lt
    rw [← altoAddr_eq, noExtra]
    show Pagina (bitTest mem k) (s.byteAlto k) 0 _
    rw [bits, update_self, noByte]
    exact Pagina.iniziale

theorem Sano.prendiAlta (free : bitTest s.altaMem k = false) :
    { s with altaMem := bitSet s.altaMem k }.Sano (assegna owners (pmmPagine4Gb + k) 1) := by
  rw [assegna_uno]
  refine sano.conBitAlto bitTest_bitSet fun hasAlta lt => ?_
  have page := sano.alte hasAlta k lt
  rw [free] at page
  exact ⟨page.libera.1, page.libera.2.1⟩

theorem Sano.allocPageUtente : Dato s owners 1 s.allocPageUtente := by
  unfold Pmm.allocPageUtente
  split
  · exact sano.allocPage
  by_cases noPages : s.altaPagine = 0
  · have empty : s.altaCercaDa s.altaPagine s.altaCursore = (none, s.altaCursore) := by
      rw [noPages]
      rfl
    rw [empty]
    exact (sano.conCursore (.inl noPages)).allocPage
  · obtain ⟨hasAlta, start⟩ := sano.cursore.resolve_left noPages
    have stop := altaCercaDa_cursore s.altaPagine s.altaCursore start
    split
    · next k cursore found =>
      rw [found] at stop
      have whole : (s.altaCercaDa s.altaPagine s.altaCursore).1 = some k := by rw [found]
      obtain ⟨lt, free⟩ := altaCercaDa_eq_some s.altaCursore start whole
      refine .inr ⟨pmmPagine4Gb + k, altoAddr_eq, ?_, ?_, ?_⟩
      · unfold pmmPagine4Gb
        omega
      · intro q lower upper
        have page := sano.alte hasAlta k lt
        rw [free] at page
        have same : q = pmmPagine4Gb + k := by omega
        rw [same]
        exact ⟨.inr ⟨hasAlta, by omega, by omega⟩, page.libera.2.2⟩
      · exact (sano.prendiAlta free).conCursore (.inr ⟨hasAlta, stop⟩)
    · next cursore found =>
      rw [found] at stop
      exact (sano.conCursore (.inr ⟨hasAlta, stop⟩)).allocPage

omit sano

/-! ## Owners more and less -/

/-- The address of a page that may be given out. -/
def gestita (s : Pmm) (addr : Nat) : Bool :=
  addr % pageSize = 0 &&
    if gb4 ≤ addr then s.altaDentro addr
    else addr ≠ 0 && addrToPage addr < s.totalPages

theorem gestita_cases (managed : s.gestita addr = true) :
    (∃ p, addr = pageToAddr p ∧ p ≠ 0 ∧ p < s.totalPages ∧ addr < gb4) ∨
      ∃ k, addr = altoAddr k ∧ s.alta = true ∧ k < s.altaPagine := by
  unfold gestita at managed
  rw [Bool.and_eq_true, decide_eq_true_eq] at managed
  obtain ⟨aligned, place⟩ := managed
  unfold pageSize at aligned
  split at place
  · next high =>
    unfold altaDentro at place
    simp only [Bool.and_eq_true, decide_eq_true_eq] at place
    obtain ⟨⟨hasAlta, _⟩, below⟩ := place
    unfold pageSize gb4 at *
    refine .inr ⟨(addr - gb4) / pageSize, ?_, hasAlta, ?_⟩
    · unfold altoAddr gb4 pageSize
      omega
    · unfold gb4 pageSize
      omega
  · next low =>
    simp only [Bool.and_eq_true, decide_eq_true_eq, ne_eq] at place
    refine .inl ⟨addr / pageSize, ?_, ?_, place.2, by omega⟩
    · unfold pageToAddr pageSize
      omega
    · unfold pageSize
      omega

theorem addrToPage_pageToAddr : addrToPage (pageToAddr p) = p := by
  unfold addrToPage pageToAddr pageSize
  omega

theorem altaIndice_altoAddr : altaIndice (altoAddr k) = k := by
  unfold altaIndice altoAddr gb4 pageSize
  omega

theorem addrToPage_altoAddr : addrToPage (altoAddr k) = pmmPagine4Gb + k := by
  rw [altoAddr_eq, addrToPage_pageToAddr]

include sano

theorem Sano.bassa (lt : p < s.totalPages) {extra n : Nat}
    (changed : Oltre.Cambia s.oltre t (pageToAddr p) extra)
    (page : p ≠ 0 → Pagina (bitTest s.mem p) b.toNat extra n) :
    { s.conRif p b with oltre := t }.Sano (conta owners p n) := by
  have spazio := sano.spazio
  have sotto := sano.sotto
  have bits : ∀ q < 8 * s.bitmapSize,
      bitTest (update s.mem (s.bitmapSize + p) b) q = bitTest s.mem q := by
    intro q within
    exact bitTest_update (by omega) b
  refine sano.cambia ⟨⟨rfl, rfl, rfl, rfl, rfl⟩, changed, fun q within _ => bits q within,
    fun q _ other => update_of_ne (fun eq => other (Nat.add_left_cancel eq)) ..,
    fun _ _ => ⟨rfl, rfl⟩⟩ sano.hint ?_ ?_ ?_
  · intro nz _
    show Pagina (bitTest (update s.mem (s.bitmapSize + p) b) p)
      (update s.mem (s.bitmapSize + p) b (s.bitmapSize + p)).toNat extra n
    rw [bits p (by omega), update_self]
    exact page nz
  · omega
  · refine sano.libere.trans (countBelow_congr fun q within => ?_).symm
    rw [← bits q (by omega)]
    rfl

theorem Sano.alta {extra n : Nat} (others : ∀ j, j ≠ k → mem j = s.altaRifMem j)
    (changed : Oltre.Cambia s.oltre t (altoAddr k) extra)
    (page : s.alta = true → Pagina (bitTest s.altaMem k)
      (if s.altaRif then (mem k).toNat else 0) extra n) :
    { s with altaRifMem := mem, oltre := t }.Sano (conta owners (pmmPagine4Gb + k) n) := by
  have sotto := sano.sotto
  rw [altoAddr_eq] at changed
  refine sano.cambia ⟨⟨rfl, rfl, rfl, rfl, rfl⟩, changed, fun _ _ _ => rfl, fun _ _ _ => rfl,
    fun j other => ⟨rfl, ?_⟩⟩ sano.hint (fun _ low => ?_) (fun j isHigh hasAlta _ => ?_) sano.libere
  · show (if s.altaRif then (mem j).toNat else 0) = s.byteAlto j
    rw [others j (by omega), byteAlto]
  · omega
  · have same : j = k := by omega
    rw [same]
    exact page hasAlta

theorem Sano.rilascia (lt : p < s.totalPages)
    (nz : p ≠ 0) (used : bitTest s.mem p = true) (noByte : (s.rif p).toNat = 0)
    (noExtra : s.oltre.di (pageToAddr p) = 0) (usedPages : Nat) :
    { s with
      mem := bitClr s.mem p, freePages := piu s.freePages, usedPages := usedPages
      lastAlloc := if p < s.lastAlloc then p else s.lastAlloc }.Sano (conta owners p 0) := by
  have spazio := sano.spazio
  refine sano.conBit lt nz bitTest_bitClr (fun q => update_of_ne (by omega) ..)
    noByte noExtra (sano.hint.imp_right fun hint => ?_) ?_
  · split <;> omega
  · have short := sano.short
    unfold pmmPagine4Gb at short
    rw [piu_eq (by omega), libere_bitClr lt used, sano.libere]

omit sano

theorem conRif_self : s.conRif p (s.rif p) = s := by
  unfold conRif rif
  rw [update_eq_self]

theorem toNat_pred (pos : 0 < b.toNat) : (b - 1).toNat = b.toNat - 1 := by
  have one : (1 : BitVec 8).toNat = 1 := rfl
  rw [BitVec.toNat_sub]
  omega

theorem toNat_succ (small : b.toNat < rifMax) : (b + 1).toNat = b.toNat + 1 := by
  have one : (1 : BitVec 8).toNat = 1 := rfl
  unfold rifMax at small
  rw [BitVec.toNat_add]
  omega

/-- The owners after a call of `pmm_free_page`. -/
def dopoFree (s : Pmm) (owners : Nat → Nat) (addr : Nat) : Nat → Nat :=
  if s.gestita addr then conta owners (addrToPage addr) (owners (addrToPage addr) - 1)
  else owners

theorem Sano.freeBassa (sano : s.Sano owners) (nz : p ≠ 0)
    (lt : p < s.totalPages) (low : pageToAddr p < gb4) :
    (s.freePage (pageToAddr p)).Sano (conta owners p (owners p - 1)) := by
  have page := sano.basse p nz lt
  have aligned : ¬ (pageToAddr p = 0 ∨ pageToAddr p % pageSize ≠ 0) := by
    unfold pageToAddr pageSize
    omega
  unfold Pmm.freePage
  rw [if_neg (by omega), if_neg aligned, addrToPage_pageToAddr]
  dsimp only
  cases used : bitTest s.mem p with
  | false =>
    rw [used] at page
    have same : owners p - 1 = owners p := by
      have absent := page.libera.2.2
      omega
    rw [if_pos (.inr rfl), same, conta, update_eq_self]
    exact sano
  | true =>
    rw [used] at page
    obtain ⟨count, short, full⟩ := page.usata
    rw [if_neg (by simp only [Bool.true_eq_false, or_false]; omega)]
    split
    · next pos =>
      cases taken : s.oltre.togli (pageToAddr p) with
      | some t =>
        obtain ⟨positive, changed⟩ := sano.tavola.togli taken
        have res := sano.bassa (n := owners p - 1) lt (b := s.rif p) changed (fun _ => by
          rw [used]
          exact ⟨by omega, by omega, fun more => full (by omega)⟩)
        rw [conRif_self] at res
        exact res
      | none =>
        have absent := sano.tavola.togli_none taken
        have unchanged := sano.tavola.fermo (pageToAddr p)
        exact sano.bassa lt (b := s.rif p - 1) unchanged (fun _ => by
          rw [used, toNat_pred pos]
          exact ⟨by omega, by omega, fun more => absurd more (by omega)⟩)
    · next zero =>
      have noByte : (s.rif p).toNat = 0 := by omega
      have noExtra := page.extra_zero (by rw [noByte]; decide)
      have last : owners p - 1 = 0 := by omega
      rw [last]
      exact sano.rilascia lt nz used noByte noExtra _

theorem altaDentro_altoAddr (hasAlta : s.alta = true)
    (lt : k < s.altaPagine) : s.altaDentro (altoAddr k) = true := by
  unfold altaDentro altoAddr pageSize
  rw [hasAlta]
  simp only [Bool.true_and, Bool.and_eq_true, decide_eq_true_eq]
  omega

theorem gb4_le_altoAddr (k : Nat) : gb4 ≤ altoAddr k := Nat.le_add_right gb4 _

theorem altoAddr_aligned : altoAddr k % pageSize = 0 := by
  unfold altoAddr gb4 pageSize
  omega

theorem rifAlto_altoAddr (hasAlta : s.alta = true) (lt : k < s.altaPagine) :
    s.rifAlto (altoAddr k) =
      if s.altaRif = true ∧ bitTest s.altaMem k = true then some (s.altaRifMem k) else none := by
  unfold rifAlto
  rw [altaDentro_altoAddr hasAlta lt, altoAddr_aligned, altaIndice_altoAddr]
  simp only [true_and]

include sano

theorem Sano.altaLibera (hasAlta : s.alta = true)
    (lt : k < s.altaPagine) (noByte : s.byteAlto k = 0) :
    (s.altaLibera (altoAddr k)).Sano
      (conta owners (pmmPagine4Gb + k) (owners (pmmPagine4Gb + k) - 1)) := by
  have page := sano.alte hasAlta k lt
  rw [noByte] at page
  unfold Pmm.altaLibera
  rw [altaIndice_altoAddr]
  cases used : bitTest s.altaMem k with
  | false =>
    rw [used] at page
    have same : owners (pmmPagine4Gb + k) - 1 = owners (pmmPagine4Gb + k) := by
      have absent := page.libera.2.2
      omega
    rw [same, conta, update_eq_self]
    exact sano
  | true =>
    rw [used] at page
    have noExtra := page.extra_zero (by decide)
    have last : owners (pmmPagine4Gb + k) - 1 = 0 := by
      have count := page.usata.1
      omega
    rw [last]
    exact sano.conBitAlto bitTest_bitClr fun _ _ => ⟨noByte, noExtra⟩

theorem Sano.freeAlta (hasAlta : s.alta = true) (lt : k < s.altaPagine) :
    (s.freePage (altoAddr k)).Sano
      (conta owners (pmmPagine4Gb + k) (owners (pmmPagine4Gb + k) - 1)) := by
  have page := sano.alte hasAlta k lt
  unfold Pmm.freePage freePageAlta
  rw [if_pos (gb4_le_altoAddr k), if_pos (altaDentro_altoAddr hasAlta lt),
    rifAlto_altoAddr hasAlta lt]
  by_cases counted : s.altaRif = true ∧ bitTest s.altaMem k = true
  · have byte : s.byteAlto k = (s.altaRifMem k).toNat := if_pos counted.1
    rw [if_pos counted]
    dsimp only
    rw [counted.2, byte] at page
    obtain ⟨count, short, full⟩ := page.usata
    split
    · next pos =>
      cases taken : s.oltre.togli (altoAddr k) with
      | some t =>
        obtain ⟨positive, changed⟩ := sano.tavola.togli taken
        exact sano.alta (fun _ _ => rfl) changed (fun _ => by
          rw [counted.2, if_pos counted.1]
          exact ⟨by omega, by omega, fun more => full (by omega)⟩)
      | none =>
        have absent := sano.tavola.togli_none taken
        have unchanged := sano.tavola.fermo (altoAddr k)
        unfold conRifAlto
        rw [altaIndice_altoAddr]
        exact sano.alta (fun j other => update_of_ne other _ _) unchanged (fun _ => by
            rw [counted.2, if_pos counted.1, update_self, toNat_pred pos]
            exact ⟨by omega, by omega, fun more => absurd more (by omega)⟩)
    · next zero => exact sano.altaLibera hasAlta lt (by omega)
  · rw [if_neg counted]
    apply sano.altaLibera hasAlta lt
    by_cases bytes : s.altaRif = true
    · cases used : bitTest s.altaMem k with
      | false =>
        rw [used] at page
        exact page.libera.1
      | true => exact absurd ⟨bytes, used⟩ counted
    · exact if_neg bytes

theorem Sano.freePage (aligned : gb4 ≤ addr → addr % pageSize = 0) :
    (s.freePage addr).Sano (s.dopoFree owners addr) := by
  unfold dopoFree
  cases managed : s.gestita addr with
  | true =>
    rcases gestita_cases managed with ⟨p, isAddr, nz, lt, low⟩ | ⟨k, isAddr, hasAlta, lt⟩
    · rw [isAddr] at low ⊢
      rw [addrToPage_pageToAddr]
      exact sano.freeBassa nz lt low
    · rw [isAddr, addrToPage_altoAddr]
      exact sano.freeAlta hasAlta lt
  | false =>
    have nothing : s.freePage addr = s := by
      unfold gestita at managed
      unfold Pmm.freePage
      split
      · next high =>
        rw [if_pos high, decide_eq_true (aligned high), Bool.true_and] at managed
        rw [freePageAlta, managed]
        rfl
      rename_i low
      rw [if_neg low] at managed
      split
      · rfl
      rename_i valid
      rw [if_pos]
      left
      have regular : addr ≠ 0 ∧ addr % pageSize = 0 := by
        constructor
        · exact fun zero => valid (.inl zero)
        · by_contra odd
          exact valid (.inr odd)
      simpa [regular.1, regular.2] using managed
    rw [nothing]
    exact sano

omit sano

/-- The owners after a successful call of `pmm_ref_inc`. -/
def dopoRefInc (s : Pmm) (owners : Nat → Nat) (addr : Nat) : Nat → Nat :=
  if s.gestita addr then conta owners (addrToPage addr) (owners (addrToPage addr) + 1)
  else owners

theorem gestita_pageToAddr (nz : p ≠ 0) (lt : p < s.totalPages)
    (low : pageToAddr p < gb4) : s.gestita (pageToAddr p) = true := by
  unfold gestita
  rw [if_neg (by omega), addrToPage_pageToAddr]
  simp only [Bool.and_eq_true, decide_eq_true_eq]
  unfold pageToAddr pageSize
  omega

theorem gestita_altoAddr (hasAlta : s.alta = true)
    (lt : k < s.altaPagine) : s.gestita (altoAddr k) = true := by
  unfold gestita
  rw [if_pos (gb4_le_altoAddr k), altaDentro_altoAddr hasAlta lt, altoAddr_aligned]
  rfl

include sano

theorem Sano.refIncAlta (hasAlta : s.alta = true) (lt : k < s.altaPagine)
    (few : owners (pmmPagine4Gb + k) + 1 < 2 ^ 32)
    (done : s.refInc (altoAddr k) memoria = some s') :
    s'.Sano (conta owners (pmmPagine4Gb + k) (owners (pmmPagine4Gb + k) + 1)) := by
  have page := sano.alte hasAlta k lt
  unfold refInc at done
  rw [if_pos (gb4_le_altoAddr k), rifAlto_altoAddr hasAlta lt] at done
  by_cases counted : s.altaRif = true ∧ bitTest s.altaMem k = true
  · have byte : s.byteAlto k = (s.altaRifMem k).toNat := if_pos counted.1
    rw [if_pos counted] at done
    dsimp only at done
    rw [counted.2] at page
    obtain ⟨count, short, full⟩ := page.usata
    split at done
    · next room =>
      injection done with isS
      rw [← isS]
      unfold conRifAlto
      rw [altaIndice_altoAddr]
      exact sano.alta (fun j other => update_of_ne other _ _)
        (sano.tavola.fermo (altoAddr k)) (fun _ => by
          rw [counted.2, if_pos counted.1, update_self, toNat_succ room]
          exact ⟨by omega, by omega, fun more => absurd more (by omega)⟩)
    · next isFull =>
      obtain ⟨t, added, isS⟩ := Option.map_eq_some_iff.mp done
      have changed := sano.tavola.aggiungi (by omega) added
      have pos := gb4_le_altoAddr k
      have full' : (s.altaRifMem k).toNat = rifMax := by
        unfold rifMax at isFull ⊢
        omega
      rw [if_neg (by unfold gb4 at pos; omega)] at changed
      rw [← isS]
      exact sano.alta (fun _ _ => rfl) changed (fun _ => by
        rw [counted.2, if_pos counted.1]
        exact ⟨by omega, by omega, fun _ => full'⟩)
  · rw [if_neg counted] at done
    simp at done

theorem Sano.refIncBassa (lt : p < s.totalPages) (used : bitTest s.mem p = true)
    (few : p ≠ 0 → owners p + 1 < 2 ^ 32)
    (done : (if (s.rif p).toNat < rifMax then some (s.conRif p (s.rif p + 1))
      else (s.oltre.aggiungi (pageToAddr p) memoria).map
        fun t => { s with oltre := t }) = some s') :
    s'.Sano (if p = 0 then owners else conta owners p (owners p + 1)) := by
  have ledger : ∀ n, (if p = 0 then owners else conta owners p n) =
      conta owners p (if p = 0 then owners p else n) := by
    intro n
    by_cases zero : p = 0
    · rw [if_pos zero, if_pos zero, conta, update_eq_self]
    · rw [if_neg zero, if_neg zero]
  rw [ledger]
  split at done
  · next room =>
    injection done with isS
    rw [← isS]
    apply sano.bassa lt (sano.tavola.fermo (pageToAddr p))
    intro nz
    have page := sano.basse p nz lt
    rw [used] at page ⊢
    obtain ⟨count, short, full⟩ := page.usata
    rw [if_neg nz, toNat_succ room]
    exact ⟨by omega, by omega, fun more => absurd (full more) (by omega)⟩
  · next isFull =>
    obtain ⟨t, added, isS⟩ := Option.map_eq_some_iff.mp done
    have full' : (s.rif p).toNat = rifMax := by
      unfold rifMax at isFull ⊢
      omega
    have more : s.oltre.di (pageToAddr p) + 1 < 2 ^ 32 := by
      by_cases zero : p = 0
      · have fst : pageToAddr p = 0 := by rw [zero, pageToAddr, Nat.zero_mul]
        rw [sano.tavola.di_zero fst]
        decide
      have page := sano.basse p zero lt
      rw [used] at page
      have count := page.usata.1
      omega
    have changed := sano.tavola.aggiungi more added
    have res := sano.bassa (b := s.rif p)
      (n := if p = 0 then owners p else owners p + 1) lt changed
      (fun nz => by
        have page := sano.basse p nz lt
        have pos : pageToAddr p ≠ 0 := by
          unfold pageToAddr pageSize
          omega
        rw [used] at page ⊢
        obtain ⟨count, _, _⟩ := page.usata
        rw [if_neg nz, if_neg pos]
        exact ⟨by omega, by omega, fun _ => full'⟩)
    rw [conRif_self] at res
    rw [← isS]
    exact res

theorem Sano.refInc (few : s.gestita addr = true → owners (addrToPage addr) + 1 < 2 ^ 32)
    (done : s.refInc addr memoria = some s') :
    s'.Sano (s.dopoRefInc owners addr) := by
  by_cases high : gb4 ≤ addr
  · have lt : ∃ k, addr = altoAddr k ∧ s.alta = true ∧ k < s.altaPagine := by
      cases byte : s.rifAlto addr with
      | none =>
        rw [Pmm.refInc, if_pos high, byte] at done
        simp at done
      | some b =>
        unfold rifAlto at byte
        split at byte
        · next valid =>
          have managed : s.gestita addr = true := by
            rw [gestita, if_pos high, valid.2.1, decide_eq_true valid.2.2.1]
            rfl
          rcases gestita_cases managed with ⟨_, _, _, _, low⟩ | found
          · omega
          · exact found
        · simp at byte
    obtain ⟨k, isAddr, hasAlta, kin⟩ := lt
    have managed := gestita_altoAddr hasAlta kin
    rw [isAddr] at few done ⊢
    have short := few managed
    rw [dopoRefInc, if_pos managed]
    rw [addrToPage_altoAddr] at short ⊢
    exact sano.refIncAlta hasAlta kin short done
  · rw [Pmm.refInc, if_neg high] at done
    split at done
    · simp at done
    dsimp only at done
    split at done
    · simp at done
    rename_i valid
    have isAddr : addr = pageToAddr (addrToPage addr) := by
      unfold pageToAddr addrToPage pageSize at *
      omega
    have lt : addrToPage addr < s.totalPages := by
      by_contra beyond
      exact valid (.inl (by omega))
    have used : bitTest s.mem (addrToPage addr) = true := by
      cases bit : bitTest s.mem (addrToPage addr) with
      | true => rfl
      | false => exact absurd (.inr bit) valid
    have ledger : s.dopoRefInc owners addr = if addrToPage addr = 0 then owners
        else conta owners (addrToPage addr) (owners (addrToPage addr) + 1) := by
      rw [dopoRefInc]
      by_cases zero : addrToPage addr = 0
      · rw [if_pos zero]
        rw [isAddr, zero]
        simp [gestita, pageToAddr, gb4]
      · rw [if_neg zero, if_pos]
        rw [isAddr]
        exact gestita_pageToAddr zero lt (by omega)
    rw [ledger]
    apply sano.refIncBassa lt used
    · intro nz
      apply few
      rw [isAddr]
      exact gestita_pageToAddr nz lt (by omega)
    · rw [← isAddr]
      exact done

theorem Sano.refCount (managed : s.gestita addr = true) :
    s.refCount addr = owners (addrToPage addr) := by
  have total : ∀ {b : BitVec 8} {n : Nat},
      Pagina true b.toNat (s.oltre.di addr) n → s.somma addr b = n := by
    intro b n page
    obtain ⟨count, short, full⟩ := page.usata
    unfold somma
    split
    · rw [← count, Nat.mod_eq_of_lt short]
    rename_i isFull
    rw [← page.extra_zero isFull, ← count, Nat.mod_eq_of_lt short]
  rcases gestita_cases managed with ⟨p, isAddr, nz, lt, low⟩ | ⟨k, isAddr, hasAlta, lt⟩
  · have page := sano.basse p nz lt
    rw [← isAddr] at page
    unfold Pmm.refCount
    rw [if_neg (by omega)]
    have isPage : addrToPage addr = p := by rw [isAddr, addrToPage_pageToAddr]
    rw [isPage]
    dsimp only
    cases used : bitTest s.mem p with
    | false =>
      rw [used] at page
      rw [if_pos (.inr rfl), page.libera.2.2]
    | true =>
      rw [used] at page
      rw [if_neg (by simp only [Bool.true_eq_false, or_false]; omega)]
      exact total page
  · have page := sano.alte hasAlta k lt
    rw [← isAddr] at page
    have isPage : addrToPage addr = pmmPagine4Gb + k := by rw [isAddr, addrToPage_altoAddr]
    unfold Pmm.refCount
    rw [isPage, if_pos (isAddr ▸ gb4_le_altoAddr k)]
    have byteOf := rifAlto_altoAddr hasAlta lt
    rw [← isAddr] at byteOf
    rw [byteOf]
    by_cases counted : s.altaRif = true ∧ bitTest s.altaMem k = true
    · have byte : s.byteAlto k = (s.altaRifMem k).toNat := if_pos counted.1
      rw [counted.2, byte] at page
      rw [if_pos counted]
      exact total page
    rw [if_neg counted]
    have place : s.altaDentro addr = true := by
      rw [isAddr]
      exact altaDentro_altoAddr hasAlta lt
    have index : altaIndice addr = k := by rw [isAddr, altaIndice_altoAddr]
    rw [place, index]
    cases used : bitTest s.altaMem k with
    | false =>
      rw [used] at page
      rw [if_neg (by simp), page.libera.2.2]
    | true =>
      have noBytes : ¬ s.altaRif = true := fun bytes => counted ⟨bytes, used⟩
      have byte : s.byteAlto k = 0 := if_neg noBytes
      rw [used, byte] at page
      have count := page.usata.1
      rw [page.extra_zero (by decide)] at count
      rw [if_pos ⟨rfl, rfl⟩, count]

end Pmm

end ExOs.Mm
