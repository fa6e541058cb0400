import ExOs.Libc.HeapPassi

/-!
# The calls of the heap

`Sano` is what holds between two calls: the headers, the places and the drawers
agree, no two free blocks touch, and the blocks cover exactly what the kernel
has given.  Each call keeps it and changes, of the blocks in use, only the one
it is about.
-/

namespace ExOs.Libc

open ExOs.Library List ExOs.Library.Block

/-- What holds of the break at any time. -/
structure SpazioSano (s : Spazio) : Prop where
  pagina : s.heapEnd % 4096 = 0
  ordine : s.heapStart ≤ s.heapEnd
  fine : s.heapEnd < 2 ^ 32
  limite : s.heapMax < 2 ^ 32
  concessi : ∀ a, s.concessi a = true → a < s.heapEnd

structure Sano (h : Heap) (bs : List Block) (sospesi : List Nat) : Prop where
  coerente : Coerente h bs sospesi
  quieta : Block.Settled bs
  coperti : ∀ a, h.spazio.concessi a = true ↔ Block.Covered bs a
  spazio : SpazioSano h.spazio

theorem Sano.cambia {h h' : Heap} {bs bs' : List Block} {sospesi sospesi' : List Nat}
    (sano : Sano h bs sospesi) (inv : Coerente h' bs' sospesi') (settled : Block.Settled bs')
    (spazio : h'.spazio = h.spazio) (coperti : ∀ a, Block.Covered bs' a ↔ Block.Covered bs a) :
    Sano h' bs' sospesi' := by
  refine ⟨inv, settled, ?_, ?_⟩
  · intro a
    rw [spazio, sano.coperti a, coperti a]
  · rw [spazio]
    exact sano.spazio

section Break

variable {s : Spazio} {quanto : Nat}

theorem nonDato_errore {codice : Nat} (pos : 0 < codice) (small : codice ≤ 4095) :
    nonDato (errore codice) = true := by
  rw [nonDato, errore, Bool.or_eq_true, decide_eq_true_iff, decide_eq_true_iff]
  omega

theorem nonDato_pagina {r : Nat} (pos : 0 < r) (pagina : r % 4096 = 0) (small : r < 2 ^ 32) :
    nonDato r = false := by
  rw [nonDato, Bool.or_eq_false_iff, decide_eq_false_iff_not, decide_eq_false_iff_not]
  omega

/-- The break with `quanto` bytes more. -/
def Spazio.cresciuto (s : Spazio) (quanto : Nat) : Spazio :=
  { s with
    heapEnd := s.heapEnd + quanto
    concessi := fun a => s.concessi a || (s.heapEnd ≤ a && a < s.heapEnd + quanto) }

/-- The break with `quanto` bytes less. -/
def Spazio.ridotto (s : Spazio) (quanto : Nat) : Spazio :=
  { s with
    heapEnd := s.heapEnd - quanto
    concessi := fun a => s.concessi a && a < s.heapEnd - quanto }

section

variable (sano : SpazioSano s)

include sano

/-- `sys_sbrk` with whole pages: refused, or the break grows and its old place is returned. -/
theorem SpazioSano.sbrk_cresce {pagine : Bool} (whole : quanto % 4096 = 0)
    (pos : 0 < quanto) (small : quanto < 2 ^ 31) :
    (∃ r, sysSbrk s quanto pagine = (s, r) ∧ nonDato r = true) ∨
      (0 < s.heapEnd ∧ s.heapEnd + quanto < 2 ^ 32 ∧
        sysSbrk s quanto pagine = (s.cresciuto quanto, s.heapEnd)) := by
  have refused : nonDato (errore enomem) = true := nonDato_errore (by decide) (by decide)
  have limite := sano.limite
  have isPages : parola32 (quanto + (heapPagina - 1)) / heapPagina * heapPagina = quanto := by
    rw [parola32_of_lt (by rw [heapPagina]; omega), heapPagina]
    omega
  rw [sysSbrk]
  by_cases absent : s.heapStart = 0 ∨ s.heapMax = 0
  · rw [if_pos absent]
    exact .inl ⟨_, rfl, refused⟩
  rw [if_neg absent, if_neg (by omega), if_pos small]
  dsimp only
  have ordine := sano.ordine
  rw [isPages]
  split
  · exact .inl ⟨_, rfl, refused⟩
  rename_i full
  by_cases promised : pagine = true
  · have fits : s.heapEnd + quanto < 2 ^ 32 := by
      rw [heapPagina] at full isPages
      omega
    rw [if_neg (not_not_intro promised), parola32_of_lt fits]
    exact .inr ⟨by omega, fits, rfl⟩
  · rw [if_pos promised]
    exact .inl ⟨_, rfl, refused⟩

theorem SpazioSano.sbrk_riduce (pagine : Bool) (whole : quanto % 4096 = 0)
    (pos : 0 < quanto) (le : quanto ≤ s.heapEnd) :
    (∃ r, sysSbrk s (meno32 0 quanto) pagine = (s, r) ∧ nonDato r = true) ∨
      (s.heapStart + quanto ≤ s.heapEnd ∧
        sysSbrk s (meno32 0 quanto) pagine = (s.ridotto quanto, s.heapEnd)) := by
  have limite := sano.limite
  have fine := sano.fine
  have isWord : meno32 0 quanto = 2 ^ 32 - quanto := by
    rw [meno32]
    omega
  rw [isWord, sysSbrk]
  split
  · exact .inl ⟨_, rfl, nonDato_errore (by decide) (by decide)⟩
  rw [if_neg (by omega)]
  -- A size above two gigabytes reads as a request to grow past the limit.
  split
  · have pages : parola32 (2 ^ 32 - quanto + (heapPagina - 1)) / heapPagina * heapPagina =
        2 ^ 32 - quanto := by
      rw [parola32_of_lt (by rw [heapPagina]; omega), heapPagina]
      omega
    have full : s.heapMax < s.heapEnd ∨ (s.heapMax - s.heapEnd) / heapPagina <
        parola32 (2 ^ 32 - quanto + (heapPagina - 1)) / heapPagina := by
      rw [heapPagina] at pages ⊢
      omega
    rw [if_pos full]
    exact .inl ⟨_, rfl, nonDato_errore (by decide) (by decide)⟩
  · have isShrink : (2 ^ 32 - (2 ^ 32 - quanto)) / heapPagina * heapPagina = quanto := by
      rw [heapPagina]
      omega
    rw [isShrink, if_neg (by omega)]
    split
    · exact .inl ⟨_, rfl, nonDato_errore (by decide) (by decide)⟩
    rename_i short
    have ordine := sano.ordine
    rw [meno32_of_le fine le]
    rw [meno32_of_le fine ordine] at short
    exact .inr ⟨by omega, rfl⟩

theorem SpazioSano.cresciuto (whole : quanto % 4096 = 0)
    (fits : s.heapEnd + quanto < 2 ^ 32) : SpazioSano (s.cresciuto quanto) := by
  have pagina := sano.pagina
  have ordine := sano.ordine
  refine ⟨?_, ?_, fits, sano.limite, ?_⟩
  · show (s.heapEnd + quanto) % 4096 = 0
    omega
  · show s.heapStart ≤ s.heapEnd + quanto
    omega
  · intro a given
    rw [Spazio.cresciuto, Bool.or_eq_true, Bool.and_eq_true, decide_eq_true_iff,
      decide_eq_true_iff] at given
    show a < s.heapEnd + quanto
    rcases given with pre | ⟨_, fresh⟩
    · have below := sano.concessi a pre
      omega
    · exact fresh

theorem SpazioSano.ridotto (whole : quanto % 4096 = 0)
    (room : s.heapStart + quanto ≤ s.heapEnd) : SpazioSano (s.ridotto quanto) := by
  have pagina := sano.pagina
  have fine := sano.fine
  refine ⟨?_, ?_, ?_, sano.limite, ?_⟩
  · show (s.heapEnd - quanto) % 4096 = 0
    omega
  · show s.heapStart ≤ s.heapEnd - quanto
    omega
  · show s.heapEnd - quanto < 2 ^ 32
    omega
  · intro a given
    rw [Spazio.ridotto, Bool.and_eq_true, decide_eq_true_iff] at given
    exact given.2

end

end Break

/-! ## More memory -/

section Extend

variable {h : Heap} {bs : List Block} {sospesi : List Nat} {utile : Nat} {pagine : Bool}

theorem Coerente.ambiente (inv : Coerente h bs sospesi) {e : Nat} {s : Spazio} :
    Coerente { h with errno := e, spazio := s } bs sospesi := by
  obtain ⟨liste, links⟩ := inv.cassetti
  exact ⟨{ inv.riflette with }, inv.disposti, liste, { links with }⟩

theorem heapAllinea_eq {n : Nat} (small : n + 15 < 2 ^ 32) :
    heapAllinea n = (n + 15) / 16 * 16 := by
  rw [heapAllinea, multiplo, parola32_of_lt (by omega)]

theorem quantoEstendi_facts (mul : utile % 16 = 0) (small : utile ≤ 2 ^ 31 - 4112) :
    quantoEstendi utile % 4096 = 0 ∧ utile + 16 ≤ quantoEstendi utile ∧
      65536 ≤ quantoEstendi utile ∧ quantoEstendi utile < 2 ^ 31 := by
  have aligned : heapAllinea utile = utile := by
    rw [heapAllinea_eq (by omega)]
    omega
  have header : parola32 (utile + bloccoHdr) = utile + 16 :=
    parola32_of_lt (by rw [bloccoHdr]; omega)
  rw [quantoEstendi, aligned, heapMinSbrk, heapPagina]
  split
  · rw [parola32_of_lt (by omega)]
    omega
  · rw [parola32_of_lt (by omega)]
    omega

theorem unisci_ultimo {p b : Nat} (pMultiple : p % 16 = 0) (bMultiple : b % 16 = 0)
    (apart : b ≠ p) (last : h.succ b = 0) :
    unisci h p b =
      { (h.setDim p (parola32 (h.dim p + (bloccoHdr + h.dim b)))).setSucc p 0 with
        ultimo := p } := by
  obtain ⟨fst, snd⟩ := succ_unisci pMultiple bMultiple apart
  rw [unisci]
  rw [fst, snd, last, if_neg (fun wrong => wrong rfl)]

/-- The same blocks are in use, and their bytes are as they were. -/
structure Immutata (h : Heap) (bs : List Block) (h' : Heap) (bs' : List Block) : Prop where
  sano : Sano h' bs' []
  usati : ∀ y : Block, y.free = false → (y ∈ bs' ↔ y ∈ bs)
  intatta : Intatta bs h h'

theorem Sano.sotto (sano : Sano h bs []) : ∀ y ∈ bs, y.stop ≤ h.spazio.heapEnd := by
  intro y mem
  have long := sano.coerente.disposti.lungo mem
  have covered : Block.Covered bs (y.stop - 1) := by
    refine ⟨y, mem, ?_, ?_⟩
    · rw [stop]
      omega
    · rw [stop]
      omega
  have given := sano.spazio.concessi _ ((sano.coperti _).mpr covered)
  omega

theorem Sano.coperti_cresciuto (sano : Sano h bs []) (quanto a : Nat) :
    (h.spazio.cresciuto quanto).concessi a = true ↔
      Block.Covered (bs ++ [⟨h.spazio.heapEnd, quanto, true⟩]) a := by
  rw [covered_append, covered_singleton, ← sano.coperti a]
  simp only [Spazio.cresciuto, Bool.or_eq_true, Bool.and_eq_true, decide_eq_true_iff, stop]

/-- The list ends with a block just obtained, which is in no drawer yet. -/
structure Accodata (h : Heap) (bs : List Block) (h₁ : Heap) (z : Block) : Prop where
  coerente : Coerente h₁ (bs ++ [z]) [z.start]
  intatta : Intatta bs h h₁
  libero : z.free = true
  coperti : ∀ a, h₁.spazio.concessi a = true ↔ Block.Covered (bs ++ [z]) a
  spazio : SpazioSano h₁.spazio

theorem Sano.accodata {quanto : Nat} (sano : Sano h bs []) (whole : quanto % 4096 = 0)
    (long : 65536 ≤ quanto) (pos : 0 < h.spazio.heapEnd)
    (fits : h.spazio.heapEnd + quanto < 2 ^ 32) :
    Accodata h bs (accoda { h with spazio := h.spazio.cresciuto quanto } h.spazio.heapEnd quanto)
      ⟨h.spazio.heapEnd, quanto, true⟩ := by
  have pagina := sano.spazio.pagina
  obtain ⟨queued, sameQueued⟩ := sano.coerente.ambiente.accoda
    sano.sotto (by omega) pos (by omega) (by omega) fits
  have isSpazio :
    (accoda { h with spazio := h.spazio.cresciuto quanto } h.spazio.heapEnd quanto).spazio =
      h.spazio.cresciuto quanto := congrArg Globali.spazio accoda_effetti.2.1
  refine ⟨queued, sameQueued, rfl, ?_, ?_⟩
  · rw [isSpazio]
    exact sano.coperti_cresciuto quanto
  · rw [isSpazio]
    exact sano.spazio.cresciuto whole fits

variable {z : Block} {h₁ : Heap} {front : List Block} {p : Block}

theorem Accodata.usati (accodata : Accodata h bs h₁ z) :
    ∀ y : Block, y.free = false → (y ∈ bs ++ [z] ↔ y ∈ bs) := by
  intro y busy
  rw [mem_libero accodata.libero busy, append_nil]

theorem Accodata.sola (accodata : Accodata h bs h₁ z) (settled : Block.Settled (bs ++ [z])) :
    Immutata h bs (cassettoMetti h₁ z.start) (bs ++ [z]) := by
  obtain ⟨placed, samePlaced, isSpazio⟩ := accodata.coerente.metti
    mem_append_cons_self rfl accodata.libero not_mem_nil
  refine ⟨⟨placed, settled, ?_, ?_⟩, accodata.usati, ?_⟩
  · rw [isSpazio]
    exact accodata.coperti
  · rw [isSpazio]
    exact accodata.spazio
  · intro a used
    exact (samePlaced a (used.mono fun _ _ => mem_append_left _)).trans (accodata.intatta a used)

theorem Accodata.succ_nullo
    (accodata : Accodata h (front ++ [p]) h₁ z) (pFree : p.free = true)
    (differ : z.start ≠ p.start) :
    (cassettoTogli h₁ p.start).succ z.start = 0 := by
  obtain ⟨fst, _, _⟩ := accodata.coerente.togli
    (mem_append_left _ mem_append_cons_self) rfl pFree
    (fun wrong => differ (mem_singleton.mp wrong).symm)
  exact fst.riflette.succ_eq

theorem Accodata.unita
    (accodata : Accodata h (front ++ [p]) h₁ z) (settled : Block.Settled (front ++ [p]))
    (pFree : p.free = true) (touch : p.stop = z.start) :
    Immutata h (front ++ [p])
        (cassettoMetti (unisci (cassettoTogli h₁ p.start) p.start z.start) p.start)
        (front ++ [{ p with size := p.size + z.size }]) := by
  have shape : front ++ [p] ++ [z] = front ++ [p, z] := append_assoc _ _ _
  have inv := accodata.coerente
  rw [shape] at inv
  have pMember : p ∈ front ++ [p, z] := mem_append_cons_self
  have differ : z.start ≠ p.start := inv.disposti.altri_start mem_append_cons_self
  have sameCovered : ∀ a, Block.Covered (front ++ [{ p with size := p.size + z.size }]) a ↔
      Block.Covered (front ++ [p, z]) a := fun a =>
    covered_join rfl touch (stop_join touch) (Nat.le_add_right _ _)
      (Nat.le_add_right _ _)
  have usati : ∀ y : Block, y.free = false →
      (y ∈ front ++ [{ p with size := p.size + z.size }] ↔ y ∈ front ++ [p]) := by
    intro y busy
    rw [mem_libero pFree busy]
    exact mem_libero pFree busy
  obtain ⟨fst, firstSame, firstSpazio⟩ := inv.togli pMember rfl pFree
    (fun wrong => differ (mem_singleton.mp wrong).symm)
  obtain ⟨joined, joinedSame, joinedSpazio⟩ := fst.unisci [p.start] touch (.inr mem_cons_self)
    (.inr (mem_cons_of_mem _ mem_cons_self)) (.inr mem_cons_self)
    (fun c other => by simp only [mem_cons, other, not_mem_nil, or_false])
  obtain ⟨placed, samePlaced, placedSpazio⟩ :=
    joined.metti (x := { p with size := p.size + z.size })
    mem_append_cons_self rfl pFree not_mem_nil
  have isSpazio := placedSpazio.trans (joinedSpazio.trans firstSpazio)
  refine ⟨⟨placed, settled.same_start rfl rfl, ?_, ?_⟩, usati, ?_⟩
  · intro a
    rw [isSpazio, sameCovered, ← shape]
    exact accodata.coperti a
  · rw [isSpazio]
    exact accodata.spazio
  · intro a used
    have still : Occupato (front ++ [p, z]) a := shape ▸ used.mono fun _ _ => mem_append_left _
    have later := used.mono fun y busy => (usati y busy).mpr
    exact (samePlaced a later).trans ((joinedSame a still).trans
      ((firstSame a still).trans (accodata.intatta a used)))

/-- `heap_estendi`: nothing changes, or the list ends with a free block that is long enough. -/
theorem Sano.estendi (sano : Sano h bs []) (mul : utile % 16 = 0) (small : utile ≤ 2 ^ 31 - 4112) :
    heapEstendi h utile pagine = (h, 0) ∨
      ∃ h' front z, heapEstendi h utile pagine = (h', z.start) ∧ Immutata h bs h' (front ++ [z]) ∧
        z.free = true ∧ utile + 16 ≤ z.size := by
  obtain ⟨whole, enough, long, short⟩ := quantoEstendi_facts mul small
  rw [heapEstendi]
  generalize quantoEstendi utile = quanto at whole enough long short
  rcases sano.spazio.sbrk_cresce whole (by omega) short with
    ⟨r, isR, refused⟩ | ⟨pos, fits, isR⟩
  · rw [isR, if_pos refused]
    exact .inl rfl
  · right
    have given : nonDato h.spazio.heapEnd = false :=
      nonDato_pagina pos sano.spazio.pagina sano.spazio.fine
    have accodata := sano.accodata whole long pos fits
    have isPrec :
      (accoda { h with spazio := h.spazio.cresciuto quanto } h.spazio.heapEnd quanto).prec
        h.spazio.heapEnd = (bs.map start).getLastD 0 := accodata.coerente.riflette.prec_eq
    rw [isR]
    dsimp only
    rw [given]
    generalize accoda { h with spazio := h.spazio.cresciuto quanto } h.spazio.heapEnd quanto = h₁
      at accodata isPrec
    rcases sano.coerente.riflette.ultimo_cases with ⟨empty, _, _⟩ | ⟨front, p, shape, _⟩
    · have fst : ¬(h₁.prec h.spazio.heapEnd ≠ 0 ∧ h₁.libero (h₁.prec h.spazio.heapEnd) ≠ 0 ∧
          h₁.fineDi (h₁.prec h.spazio.heapEnd) = h.spazio.heapEnd) := by
        rw [isPrec, empty]
        exact fun both => both.1 rfl
      rw [if_neg fst]
      have settled : Block.Settled (bs ++ [⟨h.spazio.heapEnd, quanto, true⟩]) := by
        rw [empty]
        exact isChain_singleton _
      exact ⟨_, bs, _, rfl, accodata.sola settled, rfl, enough⟩
    · subst shape
      have pMember : p ∈ front ++ [p] ++ [⟨h.spazio.heapEnd, quanto, true⟩] :=
        mem_append_left _ mem_append_cons_self
      have zMem : ⟨h.spazio.heapEnd, quanto, true⟩ ∈
          front ++ [p] ++ [⟨h.spazio.heapEnd, quanto, true⟩] :=
        mem_append_right _ mem_cons_self
      have isP : h₁.prec h.spazio.heapEnd = p.start := by
        rw [isPrec, map_append, map_singleton, getLastD_append_cons]
        rfl
      have isFine := accodata.coerente.fineDi pMember
      have isFree := accodata.coerente.libero_iff pMember
      have pFacts := accodata.coerente.disposti.multipli p pMember
      have zFacts := accodata.coerente.disposti.multipli _ zMem
      rw [isP]
      by_cases near : p.free = true ∧ p.stop = h.spazio.heapEnd
      · have merges : p.start ≠ 0 ∧ h₁.libero p.start ≠ 0 ∧ h₁.fineDi p.start = h.spazio.heapEnd :=
          ⟨by omega, isFree.mpr near.1, isFine.trans near.2⟩
        have differ : h.spazio.heapEnd ≠ p.start := by
          have pLong := accodata.coerente.disposti.lungo pMember
          have touch := near.2
          rw [stop] at touch
          omega
        have immutata := accodata.unita sano.quieta near.1 near.2
        have writes := unisci_ultimo pFacts.1 zFacts.1 differ (accodata.succ_nullo near.1 differ)
        rw [if_pos merges, ← writes]
        refine ⟨_, front, { p with size := p.size + quanto }, rfl, immutata, near.1, ?_⟩
        show utile + 16 ≤ p.size + quanto
        omega
      · have apart : ¬(p.start ≠ 0 ∧ h₁.libero p.start ≠ 0 ∧
          h₁.fineDi p.start = h.spazio.heapEnd) := by
          rintro ⟨_, free, meets⟩
          exact near ⟨isFree.mp free, isFine.symm.trans meets⟩
        rw [if_neg apart]
        have settled : Block.Settled (front ++ [p] ++ [⟨h.spazio.heapEnd, quanto, true⟩]) := by
          refine isChain_append.mpr ⟨sano.quieta, isChain_singleton _, ?_⟩
          rintro y isLast z isHead ⟨yFree, _, touch⟩
          rw [List.getLast?_concat] at isLast
          rw [← Option.some.inj isHead, ← Option.some.inj isLast] at touch
          rw [← Option.some.inj isLast] at yFree
          exact near ⟨yFree, touch⟩
        exact ⟨_, front ++ [p], _, rfl, accodata.sola settled, rfl, enough⟩

end Extend

section Take

variable {h : Heap} {bs pre after : List Block} {x : Block} {utile size : Nat}

/-- One block more is in use: `x`, which the caller gets. -/
structure Assegna (h : Heap) (bs : List Block) (h' : Heap) (bs' : List Block) (x : Block) :
    Prop where
  sano : Sano h' bs' []
  usato : x.free = false
  membri : ∀ y : Block, y.free = false → (y ∈ bs' ↔ y = x ∨ y ∈ bs)
  nuovo : x ∉ bs
  intatta : Intatta bs h h'

theorem Assegna.dopo {h₁ h' : Heap} {bs₁ bs' : List Block} (assegna : Assegna h₁ bs₁ h' bs' x)
    (immutata : ∀ y : Block, y.free = false → (y ∈ bs₁ ↔ y ∈ bs)) (same : Intatta bs h h₁) :
    Assegna h bs h' bs' x := by
  refine ⟨assegna.sano, assegna.usato, ?_, ?_, ?_⟩
  · intro y busy
    rw [assegna.membri y busy, immutata y busy]
  · rw [← immutata x assegna.usato]
    exact assegna.nuovo
  · intro a used
    exact (assegna.intatta a (used.mono fun y busy => (immutata y busy).mpr)).trans (same a used)

theorem Sano.prendi (sano : Sano h (pre ++ x :: after) [x.start]) (free : x.free = true)
    (mul : utile % 16 = 0) (room : utile + 16 ≤ x.size) (small : utile + 48 < 2 ^ 32) :
    Assegna h (pre ++ x :: after) (heapSpezza (h.setLibero x.start 0) x.start utile)
      (pre ++ trim (utile + 16) 48 { x with free := false } after)
      (kept (utile + 16) 48 { x with free := false }) := by
  obtain ⟨taken, sameTaken⟩ := sano.coerente.occupa
  obtain ⟨cut, spazioCut, sameCut⟩ := taken.spezza rfl mul room small
  have settled := settled_split.mp sano.quieta
  have facts := kept_facts (x := { x with free := false }) (utile + 16) 48 room
  refine ⟨sano.cambia cut ?_ spazioCut ?_, facts.2.1, ?_, ?_, ?_⟩
  · exact Block.Settled.trim (isChain_append.mp settled.1).1 (isChain_cons.mp settled.2).2 rfl
  · intro a
    rw [covered_trim]
    exact covered_same (z := { x with free := false }) rfl rfl
  · intro y busy
    rw [mem_trim busy, mem_libero free busy]
  · intro mem
    have same := sano.coerente.disposti.apart.start_injective mem mem_append_cons_self facts.1
    have busy := facts.2.1
    rw [same, free] at busy
    cases busy
  · intro a used
    have away := sano.coerente.disposti.fuori mem_append_cons_self free used
    have still : Occupato (pre ++ { x with free := false } :: after) a :=
      used.mono fun y busy mem => mem_middle.mpr (.inr ((mem_libero free busy).mp mem))
    refine (sameCut a still ?_).trans (sameTaken a used)
    show a < x.start + (utile + 16) ∨ x.stop ≤ a
    omega

theorem Sano.togli (sano : Sano h (pre ++ x :: after) []) (free : x.free = true) :
    Sano (cassettoTogli h x.start) (pre ++ x :: after) [x.start] ∧
      Intatta (pre ++ x :: after) h (cassettoTogli h x.start) := by
  obtain ⟨inv, same, isSpazio⟩ := sano.coerente.togli mem_append_cons_self rfl free not_mem_nil
  exact ⟨sano.cambia inv sano.quieta isSpazio fun _ => Iff.rfl, same⟩

theorem Sano.stacca (sano : Sano h (pre ++ x :: after) []) (free : x.free = true)
    (mul : utile % 16 = 0) (room : utile + 16 ≤ x.size) (small : utile + 48 < 2 ^ 32) :
    Assegna h (pre ++ x :: after)
      (heapSpezza ((cassettoTogli h x.start).setLibero x.start 0) x.start utile)
      (pre ++ trim (utile + 16) 48 { x with free := false } after)
      (kept (utile + 16) 48 { x with free := false }) := by
  obtain ⟨out, same⟩ := sano.togli free
  exact (out.prendi free mul room small).dopo (fun _ _ => Iff.rfl) same

theorem heapAllinea_facts (size : Nat) (small : size ≤ 2 ^ 31 - 4112) :
    heapAllinea (if size = 0 then 1 else size) % 16 = 0 ∧
      size ≤ heapAllinea (if size = 0 then 1 else size) ∧
      0 < heapAllinea (if size = 0 then 1 else size) ∧
      heapAllinea (if size = 0 then 1 else size) ≤ 2 ^ 31 - 4112 ∧
      ¬heapAllinea (if size = 0 then 1 else size) < if size = 0 then 1 else size := by
  rw [heapAllinea_eq (by split <;> omega)]
  split <;> omega

/-- `heap_malloc` returns: null and nothing changed, or one block more in use, of at least
`size` bytes. -/
theorem Sano.malloc (size : Nat) (sano : Sano h bs []) (pagine : Bool)
    (small : size ≤ 2 ^ 31 - 4112) :
    heapMalloc h size pagine = some (h, 0) ∨
      ∃ h' bs' x, heapMalloc h size pagine = some (h', x.start + 16) ∧ Assegna h bs h' bs' x ∧
        size + 16 ≤ x.size := by
  obtain ⟨mul, covers, pos, limit, noWrap⟩ := heapAllinea_facts size small
  rw [heapMalloc]
  rw [if_neg noWrap]
  generalize heapAllinea (if size = 0 then 1 else size) = utile at mul covers pos limit
  -- A free block that is long enough, whichever way it was found.
  have takes : ∀ {h₁ : Heap} {pre after : List Block} {x : Block},
      Sano h₁ (pre ++ x :: after) [] → x.free = true → utile + 16 ≤ x.size →
      (∀ y : Block, y.free = false → (y ∈ pre ++ x :: after ↔ y ∈ bs)) → Intatta bs h h₁ →
      ∃ h' bs' z, some (heapSpezza ((cassettoTogli h₁ x.start).setLibero x.start 0) x.start utile,
          parola32 (x.start + bloccoHdr)) = some (h', start z + 16) ∧
        Assegna h bs h' bs' z ∧ size + 16 ≤ z.size := by
    intro h₁ pre after x sano₁ free room usati same
    have facts := kept_facts (x := { x with free := false }) (utile + 16) 48 room
    have places := sano₁.coerente.disposti.multipli x mem_append_cons_self
    rw [stop] at places
    have assegna := (sano₁.stacca free mul room (by omega)).dopo usati same
    refine ⟨_, _, _, ?_, assegna, by omega⟩
    rw [facts.1, parola32_of_lt (by rw [bloccoHdr]; omega)]
    rfl
  rcases sano.coerente.cerca utile with none | ⟨pre, x, after, shape, free, room, hit⟩
  · rw [none, Option.bind_eq_bind, Option.bind_some]
    dsimp only
    rcases sano.estendi mul limit with
      refused | ⟨h₁, front, z, extended, immutata, free, room⟩
    · rw [refused]
      exact .inl rfl
    · have zFacts := immutata.sano.coerente.disposti.multipli z mem_append_cons_self
      have notNull : z.start ≠ 0 := by omega
      right
      rw [extended]
      rw [if_neg notNull]
      exact takes immutata.sano free room immutata.usati immutata.intatta
  · subst shape
    have xFacts := sano.coerente.disposti.multipli x mem_append_cons_self
    have notNull : x.start ≠ 0 := by omega
    right
    rw [hit, Option.bind_eq_bind, Option.bind_some]
    dsimp only
    rw [if_pos notNull]
    exact takes sano free room (fun _ _ => Iff.rfl) (Intatta.refl _ _)

end Take

section GiveBack

variable {h : Heap} {bs pre after : List Block} {x : Block} {quanto : Nat} {pagine : Bool}

theorem Sano.immutata (sano : Sano h bs []) : Immutata h bs h bs :=
  ⟨sano, fun _ _ => Iff.rfl, Intatta.refl bs h⟩

theorem Sano.errno (sano : Sano h bs []) (e : Nat) : Immutata h bs { h with errno := e } bs :=
  ⟨{ sano with coerente := sano.coerente.ambiente }, fun _ _ => Iff.rfl, fun _ _ => rfl⟩

theorem Immutata.trans {h₁ h₂ : Heap} {bs₁ bs₂ : List Block} (fst : Immutata h bs h₁ bs₁)
    (snd : Immutata h₁ bs₁ h₂ bs₂) : Immutata h bs h₂ bs₂ := by
  refine ⟨snd.sano, fun y busy => (snd.usati y busy).trans (fst.usati y busy), ?_⟩
  intro a used
  exact (snd.intatta a (used.mono fun y busy => (fst.usati y busy).mpr)).trans (fst.intatta a used)

theorem sbrk_zero :
    ∃ e r, sbrk h 0 pagine = ({ h with errno := e }, r) ∧ (r = menoUno ∨ r = h.spazio.heapEnd) := by
  rw [sbrk, sysSbrk]
  split
  · split
    · exact ⟨_, _, rfl, .inl rfl⟩
    case isFalse given => exact absurd (nonDato_errore (by decide) (by decide)) given
  rw [if_pos rfl]
  split
  · exact ⟨_, _, rfl, .inl rfl⟩
  · exact ⟨h.errno, _, rfl, .inr rfl⟩

theorem sbrk_riduce (sano : SpazioSano h.spazio) (pagine : Bool) (whole : quanto % 4096 = 0)
    (pos : 0 < quanto) (le : quanto ≤ h.spazio.heapEnd) :
    (∃ e, sbrk h (meno32 0 quanto) pagine = ({ h with errno := e }, menoUno)) ∨
      (h.spazio.heapStart + quanto ≤ h.spazio.heapEnd ∧ sbrk h (meno32 0 quanto) pagine =
          ({ h with spazio := h.spazio.ridotto quanto }, h.spazio.heapEnd)) := by
  rw [sbrk]
  rcases sano.sbrk_riduce pagine whole pos le with ⟨r, isR, refused⟩ | ⟨room, isR⟩
  · rw [isR]
    rw [if_pos refused]
    exact .inl ⟨_, rfl⟩
  have given := nonDato_pagina (by omega) sano.pagina sano.fine
  rw [isR]
  rw [given]
  exact .inr ⟨room, rfl⟩

theorem Sano.taglia (quanto : Nat) (sano : Sano h (pre ++ [x]) []) (free : x.free = true)
    (last : x.stop = h.spazio.heapEnd) (whole : quanto % 4096 = 0) (less : quanto + 65536 ≤ x.size)
    (room : h.spazio.heapStart + quanto ≤ h.spazio.heapEnd) :
    Immutata h (pre ++ [x])
      (cassettoMetti
        ((cassettoTogli { h with spazio := h.spazio.ridotto quanto } x.start).setDim x.start
        (x.size - quanto - 16)) x.start)
      (pre ++ [{ x with size := x.size - quanto }]) := by
  have xMem : x ∈ pre ++ [x] := mem_append_cons_self
  have facts := sano.coerente.disposti.multipli x xMem
  obtain ⟨out, sameOut, spazioOut⟩ := sano.coerente.ambiente.togli xMem rfl free not_mem_nil
  obtain ⟨cut, sameCut⟩ := out.accorcia (x.size - quanto) (Nat.sub_le _ _) (by omega) (by omega)
  obtain ⟨placed, samePlaced, spazioPlaced⟩ := cut.metti (x := { x with size := x.size - quanto })
    mem_append_cons_self rfl free not_mem_nil
  have isSpazio := spazioPlaced.trans spazioOut
  have isStop : stop { x with size := x.size - quanto } = h.spazio.heapEnd - quanto := by
    simp only [stop] at last ⊢
    omega
  have usati : ∀ y : Block, y.free = false →
      (y ∈ pre ++ [{ x with size := x.size - quanto }] ↔ y ∈ pre ++ [x]) := by
    intro y busy
    rw [mem_libero free busy]
    exact mem_libero free busy
  refine ⟨⟨placed, ?_, ?_, ?_⟩, usati, ?_⟩
  · exact sano.quieta.same_start rfl rfl
  · intro a
    rw [isSpazio,
      sano.coerente.disposti.apart.covered_cut (z := { x with size := x.size - quanto }) rfl
      (by rw [isStop, last]; exact Nat.sub_le _ _), ← sano.coperti a, isStop, Spazio.ridotto,
      Bool.and_eq_true, decide_eq_true_iff]
  · rw [isSpazio]
    exact sano.spazio.ridotto whole room
  · intro a used
    have later := used.mono fun y busy => (usati y busy).mpr
    exact (samePlaced a later).trans ((sameCut a used).trans (sameOut a used))

theorem Sano.restituisci (sano : Sano h bs []) :
    ∃ bs', Immutata h bs (heapRestituisci h pagine) bs' := by
  rw [heapRestituisci]
  dsimp only
  split
  · exact ⟨bs, sano.immutata⟩
  split
  · exact ⟨bs, sano.immutata⟩
  rename_i some
  rcases sano.coerente.riflette.ultimo_cases with ⟨_, _, none⟩ | ⟨front, x, shape, isLast⟩
  · exact absurd (.inl none) some
  subst shape
  have xMem : x ∈ front ++ [x] := mem_append_cons_self
  have isDim := sano.coerente.dim xMem
  have facts := sano.coerente.disposti.multipli x xMem
  rw [stop] at facts
  rw [isLast] at some ⊢
  have free := (sano.coerente.libero_iff xMem).mp (fun busy => some (.inr busy))
  have isTotal : parola32 (bloccoHdr + h.dim x.start) = x.size := by
    rw [parola32_of_lt (by rw [bloccoHdr]; omega), bloccoHdr]
    omega
  rw [isTotal]
  split
  · exact ⟨_, sano.immutata⟩
  split
  · exact ⟨_, sano.immutata⟩
  rename_i long enough
  have isQuanto : ((x.size - heapTrattieni) / heapPagina * heapPagina) % 4096 = 0 ∧
      (x.size - heapTrattieni) / heapPagina * heapPagina + 65536 ≤ x.size := by
    rw [heapTrattieni] at long ⊢
    rw [heapPagina]
    omega
  rw [heapMinReso] at enough
  generalize (x.size - heapTrattieni) / heapPagina * heapPagina = quanto at enough isQuanto
  obtain ⟨e, cima, zero, place⟩ := sbrk_zero
  have noted := sano.errno e
  rw [zero]
  dsimp only
  split
  · exact ⟨_, noted⟩
  split
  · exact ⟨_, noted⟩
  rename_i known meets
  have last : x.stop = h.spazio.heapEnd := by
    rw [← place.resolve_left known, stop, ← not_not.mp meets, parola32_of_lt facts.2.2.2]
  have le : quanto ≤ h.spazio.heapEnd := by
    rw [← last, stop]
    omega
  have cuts := fun room => noted.sano.taglia quanto free last isQuanto.1 isQuanto.2 room
  have isLeft : (cassettoTogli { h with errno := e, spazio := h.spazio.ridotto quanto }
      x.start).dim x.start + 16 = x.size :=
    (noted.sano.coerente.ambiente.togli xMem rfl free not_mem_nil).1.dim xMem
  rcases sbrk_riduce noted.sano.spazio pagine isQuanto.1 (by omega) le with
    ⟨e', refused⟩ | ⟨room, given⟩
  · rw [refused]
    exact ⟨_, noted.trans (noted.sano.errno e')⟩
  · have notRefused : h.spazio.heapEnd ≠ menoUno := by
      omega
    rw [given]
    have isNew : meno32 ((cassettoTogli { h with errno := e, spazio := h.spazio.ridotto quanto }
        x.start).dim x.start) quanto = x.size - quanto - 16 := by
      rw [meno32_of_le (by omega) (by omega)]
      omega
    rw [if_neg notRefused, isNew]
    exact ⟨_, noted.trans (cuts room)⟩

end GiveBack

section Release

variable {h : Heap} {bs pre after : List Block} {x : Block} {a : Nat}

/-- One block less is in use. -/
structure Rilascia (h : Heap) (bs : List Block) (h' : Heap) (bs' : List Block) (x : Block) :
    Prop where
  sano : Sano h' bs' []
  membri : ∀ y : Block, y.free = false → (y ∈ bs' ↔ y ≠ x ∧ y ∈ bs)
  intatta : ∀ a, Occupato bs a → a < x.start + 16 ∨ x.stop ≤ a → h'.mem a = h.mem a

theorem Rilascia.poi {h₁ h₂ : Heap} {bs₁ bs₂ : List Block} (fst : Rilascia h bs h₁ bs₁ x)
    (snd : Immutata h₁ bs₁ h₂ bs₂) : Rilascia h bs h₂ bs₂ x := by
  refine ⟨snd.sano, fun y busy => (snd.usati y busy).trans (fst.membri y busy), ?_⟩
  intro a used out
  have still := used.fuori out fun y busy notX mem => (fst.membri y busy).mpr ⟨notX, mem⟩
  exact (snd.intatta a still).trans (fst.intatta a used out)

theorem Occupato.altri (used : Occupato (pre ++ x :: after) a)
    (out : a < x.start + 16 ∨ x.stop ≤ a) {z : Block} :
    Occupato (pre ++ z :: after) a :=
  used.fuori out fun _ _ notX mem =>
    mem_middle.mpr (.inr ((mem_middle.mp mem).resolve_left notX))

/-- The first writes of `heap_free`: the block becomes free and goes into its drawer. -/
theorem Coerente.libera_metti (inv : Coerente h (pre ++ x :: after) []) (busy : x.free = false) :
    Coerente (cassettoMetti (h.setLibero x.start 1) x.start)
        (pre ++ { x with free := true } :: after) [] ∧
      (cassettoMetti (h.setLibero x.start 1) x.start).spazio = h.spazio ∧
      ∀ a, Occupato (pre ++ x :: after) a → a < x.start + 16 ∨ x.stop ≤ a →
        (cassettoMetti (h.setLibero x.start 1) x.start).mem a = h.mem a := by
  obtain ⟨freed, sameFreed⟩ := inv.libera busy
  obtain ⟨placed, samePlaced, spazioPlaced⟩ := freed.metti (x := { x with free := true })
    mem_append_cons_self rfl rfl not_mem_nil
  refine ⟨placed, spazioPlaced, ?_⟩
  intro a used out
  exact (samePlaced a (used.altri out)).trans (sameFreed a used)

theorem Coerente.meno_intestazione (inv : Coerente h bs []) (mem : x ∈ bs) :
    meno32 (x.start + 16) bloccoHdr = x.start ∧ x.start + 16 < 2 ^ 32 := by
  have facts := inv.disposti.multipli x mem
  have long := inv.disposti.lungo mem
  rw [stop] at facts
  rw [meno32_of_le (by omega) (by rw [bloccoHdr]; omega), bloccoHdr]
  omega

theorem Sano.rilascia (sano : Sano h (pre ++ x :: after) []) (busy : x.free = false)
    (pagine : Bool) :
    ∃ bs', Rilascia h (pre ++ x :: after) (heapFree h (x.start + 16) pagine) bs' x := by
  have inv := sano.coerente
  have xMem : x ∈ pre ++ x :: after := mem_append_cons_self
  obtain ⟨isBlock, _⟩ := inv.meno_intestazione xMem
  obtain ⟨fst, spazioFirst, sameFirst⟩ := inv.libera_metti busy
  have settled := (settled_busy busy).mp sano.quieta
  rw [heapFree, if_neg (by omega), isBlock]
  dsimp only
  rw [if_neg (not_not_intro (inv.libero_zero xMem busy))]
  generalize cassettoMetti (h.setLibero x.start 1) x.start = h₁ at fst spazioFirst sameFirst
  have snd := fst.fondi
  generalize heapFondiConSucc h₁ x.start = h₂ at snd
  obtain ⟨w, rest, shape, sameStart⟩ := absorb_head { x with free := true } after
  have third := snd.coerente
  rw [shape] at third
  have third := third.fondi_prec
  have isStart : w.start = x.start := sameStart
  rw [isStart] at third
  generalize (if h₂.prec x.start ≠ 0 then heapFondiConSucc h₂ (h₂.prec x.start) else h₂) =
    h₃ at third
  rw [← shape] at third
  have usati : ∀ y : Block, y.free = false →
      (y ∈ absorbLast pre (absorb { x with free := true } after) ↔
        y ∈ pre ++ after) := by
    intro y yBusy
    rw [mem_absorbLast yBusy, mem_absorb rfl yBusy]
  have released : Rilascia h (pre ++ x :: after) h₃
      (absorbLast pre (absorb { x with free := true } after)) x := by
    refine ⟨sano.cambia third.coerente ?_ (third.spazio.trans (snd.spazio.trans spazioFirst)) ?_,
      ?_, ?_⟩
    · exact settled.1.absorbLast settled.2.absorb
    · intro a
      rw [covered_absorbLast, covered_absorb]
      exact covered_same (z := { x with free := true }) rfl rfl
    · intro y yBusy
      rw [usati y yBusy, inv.disposti.senza]
    · intro a used out
      have freed : Occupato (pre ++ { x with free := true } :: after) a := used.altri out
      have later : Occupato (pre ++ absorb { x with free := true } after) a := by
        refine freed.mono fun y yBusy mem => ?_
        rw [mem_absorb rfl yBusy]
        exact (mem_libero rfl yBusy).mp mem
      exact (third.intatta a later).trans ((snd.intatta a freed).trans (sameFirst a used out))
  split
  · obtain ⟨bs', immutata⟩ := released.sano.restituisci
    exact ⟨bs', released.poi immutata⟩
  · exact ⟨_, released⟩

theorem Sano.libera (sano : Sano h bs []) (mem : x ∈ bs) (busy : x.free = false) (pagine : Bool) :
    ∃ bs', Rilascia h bs (heapFree h (x.start + 16) pagine) bs' x := by
  obtain ⟨pre, after, shape⟩ := append_of_mem mem
  subst shape
  exact sano.rilascia busy pagine

end Release

end ExOs.Libc
