import ExOs.Libc.HeapChiamate

/-!
# The other calls of the heap

`calloc`, `realloc` and `memalign`, and what a program writes in its own blocks.  A
block that changes size in place keeps its beginning; one that moves takes its bytes
along before the old place is freed.
-/

namespace ExOs.Libc

open ExOs.Library List ExOs.Library.Block

section Write

variable {h : Heap} {bs : List Block} {x : Block} {size : Nat}

theorem Coerente.scrive (inv : Coerente h bs []) (mem : Buffer)
    (same : ∀ a, ¬Occupato bs a → mem a = h.mem a) : Coerente { h with mem := mem } bs [] := by
  have laid := inv.disposti
  have word : ∀ w, (∀ a, w ≤ a → a < w + 4 → ¬Occupato bs a) →
      Heap.parola { h with mem := mem } w = h.parola w :=
    fun w out => Buffer.le32_congr fun a lower upper => same a (out a lower upper)
  obtain ⟨liste, linked⟩ := inv.cassetti
  obtain ⟨globali, headers⟩ := (riflette_iff laid).mp inv.riflette
  obtain ⟨ordinati, heads, links⟩ := (legami_iff laid).mp linked
  refine ⟨(riflette_iff laid).mpr ⟨globali, fun w header => ?_⟩, laid, liste,
    (legami_iff laid).mpr ⟨ordinati, heads, fun w link => ?_⟩⟩
  · refine (word _ ?_).trans (headers w header)
    intro a lower upper used
    obtain ⟨y, member, k, small, isW⟩ := header.posto
    have away := laid.fuori_intestazione member used
    omega
  · refine (word _ ?_).trans (links w link)
    intro a lower upper used
    obtain ⟨i, b, ⟨_, y, member, isB, free, long, _⟩, isW⟩ := ordinati.posto link
    have mul := (laid.multipli y member).2.1
    have apart := laid.fuori member free used
    rw [stop] at apart
    omega

theorem Sano.scrive (sano : Sano h bs []) (mem : Buffer)
    (same : ∀ a, ¬Occupato bs a → mem a = h.mem a) : Sano { h with mem := mem } bs [] :=
  { sano with coerente := sano.coerente.scrive mem same }

theorem Disposti.diversi (laid : Disposti bs) {y : Block} {a : Nat} (xMem : x ∈ bs)
    (yMem : y ∈ bs) (other : y ≠ x) (inX : x.start ≤ a ∧ a < x.stop)
    (inY : y.start ≤ a ∧ a < y.stop) : False := by
  rcases laid.apart.separate xMem yMem with equal | fst | snd
  · exact other equal.symm
  · omega
  · omega

theorem Assegna.scrive {h' : Heap} {bs' : List Block} (assegna : Assegna h bs h' bs' x)
    (mem : Buffer)
    (same : ∀ a, ¬(x.start + 16 ≤ a ∧ a < x.stop) → mem a = h'.mem a) :
    Assegna h bs { h' with mem := mem } bs' x := by
  have xMem : x ∈ bs' := (assegna.membri x assegna.usato).mpr (.inl rfl)
  refine { assegna with sano := assegna.sano.scrive mem ?_, intatta := ?_ }
  · intro a unused
    refine same a ?_
    rintro ⟨lower, upper⟩
    exact unused ⟨x, xMem, assegna.usato, lower, upper⟩
  · intro a used
    refine (same a ?_).trans (assegna.intatta a used)
    rintro ⟨lower, upper⟩
    obtain ⟨y, member, busy, yLower, yUpper⟩ := used
    refine assegna.sano.coerente.disposti.diversi (a := a) xMem
      ((assegna.membri y busy).mpr (.inr member)) ?_ ⟨by omega, upper⟩ ⟨by omega, yUpper⟩
    intro isX
    rw [isX] at member
    exact assegna.nuovo member

theorem calloc_entra {nmemb size : Nat} : ¬(nmemb ≠ 0 ∧ nmemb * size / nmemb ≠ size) := by
  rintro ⟨nonZero, wrong⟩
  exact wrong (Nat.mul_div_cancel_left size (Nat.pos_of_ne_zero nonZero))

/-- `heap_calloc`, where the product does not wrap: as `heap_malloc`, and the bytes are zero. -/
theorem Sano.calloc (nmemb size : Nat) (sano : Sano h bs []) (pagine : Bool)
    (small : nmemb * size ≤ 2 ^ 31 - 4112) :
    heapCalloc h nmemb size pagine = some (h, 0) ∨
      ∃ h' bs' x, heapCalloc h nmemb size pagine = some (h', x.start + 16) ∧ Assegna h bs h' bs' x ∧
        nmemb * size + 16 ≤ x.size ∧ ∀ i < nmemb * size, h'.mem (x.start + 16 + i) = 0 := by
  have isTot : parola32 (nmemb * size) = nmemb * size := parola32_of_lt (by omega)
  rw [heapCalloc]
  rw [isTot, if_neg calloc_entra]
  rcases sano.malloc _ pagine small with refused | ⟨h', bs', x, runs, assegna, long⟩
  · rw [refused]
    exact .inl rfl
  right
  rw [runs]
  refine ⟨_, bs', x, rfl, assegna.scrive _ ?_, long, ?_⟩
  · intro a out
    refine Buffer.fill_outside _ ?_
    rw [stop] at out
    omega
  · intro i lt
    exact Buffer.fill_inside _ (Nat.le_add_right _ _) (by omega)

end Write

/-! ## A block changes size -/

section Resize

variable {h : Heap} {bs pre after : List Block} {x y : Block} {utile size : Nat} {bs₁ : List Block}
  {x' : Block} {h₁ : Heap}

/-- The block `x` becomes `x'`, with the bytes they have in common. -/
structure Ridimensiona (h : Heap) (bs : List Block) (h' : Heap) (bs' : List Block) (x x' : Block)
    (size : Nat) : Prop where
  sano : Sano h' bs' []
  usato : x'.free = false
  lungo : size + 16 ≤ x'.size
  membri : ∀ y : Block, y.free = false → (y ∈ bs' ↔ y = x' ∨ (y ≠ x ∧ y ∈ bs))
  nuovo : x' ∈ bs → x' = x
  intatta : ∀ a, Occupato bs a → a < x.start + 16 ∨ x.stop ≤ a → h'.mem a = h.mem a
  contenuto : ∀ i < size, i + 16 < x.size → h'.mem (x'.start + 16 + i) = h.mem (x.start + 16 + i)

theorem Sano.spezza (size : Nat) (sano : Sano h (pre ++ x :: after) []) (busy : x.free = false)
    (mul : utile % 16 = 0) (room : utile + 16 ≤ x.size) (small : utile + 48 < 2 ^ 32)
    (enough : size ≤ utile) :
    Ridimensiona h (pre ++ x :: after) (heapSpezza h x.start utile)
      (pre ++ trim (utile + 16) 48 x after) x (kept (utile + 16) 48 x) size := by
  obtain ⟨cut, spazioCut, sameCut⟩ := sano.coerente.spezza busy mul room small
  have xMem : x ∈ pre ++ x :: after := mem_append_cons_self
  have settled := (settled_busy busy).mp sano.quieta
  have facts := kept_facts (utile + 16) 48 room
  refine ⟨sano.cambia cut (settled.1.trim settled.2 busy) spazioCut fun a => covered_trim ..,
    facts.2.1.trans busy, by omega, ?_, ?_, ?_, ?_⟩
  · intro y yBusy
    rw [mem_trim yBusy, sano.coerente.disposti.senza]
  · intro mem
    exact sano.coerente.disposti.apart.start_injective mem xMem facts.1
  · intro a used out
    exact sameCut a used (by omega)
  · intro i lt within
    rw [facts.1]
    refine sameCut _ ⟨x, xMem, busy, by omega, ?_⟩ (by omega)
    rw [stop]
    omega

theorem Ridimensiona.ancora {a : Nat}
    (resized : Ridimensiona h bs h₁ bs₁ x x' size) (used : Occupato bs a)
    (out : a < x.start + 16 ∨ x.stop ≤ a) : Occupato bs₁ a :=
  used.fuori out fun y busy notX mem => (resized.membri y busy).mpr (.inr ⟨notX, mem⟩)

theorem Ridimensiona.poi {h₁ h₂ : Heap}
    (fst : Ridimensiona h bs h₁ bs₁ x x' size) (snd : Passa h₁ bs₁ h₂ bs₁) :
    Ridimensiona h bs h₂ bs₁ x x' size := by
  have long := fst.lungo
  refine { fst with
    sano := fst.sano.cambia snd.coerente fst.sano.quieta snd.spazio fun _ => Iff.rfl
    intatta := ?_, contenuto := ?_ }
  · intro a used out
    exact (snd.intatta a (fst.ancora used out)).trans (fst.intatta a used out)
  · intro i lt within
    have now := (fst.membri x' fst.usato).mpr (.inl rfl)
    refine (snd.intatta _ ⟨x', now, fst.usato, by omega, ?_⟩).trans (fst.contenuto i lt within)
    rw [stop]
    omega

theorem Sano.fondi (sano : Sano h (pre ++ x :: after) []) :
    Passa h (pre ++ x :: after) (heapFondiConSucc h x.start) (pre ++ x :: after) := by
  have merged := sano.coerente.fondi
  split at merged
  case isTrue free =>
    rw [(settled_split.mp sano.quieta).2.absorb_eq free] at merged
    exact merged
  case isFalse => exact merged

theorem Sano.fondi_succ (sano : Sano h bs []) (mem : x ∈ bs) : Passa h bs
      (if h.succ x.start ≠ 0 ∧ h.libero (h.succ x.start) ≠ 0 then
        heapFondiConSucc h (h.succ x.start)
        else h) bs := by
  split
  case isTrue found =>
    obtain ⟨pre, after, shape⟩ := append_of_mem mem
    subst shape
    rcases sano.coerente.riflette.succ_cases with ⟨_, null⟩ | ⟨y, rest, isAfter, isY⟩
    · exact absurd null found.1
    have regroup : pre ++ x :: after = (pre ++ [x]) ++ y :: rest := by
      rw [isAfter, append_assoc, singleton_append]
    rw [isY]
    rw [regroup] at sano ⊢
    exact sano.fondi
  case isFalse => exact sano.coerente.passa

theorem Sano.dentro (size : Nat) (sano : Sano h (pre ++ x :: after) []) (busy : x.free = false)
    (room : heapAllinea size + 16 ≤ x.size) (small : size + 64 < 2 ^ 32) :
    Ridimensiona h (pre ++ x :: after) (reallocDentro h x.start size)
      (pre ++ trim (heapAllinea size + 16) 48 x after) x
      (kept (heapAllinea size + 16) 48 x) size := by
  have isUtile : heapAllinea size = (size + 15) / 16 * 16 := heapAllinea_eq (by omega)
  have facts := kept_facts (heapAllinea size + 16) 48 room
  have cut := sano.spezza size busy (by omega) room (by omega) (by omega)
  have kept := (cut.membri _ cut.usato).mpr (.inl rfl)
  have joined := cut.sano.fondi_succ kept
  rw [facts.1] at joined
  exact cut.poi joined

theorem Sano.allunga (size : Nat) (sano : Sano h (pre ++ x :: y :: after) [])
    (busy : x.free = false)
    (yFree : y.free = true) (touch : x.stop = y.start)
    (room : heapAllinea size + 16 ≤ x.size + y.size)
    (small : size + 64 < 2 ^ 32) :
    Ridimensiona h (pre ++ x :: y :: after)
      (heapSpezza (heapAssorbiSucc h x.start) x.start (heapAllinea size))
      (pre ++ trim (heapAllinea size + 16) 48 { x with size := x.size + y.size } after) x
      (kept (heapAllinea size + 16) 48 { x with size := x.size + y.size }) size := by
  have inv := sano.coerente
  have isUtile : heapAllinea size = (size + 15) / 16 * 16 := heapAllinea_eq (by omega)
  have grown := inv.assorbi_vicino yFree touch
  have isStop := stop_join touch
  have xMem : x ∈ pre ++ x :: y :: after := mem_append_cons_self
  have yMem : y ∈ pre ++ x :: y :: after := mem_middle.mpr (.inr mem_append_cons_self)
  have settled := (settled_busy busy).mp sano.quieta
  have middle : Sano (heapAssorbiSucc h x.start)
      (pre ++ { x with size := x.size + y.size } :: after) [] := by
    refine sano.cambia grown.coerente ?_ grown.spazio fun a =>
      covered_join rfl touch isStop (Nat.le_add_right _ _) (Nat.le_add_right _ _)
    exact (settled_busy (x := { x with size := x.size + y.size }) busy).mpr
      ⟨settled.1, (isChain_cons.mp settled.2).2⟩
  have cut := middle.spezza size busy (by omega) room (by omega) (by omega)
  have others : ∀ z : Block, z.free = false →
    (z ∈ pre ++ after ↔ z ≠ x ∧ z ∈ pre ++ x :: y :: after) := by
    intro z zBusy
    rw [← inv.disposti.senza, mem_libero yFree zBusy]
  have facts :=
    kept_facts (x := { x with size := x.size + y.size }) (heapAllinea size + 16) 48 room
  refine ⟨cut.sano, cut.usato, cut.lungo, ?_, ?_, ?_, ?_⟩
  · intro z zBusy
    rw [mem_trim zBusy, others z zBusy]
  · intro mem
    exact inv.disposti.apart.start_injective mem xMem facts.1
  · intro a used out
    have inOld := used
    obtain ⟨z, mem, zBusy, lower, upper⟩ := used
    have notX : z ≠ x := by
      intro isX
      rw [isX] at lower upper
      omega
    have inNew : z ∈ pre ++ { x with size := x.size + y.size } :: after :=
      mem_middle.mpr (.inr ((others z zBusy).mpr ⟨notX, mem⟩))
    have awayY := inv.disposti.fuori yMem yFree inOld
    refine (cut.intatta a ⟨z, inNew, zBusy, lower, upper⟩ ?_).trans (grown.intatta a inOld)
    show a < x.start + 16 ∨ stop { x with size := x.size + y.size } ≤ a
    omega
  · intro i lt within
    have wider : i + 16 < x.size + y.size := by omega
    refine (cut.contenuto i lt wider).trans ?_
    refine grown.intatta (x.start + 16 + i) ⟨x, xMem, busy, by omega, ?_⟩
    rw [stop]
    omega

theorem Assegna.sposta {copia : Nat}
    (assegna : Assegna h bs h₁ bs₁ x') (xMem : x ∈ bs) (busy : x.free = false)
    (lungo : size + 16 ≤ x'.size)
    (isCopia : copia = if x.size - 16 < size then x.size - 16 else size)
    {pagine : Bool} :
    ∃ bs', Ridimensiona h bs
      (heapFree { h₁ with mem := Buffer.copy h₁.mem (x'.start + 16) h₁.mem (x.start + 16) copia }
        (x.start + 16) pagine) bs' x x' size := by
  have short : copia ≤ size ∧ copia + 16 ≤ x'.size := by
    rw [isCopia]
    split <;> omega
  have written :=
    assegna.scrive (Buffer.copy h₁.mem (x'.start + 16) h₁.mem (x.start + 16) copia) (by
    intro a out
    refine Buffer.copy_outside ?_
    rw [stop] at out
    omega)
  generalize isH₂ :
    { h₁ with mem := Buffer.copy h₁.mem (x'.start + 16) h₁.mem (x.start + 16) copia } = h₂
    at written
  have xNow : x ∈ bs₁ := (written.membri x busy).mpr (.inr xMem)
  have newNow : x' ∈ bs₁ := (written.membri x' written.usato).mpr (.inl rfl)
  have other : x' ≠ x := by
    intro same
    rw [same] at written
    exact written.nuovo xMem
  obtain ⟨bs', rilascia⟩ := written.sano.libera xNow busy pagine
  refine ⟨bs', rilascia.sano, written.usato, lungo, ?_, ?_, ?_, ?_⟩
  · intro y yBusy
    rw [rilascia.membri y yBusy, written.membri y yBusy]
    constructor
    · rintro ⟨notX, isNew | member⟩
      · exact .inl isNew
      · exact .inr ⟨notX, member⟩
    · rintro (isNew | ⟨notX, member⟩)
      · exact ⟨by rw [isNew]; exact other, .inl isNew⟩
      · exact ⟨notX, .inr member⟩
  · intro member
    exact absurd member written.nuovo
  · intro a inUse out
    have still := inUse.mono fun y yBusy member => (written.membri y yBusy).mpr (.inr member)
    exact (rilascia.intatta a still out).trans (written.intatta a inUse)
  · intro i lt within
    have copied : h₂.mem (x'.start + 16 + i) = h₁.mem (x.start + 16 + i) := by
      rw [← isH₂]
      show Buffer.copy h₁.mem (x'.start + 16) h₁.mem (x.start + 16) copia (x'.start + 16 + i) = _
      have inCopy : i < copia := by
        rw [isCopia]
        split <;> omega
      rw [Buffer.copy_inside (by omega) (by omega)]
      congr 1
      omega
    have place : x'.start + 16 + i < x'.stop := by
      rw [stop]
      omega
    have apart : x'.start + 16 + i < x.start + 16 ∨ x.stop ≤ x'.start + 16 + i := by
      rcases written.sano.coerente.disposti.apart.separate newNow xNow with equal | fst | snd
      · exact absurd equal other
      · omega
      · omega
    have old : Occupato bs (x.start + 16 + i) := by
      refine ⟨x, xMem, busy, by omega, ?_⟩
      rw [stop]
      omega
    rw [rilascia.intatta _ ⟨x', newNow, written.usato, by omega, place⟩ apart, copied]
    exact assegna.intatta _ old

/-- `heap_realloc` on a block in use: null and nothing changed, or the block changed size. -/
theorem Sano.realloc (size : Nat) (sano : Sano h bs []) (mem : x ∈ bs) (busy : x.free = false)
    (pagine : Bool)
    (small : size ≤ 2 ^ 31 - 4112) (pos : size ≠ 0) :
    heapRealloc h (x.start + 16) size pagine = some (h, 0) ∨
      ∃ h' bs' x', heapRealloc h (x.start + 16) size pagine = some (h', x'.start + 16) ∧
        Ridimensiona h bs h' bs' x x' size := by
  obtain ⟨isBlock, _⟩ := sano.coerente.meno_intestazione mem
  have isDim := sano.coerente.dim mem
  rw [heapRealloc, if_neg pos, isBlock]
  obtain ⟨pre, after, shape⟩ := append_of_mem mem
  by_cases fits : heapAllinea size ≤ h.dim x.start
  · right
    rw [if_pos fits]
    rw [shape] at sano ⊢
    have resized := sano.dentro size busy (by omega) (by omega)
    have facts := kept_facts (x := x) (heapAllinea size + 16) 48 (by omega)
    refine ⟨_, _, _, ?_, resized⟩
    rw [facts.1]
    rfl
  rw [if_neg fits]
  by_cases next : h.succ x.start ≠ 0 ∧ h.libero (h.succ x.start) ≠ 0 ∧
      h.fineDi x.start = h.succ x.start ∧
      heapAllinea size ≤ parola32 (h.dim x.start + bloccoHdr + h.dim (h.succ x.start))
  · right
    rw [if_pos next]
    obtain ⟨ne, free, meets, room⟩ := next
    rw [shape] at sano mem ⊢
    rcases sano.coerente.riflette.succ_cases with ⟨_, null⟩ | ⟨y, rest, isAfter, isY⟩
    · exact absurd null ne
    subst isAfter
    have yMem : y ∈ pre ++ x :: y :: rest := mem_middle.mpr (.inr mem_append_cons_self)
    have yDim := sano.coerente.dim yMem
    have yFacts := sano.coerente.disposti.multipli y yMem
    have touch : x.stop = y.start := by rw [← sano.coerente.fineDi mem, meets, isY]
    have ends : x.start + x.size = y.start := touch
    rw [isY] at free room
    rw [stop] at yFacts
    rw [parola32_of_lt (by rw [bloccoHdr]; omega), bloccoHdr] at room
    have resized := sano.allunga size busy ((sano.coerente.libero_iff yMem).mp free)
      touch (by omega) (by omega)
    have facts := kept_facts (x := { x with size := x.size + y.size })
      (heapAllinea size + 16) 48 (by show heapAllinea size + 16 ≤ x.size + y.size; omega)
    refine ⟨_, _, _, ?_, resized⟩
    rw [facts.1]
    rfl
  rw [if_neg next]
  rcases sano.malloc _ pagine small with refused | ⟨h₁, bs₁, x', runs, assegna, lungo⟩
  · rw [refused]
    exact .inl rfl
  right
  have xNow : x ∈ bs₁ := (assegna.membri x busy).mpr (.inr mem)
  have dimNow := assegna.sano.coerente.dim xNow
  have isDimNow : h₁.dim x.start = x.size - 16 := by omega
  rw [runs, Option.bind_eq_bind, Option.bind_some]
  dsimp only
  rw [isDimNow]
  obtain ⟨bs', resized⟩ := assegna.sposta mem busy lungo rfl
  exact ⟨_, bs', x', rfl, resized⟩

end Resize

section Aligned

variable {h : Heap} {bs pre after : List Block} {x : Block} {utile size allineamento : Nat}
  {bs₁ bs₂ : List Block} {h₁ h₂ : Heap}

theorem Ridimensiona.trans {x₁ x₂ : Block}
    (fst : Ridimensiona h bs h₁ bs₁ x x₁ 0) (snd : Ridimensiona h₁ bs₁ h₂ bs₂ x₁ x₂ 0)
    (lower : x.start ≤ x₁.start) (upper : x₁.stop ≤ x.stop) : Ridimensiona h bs h₂ bs₂ x x₂ 0 := by
  refine ⟨snd.sano, snd.usato, snd.lungo, ?_, ?_, ?_, fun i lt => absurd lt (Nat.not_lt_zero i)⟩
  · intro y busy
    rw [snd.membri y busy, fst.membri y busy]
    refine or_congr_right ⟨?_, ?_⟩
    · rintro ⟨notFirst, isFirst | old⟩
      · exact absurd isFirst notFirst
      · exact old
    · rintro ⟨notX, mem⟩
      refine ⟨?_, .inr ⟨notX, mem⟩⟩
      intro isFirst
      rw [isFirst] at mem notX
      exact notX (fst.nuovo mem)
  · intro mem
    by_contra notX
    have still := (fst.membri x₂ snd.usato).mpr (.inr ⟨notX, mem⟩)
    have isFirst := snd.nuovo still
    rw [isFirst] at mem notX
    exact notX (fst.nuovo mem)
  · intro a used out
    refine (snd.intatta a (fst.ancora used out) ?_).trans (fst.intatta a used out)
    omega

theorem Assegna.ridimensiona {x₁ : Block}
    (assegna : Assegna h bs h₁ bs₁ x) (resized : Ridimensiona h₁ bs₁ h₂ bs₂ x x₁ 0) :
    Assegna h bs h₂ bs₂ x₁ := by
  have notOld : ∀ y ∈ bs, y ≠ x := by
    intro y mem isX
    rw [isX] at mem
    exact assegna.nuovo mem
  refine ⟨resized.sano, resized.usato, ?_, ?_, ?_⟩
  · intro y busy
    rw [resized.membri y busy, assegna.membri y busy]
    refine or_congr_right ⟨?_, ?_⟩
    · rintro ⟨notX, isX | mem⟩
      · exact absurd isX notX
      · exact mem
    · intro mem
      exact ⟨notOld y mem, .inr mem⟩
  · intro mem
    have isX := resized.nuovo ((assegna.membri x₁ resized.usato).mpr (.inr mem))
    exact notOld x₁ mem isX
  · intro a used
    have inOld := used
    obtain ⟨y, mem, busy, lower, upper⟩ := used
    have yNow := (assegna.membri y busy).mpr (.inr mem)
    have xNow := (assegna.membri x assegna.usato).mpr (.inl rfl)
    refine (resized.intatta a ⟨y, yNow, busy, lower, upper⟩ ?_).trans (assegna.intatta a inOld)
    rcases assegna.sano.coerente.disposti.apart.separate xNow yNow with equal | fst | snd
    · exact absurd equal.symm (notOld y mem)
    · omega
    · omega

/-- The part of `heap_memalign` that leaves the beginning of a block: it becomes a free
block, perhaps with no bytes, and joins the one before. -/
theorem Sano.stacca_testa {k : Nat} (sano : Sano h (pre ++ x :: after) []) (busy : x.free = false)
    (mul : k % 16 = 0) (long : 16 ≤ k) (room : k + 16 ≤ x.size) :
    let h₁ := inserisci h x.start (x.start + k) (x.size - k - 16) 0 (k - 16)
    let h₂ := cassettoMetti (h₁.setLibero x.start 1) x.start
    Ridimensiona h (pre ++ x :: after)
      (if h₂.prec x.start ≠ 0 then heapFondiConSucc h₂ (h₂.prec x.start) else h₂)
      (absorbLast pre [{ x with size := k, free := true }] ++
        ⟨x.start + k, x.size - k, false⟩ :: after) x ⟨x.start + k, x.size - k, false⟩ 0 := by
  intro h₁ h₂
  have inv := sano.coerente
  have xMem : x ∈ pre ++ x :: after := mem_append_cons_self
  have settled := (settled_busy busy).mp sano.quieta
  obtain ⟨divided, sameDivided⟩ := inv.dividi (k := k) false [] busy mul long room (.inl rfl)
    (fun _ _ => Iff.rfl)
  have spazioDivided : h₁.spazio = h.spazio :=
    (inserisci_altro h x.start (x.start + k) (x.size - k - 16) 0 (k - 16)).2.1
  obtain ⟨freed, spazioFreed, sameFreed⟩ :=
    Coerente.libera_metti (x := { x with size := k }) divided busy
  have joined : Passa h₂ (pre ++ { x with size := k, free := true } ::
      ⟨x.start + k, x.size - k, false⟩ :: after)
      (if h₂.prec x.start ≠ 0 then heapFondiConSucc h₂ (h₂.prec x.start) else h₂)
      (absorbLast pre ({ x with size := k, free := true } ::
        ⟨x.start + k, x.size - k, false⟩ :: after)) := freed.fondi_prec
  have isSpazio := joined.spazio.trans (spazioFreed.trans spazioDivided)
  have isList : absorbLast pre [{ x with size := k, free := true }] ++
      ⟨x.start + k, x.size - k, false⟩ :: after = absorbLast pre
        ({ x with size := k, free := true } :: ⟨x.start + k, x.size - k, false⟩ :: after) :=
    absorbLast_cons.symm
  have isStop : stop ⟨x.start + k, x.size - k, false⟩ = x.stop := by
    simp only [stop]
    omega
  refine ⟨sano.cambia (isList ▸ joined.coerente) ?_ isSpazio ?_, rfl, ?_, ?_, ?_, ?_,
    fun i lt => absurd lt (Nat.not_lt_zero i)⟩
  · exact (settled_busy rfl).mpr ⟨settled.1.absorbLast (isChain_singleton _), settled.2⟩
  · intro a
    rw [isList, covered_absorbLast]
    refine Iff.symm ?_
    exact covered_join rfl rfl isStop.symm (Nat.le_add_right _ _) (Nat.le_add_right _ _)
  · show 0 + 16 ≤ x.size - k
    omega
  · intro y yBusy
    rw [isList, mem_absorbLast yBusy, mem_libero rfl yBusy, mem_middle, inv.disposti.senza]
  · intro mem
    rcases inv.disposti.apart.separate mem xMem with equal | fst | snd
    · exact equal
    · rw [isStop, stop] at fst
      omega
    · have wrong : x.start + x.size ≤ x.start + k := snd
      omega
  · intro a used out
    have place : a < x.start + k ∨ x.start + k + 16 ≤ a := by
      rw [stop] at out
      omega
    have cut :
        Occupato (pre ++ { x with size := k } :: ⟨x.start + k, x.size - k, false⟩ :: after) a :=
      used.taglia (by omega)
    have away : a < x.start + 16 ∨ stop { x with size := k } ≤ a := by
      show a < x.start + 16 ∨ x.start + k ≤ a
      rw [stop] at out
      omega
    exact (joined.intatta a (cut.altri away)).trans
      ((sameFreed a cut away).trans (sameDivided a used place))

theorem and_pred_two_pow (n : Nat) : 2 ^ n &&& (2 ^ n - 1) = 0 := by
  rw [Nat.and_two_pow_sub_one_eq_mod, Nat.mod_self]

theorem indirizzo_facts (grezzo : Nat) (aMultiple : allineamento % 16 = 0) (pos : 0 < allineamento)
    (gMultiple : grezzo % 16 = 0) :
    let indirizzo := (grezzo + 16 + allineamento - 1) / allineamento * allineamento
    indirizzo % allineamento = 0 ∧ indirizzo % 16 = 0 ∧ grezzo + 16 ≤ indirizzo ∧
      indirizzo ≤ grezzo + allineamento := by
  intro indirizzo
  have divided := Nat.div_add_mod (grezzo + 16 + allineamento - 1) allineamento
  have below := Nat.mod_lt (grezzo + 16 + allineamento - 1) pos
  have isIndirizzo : indirizzo = allineamento * ((grezzo + 16 + allineamento - 1) / allineamento) :=
    Nat.mul_comm _ _
  have whole : indirizzo % 16 = 0 := by
    rw [isIndirizzo, Nat.mul_mod, aMultiple, Nat.zero_mul]
  refine ⟨Nat.mul_mod_left _ _, whole, ?_, ?_⟩
  · omega
  · omega

theorem Sano.ritaglia (sano : Sano h (pre ++ x :: after) []) (busy : x.free = false)
    (aMultiple : allineamento % 16 = 0) (pos : 0 < allineamento) (uMultiple : utile % 16 = 0)
    (room : utile + allineamento + 32 ≤ x.size) (small : utile + 48 < 2 ^ 32) :
    ∃ bs' x', Ridimensiona h (pre ++ x :: after) (ritaglia h (x.start + 16) allineamento utile).1
        bs' x x' 0 ∧ (ritaglia h (x.start + 16) allineamento utile).2 = x'.start + 16 ∧
      (x'.start + 16) % allineamento = 0 ∧ utile + 16 ≤ x'.size := by
  have xMem : x ∈ pre ++ x :: after := mem_append_cons_self
  have facts := sano.coerente.disposti.multipli x xMem
  rw [stop] at facts
  have isDim := sano.coerente.dim xMem
  obtain ⟨isBlock, _⟩ := sano.coerente.meno_intestazione xMem
  obtain ⟨aligned, whole, lower, upper⟩ := indirizzo_facts (x.start + 16) aMultiple pos (by omega)
  rw [ExOs.Libc.ritaglia, isBlock, bloccoHdr, parola32_of_lt (by omega)]
  generalize (x.start + 16 + 16 + allineamento - 1) / allineamento * allineamento = indirizzo
    at aligned whole lower upper
  have isNuovo : meno32 indirizzo 16 = indirizzo - 16 := meno32_of_le (by omega) (by omega)
  have isOffset : meno32 (indirizzo - 16) (x.start + 16) = indirizzo - 16 - (x.start + 16) :=
    meno32_of_le (by omega) (by omega)
  have isLeft : meno32 (meno32 (h.dim x.start) (indirizzo - 16 - (x.start + 16))) 16 =
      x.size - (indirizzo - 16 - x.start) - 16 := by
    have inner : meno32 (h.dim x.start) (indirizzo - 16 - (x.start + 16)) =
        h.dim x.start - (indirizzo - 16 - (x.start + 16)) := meno32_of_le (by omega) (by omega)
    rw [meno32_of_le (by omega) (by omega)]
    omega
  have isHead : indirizzo - 16 - (x.start + 16) = (indirizzo - 16 - x.start) - 16 := by omega
  rw [isNuovo, isOffset, isLeft, isHead]
  obtain ⟨k, isK⟩ : ∃ k, indirizzo - 16 - x.start = k := ⟨_, rfl⟩
  have isPlace : indirizzo - 16 = x.start + k := by omega
  rw [isPlace, Nat.add_sub_cancel_left]
  have head := sano.stacca_testa (k := k) busy (by omega) (by omega) (by omega)
  have pointer : parola32 (x.start + k + 16) = x.start + k + 16 := parola32_of_lt (by omega)
  rw [pointer]
  have longEnough : utile + 16 ≤ size ⟨x.start + k, x.size - k, false⟩ := by
    show utile + 16 ≤ x.size - k
    omega
  have cut := head.sano.spezza 0 rfl uMultiple longEnough small (Nat.zero_le utile)
  have kept := kept_facts (x := ⟨x.start + k, x.size - k, false⟩) (utile + 16) 48 longEnough
  have isStop : stop ⟨x.start + k, x.size - k, false⟩ = x.stop := by
    simp only [stop]
    omega
  refine ⟨_, _, head.trans cut (Nat.le_add_right _ _) (by rw [isStop]), ?_, ?_, kept.2.2⟩
  · rw [kept.1]
  · rw [kept.1]
    rw [← isPlace, Nat.sub_add_cancel (by omega)]
    exact aligned

/-- `heap_memalign` for a power of two: as `heap_malloc`, and the pointer is a multiple of
it. -/
theorem Sano.memalign {n : Nat} (sano : Sano h bs []) (pagine : Bool)
    (small : size ≤ 2 ^ 30) (aSmall : 2 ^ n ≤ 2 ^ 29) :
    heapMemalign h (2 ^ n) size pagine = some (h, 0) ∨
      ∃ h' bs' x, heapMemalign h (2 ^ n) size pagine = some (h', x.start + 16) ∧
        Assegna h bs h' bs' x ∧ size + 16 ≤ x.size ∧ (x.start + 16) % 2 ^ n = 0 := by
  have power := and_pred_two_pow n
  have pos := Nat.two_pow_pos n
  have valid : ¬(2 ^ n = 0 ∨ 2 ^ n &&& (2 ^ n - 1) ≠ 0) := by
    rintro (null | other)
    · omega
    · exact other power
  rw [heapMemalign, if_neg valid]
  split
  · next little =>
    have divides : 2 ^ n ∣ 16 := Nat.pow_dvd_pow 2 ((Nat.pow_le_pow_iff_right (by decide)).mp
      (show 2 ^ n ≤ 2 ^ 4 from little))
    rcases sano.malloc size pagine (by omega) with refused | ⟨h', bs', x, runs, assegna, long⟩
    · rw [refused]
      exact .inl rfl
    right
    have facts := assegna.sano.coerente.disposti.multipli x
      ((assegna.membri x assegna.usato).mpr (.inl rfl))
    rw [runs]
    refine ⟨h', bs', x, rfl, assegna, long, Nat.mod_eq_zero_of_dvd ?_⟩
    exact Nat.dvd_trans divides (Nat.dvd_of_mod_eq_zero (by omega))
  · next little =>
    have divides : 16 ∣ 2 ^ n :=
      Nat.pow_dvd_pow 2 (m := 4) ((Nat.pow_le_pow_iff_right (by decide)).mp
      (show 2 ^ 4 ≤ 2 ^ n from Nat.le_of_lt (Nat.lt_of_not_le little)))
    have aMultiple : 2 ^ n % 16 = 0 := Nat.mod_eq_zero_of_dvd divides
    obtain ⟨mul, covers, _, _, noWrap⟩ := heapAllinea_facts size (by omega)
    have limit : heapAllinea (if size = 0 then 1 else size) ≤ 2 ^ 30 := by
      rw [heapAllinea_eq (by split <;> omega)]
      split <;> omega
    rw [if_neg noWrap, bloccoHdr]
    generalize heapAllinea (if size = 0 then 1 else size) = utile at mul covers limit
    generalize 2 ^ n = allineamento at *
    rw [parola32_of_lt (by omega), if_neg (by omega)]
    rcases sano.malloc (utile + allineamento + 16) pagine (by omega) with
      refused | ⟨h₁, bs₁, x, runs, assegna, long⟩
    · rw [refused]
      exact .inl rfl
    · right
      rw [runs, Option.bind_eq_bind, Option.bind_some]
      dsimp only
      rw [if_neg (by omega)]
      split
      · next already =>
        exact ⟨h₁, bs₁, x, rfl, assegna, by omega, already⟩
      have xNow := (assegna.membri x assegna.usato).mpr (.inl rfl)
      obtain ⟨pre, after, shape⟩ := append_of_mem xNow
      have sano₁ := assegna.sano
      rw [shape] at sano₁
      obtain ⟨bs', x', resized, isPointer, aligned, room⟩ := sano₁.ritaglia assegna.usato
        aMultiple pos mul (by omega) (by omega)
      rw [← shape] at resized
      refine ⟨_, bs', x', ?_, assegna.ridimensiona resized, by omega, aligned⟩
      rw [← isPointer]
      rfl

end Aligned

end ExOs.Libc
