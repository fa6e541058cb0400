import ExOs.Libc.HeapAltre
import ExOs.Library.Runs

/-!
# Runs of the user heap

A program calls the allocator and writes in what it was given; meanwhile others
move the break up.
-/

namespace ExOs.Libc

open ExOs.Library List

/-- A pointer that was returned and not yet freed: what was asked for. -/
structure Vivo where
  ptr : Nat
  richiesti : Nat
  allineamento : Nat
deriving DecidableEq

def Usato (bs : List Block) (x : Block) : Prop := x ∈ bs ∧ x.free = false

/-- The live pointers are those of the blocks in use. -/
structure Vive (vivi : List Vivo) (usato : Block → Prop) : Prop where
  blocco : ∀ v ∈ vivi, ∃ x, usato x ∧ v.ptr = x.start + 16 ∧ v.richiesti + 16 ≤ x.size ∧
    v.ptr % v.allineamento = 0
  distinti : (vivi.map Vivo.ptr).Nodup
  tutti : ∀ x, usato x → ∃ v ∈ vivi, v.ptr = x.start + 16
  separati : ∀ x y, usato x → usato y → x.start = y.start → x = y

def senza (vivi : List Vivo) (ptr : Nat) : List Vivo := vivi.filter fun v => v.ptr ≠ ptr

theorem mem_senza {vivi : List Vivo} {ptr : Nat} {v : Vivo} :
    v ∈ senza vivi ptr ↔ v ∈ vivi ∧ v.ptr ≠ ptr := by
  rw [senza, mem_filter, decide_eq_true_iff]

section Live

variable {vivi : List Vivo} {usato usato' : Block → Prop} {x : Block}

variable (vive : Vive vivi usato)

include vive

theorem Vive.congr (same : ∀ y, usato' y ↔ usato y) : Vive vivi usato' := by
  have equal : usato' = usato := funext fun y => propext (same y)
  rw [equal]
  exact vive

theorem Vive.togli (used : usato x) :
    Vive (senza vivi (x.start + 16)) fun y => y ≠ x ∧ usato y := by
  refine ⟨?_, ?_, ?_, ?_⟩
  · intro v mem
    obtain ⟨alive, other⟩ := mem_senza.mp mem
    obtain ⟨y, yUsed, isPtr, facts⟩ := vive.blocco v alive
    refine ⟨y, ⟨?_, yUsed⟩, isPtr, facts⟩
    intro isX
    rw [isX] at isPtr
    exact other isPtr
  · exact vive.distinti.sublist (filter_sublist.map Vivo.ptr)
  · rintro y ⟨notX, yUsed⟩
    obtain ⟨v, alive, isPtr⟩ := vive.tutti y yUsed
    refine ⟨v, mem_senza.mpr ⟨alive, ?_⟩, isPtr⟩
    intro same
    exact notX (vive.separati y x yUsed used (by omega))
  · rintro y z ⟨_, yUsed⟩ ⟨_, zUsed⟩ same
    exact vive.separati y z yUsed zUsed same

theorem Vive.aggiungi (v : Vivo) (isPtr : v.ptr = x.start + 16)
    (long : v.richiesti + 16 ≤ x.size) (aligned : v.ptr % v.allineamento = 0)
    (apart : ∀ y, usato y → y.start ≠ x.start) : Vive (v :: vivi) fun y => y = x ∨ usato y := by
  refine ⟨?_, ?_, ?_, ?_⟩
  · intro w mem
    rcases mem_cons.mp mem with isNew | old
    · rw [isNew]
      exact ⟨x, .inl rfl, isPtr, long, aligned⟩
    · obtain ⟨y, used, facts⟩ := vive.blocco w old
      exact ⟨y, .inr used, facts⟩
  · refine nodup_cons.mpr ⟨?_, vive.distinti⟩
    intro repeated
    obtain ⟨w, alive, same⟩ := mem_map.mp repeated
    obtain ⟨y, used, atY, _⟩ := vive.blocco w alive
    exact apart y used (by omega)
  · rintro y (isX | used)
    · exact ⟨v, mem_cons_self, by rw [isX]; exact isPtr⟩
    · obtain ⟨w, alive, atY⟩ := vive.tutti y used
      exact ⟨w, mem_cons_of_mem _ alive, atY⟩
  · rintro y z (isX | yUsed) (alsoX | zUsed) same
    · rw [isX, alsoX]
    · rw [isX] at same
      exact absurd same.symm (apart z zUsed)
    · rw [alsoX] at same
      exact absurd same (apart y yUsed)
    · exact vive.separati y z yUsed zUsed same

end Live

/-! ## Steps -/

structure Stato where
  heap : Heap
  vivi : List Vivo

/-- What happens: a call, a write of the program in its own memory, the break moved up by
others, the first thread. -/
inductive Evento where
  | malloc (size : Nat) (pagine : Bool)
  | free (ptr : Nat) (pagine : Bool)
  | realloc (ptr size : Nat) (pagine : Bool)
  | calloc (nmemb size : Nat) (pagine : Bool)
  | memalign (allineamento size : Nat) (pagine : Bool)
  | posixMemalign (allineamento size : Nat) (pagine : Bool)
  | scrive (a : Nat) (v : UInt8)
  | altri (incr : Nat) (pagine : Bool)
  | fili

def Stato.dato (s : Stato) (h : Heap) (ptr size allineamento : Nat) : Stato :=
  ⟨h, if ptr = 0 then s.vivi else ⟨ptr, size, allineamento⟩ :: s.vivi⟩

/-- Pages that `sbrk` gave to others. -/
def Spazio.altrui (s : Spazio) (incr : Nat) (pagine : Bool) : Spazio :=
  { s with heapEnd := (sysSbrk s incr pagine).1.heapEnd }

def passo (s : Stato) : Evento → Option Stato
  | .malloc size pagine => do
      let (h, p) ← heapMalloc s.heap size pagine
      return s.dato h p size multiplo
  | .free ptr pagine => some ⟨heapFree s.heap ptr pagine, senza s.vivi ptr⟩
  | .realloc ptr size pagine => do
      let (h, p) ← heapRealloc s.heap ptr size pagine
      if p = 0 then return ⟨h, if size = 0 then senza s.vivi ptr else s.vivi⟩
      else return ⟨h, ⟨p, size, multiplo⟩ :: senza s.vivi ptr⟩
  | .calloc nmemb size pagine => do
      let (h, p) ← heapCalloc s.heap nmemb size pagine
      return s.dato h p (nmemb * size) multiplo
  | .memalign allineamento size pagine => do
      let (h, p) ← heapMemalign s.heap allineamento size pagine
      return s.dato h p size allineamento
  | .posixMemalign allineamento size pagine => do
      let (h, _, p) ← heapPosixMemalign s.heap allineamento size pagine
      return s.dato h (p.getD 0) size allineamento
  | .scrive a v => some { s with heap := { s.heap with mem := Buffer.set s.heap.mem a v } }
  | .altri incr pagine =>
    some { s with heap := { s.heap with spazio := s.heap.spazio.altrui incr pagine } }
  | .fili => some { s with heap := { s.heap with fili := true } }

def Stato.vivo (s : Stato) (ptr : Nat) : Prop := ptr = 0 ∨ ∃ v ∈ s.vivi, v.ptr = ptr

/-- Live pointers, sizes and powers of two below `2 ^ 30`; a `calloc` whose product does
not fit in a word is refused by its own test. -/
def Ammesso (s : Stato) : Evento → Prop
  | .malloc size _ => size < 2 ^ 30
  | .free ptr _ => s.vivo ptr
  | .realloc ptr size _ => s.vivo ptr ∧ size < 2 ^ 30
  | .calloc nmemb size _ => nmemb * size < 2 ^ 30 ∨ 2 ^ 32 ≤ nmemb * size
  | .memalign allineamento size _ =>
      (∃ n, allineamento = 2 ^ n) ∧ allineamento < 2 ^ 30 ∧ size < 2 ^ 30
  | .posixMemalign allineamento size _ =>
    (∃ n, allineamento = 2 ^ n) ∧ allineamento < 2 ^ 30 ∧ size < 2 ^ 30
  | .scrive a _ => ∃ v ∈ s.vivi, v.ptr ≤ a ∧ a < v.ptr + v.richiesti
  | .altri incr _ => incr < 2 ^ 31
  | .fili => True

/-- Before the first call. -/
structure Iniziale (s : Stato) : Prop where
  primo : s.heap.primo = 0
  ultimo : s.heap.ultimo = 0
  cassetti : ∀ i, s.heap.cassetto i = 0
  concessi : ∀ a, s.heap.spazio.concessi a = false
  spazio : SpazioSano s.heap.spazio
  vivi : s.vivi = []

def Corsa : Stato → Prop := Reached Iniziale fun s e s' => Ammesso s e ∧ passo s e = some s'

def Evento.bersaglio : Evento → Nat
  | .free ptr _ => ptr
  | .realloc ptr _ _ => ptr
  | _ => 0

def Evento.Scrive : Evento → Nat → Prop
  | .scrive a _, b => b = a
  | _, _ => False

/-- What a step does to the live blocks: the others keep their place and their bytes, a
`realloc` keeps the first bytes of its own, a `calloc` gives zeros, and what goes back to the
kernel is of no live block. -/
structure Fedele (s : Stato) (e : Evento) (s' : Stato) : Prop where
  restano : ∀ v ∈ s.vivi, v.ptr ≠ e.bersaglio → v ∈ s'.vivi ∧
    ∀ a, v.ptr ≤ a → a < v.ptr + v.richiesti → ¬e.Scrive a → s'.heap.mem a = s.heap.mem a
  conserva : ∀ ptr size pagine, e = .realloc ptr size pagine → size ≠ 0 →
    ∀ v ∈ s.vivi, v.ptr = ptr → ∃ w ∈ s'.vivi, (w = v ∨ w.richiesti = size) ∧
      ∀ i, i < v.richiesti → i < w.richiesti → s'.heap.mem (w.ptr + i) = s.heap.mem (v.ptr + i)
  azzera : ∀ nmemb size pagine, e = .calloc nmemb size pagine →
    ∀ v ∈ s'.vivi, v ∉ s.vivi → ∀ i < v.richiesti, s'.heap.mem (v.ptr + i) = 0
  reso : ∀ a, s.heap.spazio.concessi a = true → s'.heap.spazio.concessi a = false →
    ∀ v ∈ s'.vivi, ¬(v.ptr ≤ a ∧ a < v.ptr + s'.heap.dim (v.ptr - 16))

/-- The heap and the live pointers agree. -/
structure Custodito (s : Stato) (bs : List Block) : Prop where
  sano : Sano s.heap bs []
  vive : Vive s.vivi (Usato bs)

/-- The step returns, keeps the heap and the live blocks, and is faithful. -/
def Regge (s : Stato) (e : Evento) : Prop :=
  ∃ s' bs', passo s e = some s' ∧ Custodito s' bs' ∧ Fedele s e s'

section Steps

variable {s : Stato} {bs : List Block} {v : Vivo}

theorem Custodito.occupato (cus : Custodito s bs) (alive : v ∈ s.vivi) {a : Nat}
    (lower : v.ptr ≤ a) (upper : a < v.ptr + v.richiesti) : Occupato bs a := by
  obtain ⟨x, used, isPtr, long, _⟩ := cus.vive.blocco v alive
  refine ⟨x, used.1, used.2, by omega, ?_⟩
  rw [Block.stop]
  omega

theorem Custodito.reso (cus : Custodito s bs) {a : Nat} (gone : s.heap.spazio.concessi a = false)
    (alive : v ∈ s.vivi) : ¬(v.ptr ≤ a ∧ a < v.ptr + s.heap.dim (v.ptr - 16)) := by
  rintro ⟨lower, upper⟩
  obtain ⟨x, used, isPtr, _⟩ := cus.vive.blocco v alive
  have isDim := cus.sano.coerente.dim used.1
  rw [isPtr, Nat.add_sub_cancel] at upper
  have covered : Block.Covered bs a := by
    refine ⟨x, used.1, by omega, ?_⟩
    rw [Block.stop]
    omega
  rw [(cus.sano.coperti a).mpr covered] at gone
  cases gone

theorem Custodito.ptr_facts (cus : Custodito s bs) (alive : v ∈ s.vivi) :
    v.ptr ≠ 0 ∧ v.ptr % 16 = 0 := by
  obtain ⟨x, used, isPtr, _⟩ := cus.vive.blocco v alive
  have facts := cus.sano.coerente.disposti.multipli x used.1
  omega

variable {h' : Heap} {e : Evento} {size ptr : Nat} {x : Block} {bs' : List Block}

section

variable (cus : Custodito s bs)

include cus

theorem Custodito.fedele (sano : Sano h' bs [])
    (notRealloc : ∀ ptr size pagine, e ≠ .realloc ptr size pagine)
    (same : ∀ a, Occupato bs a → ¬e.Scrive a → h'.mem a = s.heap.mem a) :
    Custodito { s with heap := h' } bs ∧ Fedele s e { s with heap := h' } := by
  have after : Custodito { s with heap := h' } bs := ⟨sano, cus.vive⟩
  refine ⟨after, ?_, ?_, ?_, ?_⟩
  · intro v alive _
    refine ⟨alive, ?_⟩
    intro a lower upper unwritten
    exact same a (cus.occupato alive lower upper) unwritten
  · intro ptr size pagine isRealloc
    exact absurd isRealloc (notRealloc ptr size pagine)
  · intro _ _ _ _ v alive notAlive
    exact absurd alive notAlive
  · intro a _ gone v alive
    exact after.reso gone alive

theorem Custodito.assegna {allineamento : Nat} (assegna : Assegna s.heap bs h' bs' x)
    (long : size + 16 ≤ x.size)
    (aligned : (x.start + 16) % allineamento = 0)
    (notRealloc : ∀ ptr size pagine, e = .realloc ptr size pagine → ptr = 0)
    (zero : ∀ nmemb size' pagine, e = .calloc nmemb size' pagine →
      ∀ i < size, h'.mem (x.start + 16 + i) = 0) :
    Custodito ⟨h', ⟨x.start + 16, size, allineamento⟩ :: s.vivi⟩ bs' ∧
      Fedele s e ⟨h', ⟨x.start + 16, size, allineamento⟩ :: s.vivi⟩ := by
  have apart : ∀ y, Usato bs y → y.start ≠ x.start := by
    rintro y ⟨mem, busy⟩ same
    have yNow := (assegna.membri y busy).mpr (.inr mem)
    have xNow := (assegna.membri x assegna.usato).mpr (.inl rfl)
    have equal := assegna.sano.coerente.disposti.apart.start_injective yNow xNow same
    rw [equal] at mem
    exact assegna.nuovo mem
  have live := cus.vive.aggiungi ⟨x.start + 16, size, allineamento⟩ rfl long aligned apart
  have after : Custodito ⟨h', ⟨x.start + 16, size, allineamento⟩ :: s.vivi⟩ bs' := by
    refine ⟨assegna.sano, live.congr ?_⟩
    intro y
    constructor
    · rintro ⟨mem, busy⟩
      exact ((assegna.membri y busy).mp mem).imp_right fun old => ⟨old, busy⟩
    · rintro (isX | ⟨mem, busy⟩)
      · rw [isX]
        exact ⟨(assegna.membri x assegna.usato).mpr (.inl rfl), assegna.usato⟩
      · exact ⟨(assegna.membri y busy).mpr (.inr mem), busy⟩
  refine ⟨after, ?_, ?_, ?_, ?_⟩
  · intro v alive _
    refine ⟨mem_cons_of_mem _ alive, ?_⟩
    intro a lower upper _
    exact assegna.intatta a (cus.occupato alive lower upper)
  · intro ptr size' pagine isRealloc _ v alive isPtr
    rw [notRealloc ptr size' pagine isRealloc] at isPtr
    exact absurd isPtr (cus.ptr_facts alive).1
  · intro nmemb size' pagine isCalloc v alive notAlive i lt
    rcases mem_cons.mp alive with isNew | old
    · rw [isNew] at lt ⊢
      exact zero nmemb size' pagine isCalloc i lt
    · exact absurd old notAlive
  · intro a _ gone v alive
    exact after.reso gone alive

theorem Custodito.fuori (mem : x ∈ bs) (alive : v ∈ s.vivi)
    (other : v.ptr ≠ x.start + 16) {a : Nat} (lower : v.ptr ≤ a) (upper : a < v.ptr + v.richiesti) :
    a < x.start + 16 ∨ x.stop ≤ a := by
  obtain ⟨y, used, isPtr, long, _⟩ := cus.vive.blocco v alive
  rcases cus.sano.coerente.disposti.apart.separate used.1 mem with equal | fst | snd
  · rw [equal] at isPtr
    exact absurd isPtr other
  · rw [Block.stop] at fst
    omega
  · omega

theorem Custodito.rilascia (mem : x ∈ bs) (busy : x.free = false)
    (rilascia : Rilascia s.heap bs h' bs' x) (isBersaglio : e.bersaglio = x.start + 16)
    (notResize : ∀ ptr size pagine, e = .realloc ptr size pagine → size = 0)
    (notCalloc : ∀ nmemb size pagine, e ≠ .calloc nmemb size pagine) :
    Custodito ⟨h', senza s.vivi (x.start + 16)⟩ bs' ∧
      Fedele s e ⟨h', senza s.vivi (x.start + 16)⟩ := by
  have after : Custodito ⟨h', senza s.vivi (x.start + 16)⟩ bs' := by
    refine ⟨rilascia.sano, (cus.vive.togli ⟨mem, busy⟩).congr ?_⟩
    intro y
    constructor
    · rintro ⟨now, yBusy⟩
      obtain ⟨notX, pre⟩ := (rilascia.membri y yBusy).mp now
      exact ⟨notX, pre, yBusy⟩
    · rintro ⟨notX, pre, yBusy⟩
      exact ⟨(rilascia.membri y yBusy).mpr ⟨notX, pre⟩, yBusy⟩
  refine ⟨after, ?_, ?_, ?_, ?_⟩
  · intro v alive other
    rw [isBersaglio] at other
    refine ⟨mem_senza.mpr ⟨alive, other⟩, ?_⟩
    intro a lower upper _
    exact rilascia.intatta a (cus.occupato alive lower upper)
      (cus.fuori mem alive other lower upper)
  · intro ptr size pagine isRealloc pos
    exact absurd (notResize ptr size pagine isRealloc) pos
  · intro nmemb size pagine isCalloc
    exact absurd isCalloc (notCalloc nmemb size pagine)
  · intro a _ gone v alive
    exact after.reso gone alive

theorem Custodito.ridimensiona {x' : Block} (pagine : Bool) (mem : x ∈ bs) (busy : x.free = false)
    (resized : Ridimensiona s.heap bs h' bs' x x' size) :
    Custodito ⟨h', ⟨x'.start + 16, size, multiplo⟩ :: senza s.vivi (x.start + 16)⟩ bs' ∧
      Fedele s (.realloc (x.start + 16) size pagine)
        ⟨h', ⟨x'.start + 16, size, multiplo⟩ :: senza s.vivi (x.start + 16)⟩ := by
  have newNow := (resized.membri x' resized.usato).mpr (.inl rfl)
  have facts := resized.sano.coerente.disposti.multipli x' newNow
  have apart : ∀ y, y ≠ x ∧ Usato bs y → y.start ≠ x'.start := by
    rintro y ⟨notX, old, yBusy⟩ same
    have yNow := (resized.membri y yBusy).mpr (.inr ⟨notX, old⟩)
    have equal := resized.sano.coerente.disposti.apart.start_injective yNow newNow same
    rw [equal] at old notX
    exact notX (resized.nuovo old)
  have live := (cus.vive.togli ⟨mem, busy⟩).aggiungi ⟨x'.start + 16, size, multiplo⟩ rfl
    resized.lungo (by show (x'.start + 16) % 16 = 0; omega) apart
  have after : Custodito ⟨h', ⟨x'.start + 16, size, multiplo⟩ :: senza s.vivi (x.start + 16)⟩
    bs' := by
    refine ⟨resized.sano, live.congr ?_⟩
    intro y
    constructor
    · rintro ⟨now, yBusy⟩
      rcases (resized.membri y yBusy).mp now with isNew | ⟨notX, old⟩
      · exact .inl isNew
      · exact .inr ⟨notX, old, yBusy⟩
    · rintro (isNew | ⟨notX, old, yBusy⟩)
      · rw [isNew]
        exact ⟨newNow, resized.usato⟩
      · exact ⟨(resized.membri y yBusy).mpr (.inr ⟨notX, old⟩), yBusy⟩
  refine ⟨after, ?_, ?_, (by simp), ?_⟩
  · intro v alive other
    have notTarget : v.ptr ≠ x.start + 16 := other
    refine ⟨mem_cons_of_mem _ (mem_senza.mpr ⟨alive, notTarget⟩), ?_⟩
    intro a lower upper _
    exact resized.intatta a (cus.occupato alive lower upper)
      (cus.fuori mem alive notTarget lower upper)
  · intro ptr size' pagine' isRealloc _ v alive isPtr
    cases isRealloc
    refine ⟨_, mem_cons_self, .inr rfl, ?_⟩
    intro i inOld inNew
    obtain ⟨y, used, atY, long, _⟩ := cus.vive.blocco v alive
    have isX : y = x := cus.vive.separati y x used ⟨mem, busy⟩ (by omega)
    rw [isX] at long
    rw [isPtr]
    exact resized.contenuto i inNew (by omega)
  · intro a _ gone v alive
    exact after.reso gone alive

theorem Custodito.rifiuto (e : Evento) : Fedele s e s := by
  refine ⟨fun v alive _ => ⟨alive, fun _ _ _ _ => rfl⟩, ?_, ?_, ?_⟩
  · intro ptr size pagine _ _ v alive _
    exact ⟨v, alive, .inl rfl, fun _ _ _ => rfl⟩
  · intro _ _ _ _ v alive notAlive
    exact absurd alive notAlive
  · intro a _ gone v alive
    exact cus.reso gone alive

theorem Custodito.senza_zero : senza s.vivi 0 = s.vivi := by
  rw [senza, filter_eq_self]
  intro v alive
  exact decide_eq_true (cus.ptr_facts alive).1

theorem Custodito.blocco (alive : ∃ v ∈ s.vivi, v.ptr = ptr) :
    ∃ x, x ∈ bs ∧ x.free = false ∧ ptr = x.start + 16 := by
  obtain ⟨v, mem, isPtr⟩ := alive
  obtain ⟨x, used, atX, _⟩ := cus.vive.blocco v mem
  exact ⟨x, used.1, used.2, isPtr.symm.trans atX⟩

end

theorem SpazioSano.altrui {spazio : Spazio} (sano : SpazioSano spazio) {incr : Nat} (pagine : Bool)
    (small : incr < 2 ^ 31) : SpazioSano (spazio.altrui incr pagine) := by
  have moved : ∃ pages, (sysSbrk spazio incr pagine).1.heapEnd = spazio.heapEnd + pages * 4096 ∧
      spazio.heapEnd + pages * 4096 < 2 ^ 32 := by
    have fine := sano.fine
    have limite := sano.limite
    rw [sysSbrk]
    split
    · exact ⟨0, rfl, fine⟩
    split
    · exact ⟨0, rfl, fine⟩
    dsimp only
    generalize parola32 (incr + (heapPagina - 1)) / heapPagina = pages
    split
    · exact ⟨0, rfl, fine⟩
    rename_i room
    split
    · exact ⟨0, rfl, fine⟩
    rw [heapPagina] at room ⊢
    have fits : spazio.heapEnd + pages * 4096 < 2 ^ 32 := by omega
    refine ⟨pages, ?_, fits⟩
    exact parola32_of_lt fits
  obtain ⟨pages, isEnd, fits⟩ := moved
  have pagina := sano.pagina
  have ordine := sano.ordine
  have isNew : (spazio.altrui incr pagine).heapEnd = spazio.heapEnd + pages * 4096 := isEnd
  refine ⟨?_, ?_, ?_, sano.limite, ?_⟩
  · omega
  · show spazio.heapStart ≤ _
    omega
  · rw [isNew]
    exact fits
  · intro a given
    have below := sano.concessi a given
    omega

theorem Custodito.dato (cus : Custodito s bs) (r : Option (Heap × Nat))
    (size allineamento : Nat)
    (isPasso : passo s e = r.bind fun q => some (s.dato q.1 q.2 size allineamento))
    (outcome : r = some (s.heap, 0) ∨ ∃ h' bs' x, r = some (h', x.start + 16) ∧
      Assegna s.heap bs h' bs' x ∧ size + 16 ≤ x.size ∧ (x.start + 16) % allineamento = 0 ∧
      ∀ nmemb size' pagine, e = .calloc nmemb size' pagine →
        ∀ i < size, h'.mem (x.start + 16 + i) = 0)
    (notRealloc : ∀ ptr size pagine, e = .realloc ptr size pagine → ptr = 0) :
    Regge s e := by
  rcases outcome with refused | ⟨h', bs', x, runs, assegna, long, aligned, zero⟩
  · refine ⟨s, bs, ?_, cus, cus.rifiuto e⟩
    rw [isPasso, refused, Option.bind_some, Stato.dato, if_pos rfl]
  · obtain ⟨after, fedele⟩ := cus.assegna assegna long aligned notRealloc zero
    refine ⟨_, bs', ?_, after, fedele⟩
    rw [isPasso, runs, Option.bind_some, Stato.dato, if_neg (Nat.succ_ne_zero _)]

theorem Assegna.multiplo {h : Heap} (assegna : Assegna h bs h' bs' x) :
    (x.start + 16) % Libc.multiplo = 0 := by
  have facts := assegna.sano.coerente.disposti.multipli x
    ((assegna.membri x assegna.usato).mpr (.inl rfl))
  rw [Libc.multiplo]
  omega

theorem Custodito.passo_malloc (cus : Custodito s bs) {pagine : Bool}
    (small : size < 2 ^ 30) : Regge s (.malloc size pagine) := by
  refine cus.dato (heapMalloc s.heap size pagine) size multiplo rfl ?_ (by simp)
  rcases cus.sano.malloc size pagine (by omega) with refused | ⟨h', bs', x, runs, assegna, long⟩
  · exact .inl refused
  · exact .inr ⟨h', bs', x, runs, assegna, long, assegna.multiplo, (by simp)⟩

theorem heapCalloc_troppo {h : Heap} {nmemb : Nat} {pagine : Bool} (wraps : 2 ^ 32 ≤ nmemb * size) :
    heapCalloc h nmemb size pagine = some (h, 0) := by
  have shorter : parola32 (nmemb * size) < nmemb * size := by
    rw [parola32]
    omega
  have nonZero : nmemb ≠ 0 := by
    intro null
    rw [null] at wraps
    omega
  have refused : parola32 (nmemb * size) / nmemb ≠ size := by
    intro same
    have back := Nat.div_mul_le_self (parola32 (nmemb * size)) nmemb
    rw [same, Nat.mul_comm] at back
    omega
  rw [heapCalloc]
  rw [if_pos ⟨nonZero, refused⟩]
  rfl

section

variable (cus : Custodito s bs) (pagine : Bool)

include cus pagine

theorem Custodito.passo_calloc {nmemb : Nat}
    (small : nmemb * size < 2 ^ 30 ∨ 2 ^ 32 ≤ nmemb * size) :
    Regge s (.calloc nmemb size pagine) := by
  refine cus.dato (heapCalloc s.heap nmemb size pagine) (nmemb * size) multiplo rfl ?_ (by simp)
  rcases small with fits | wraps
  · rcases cus.sano.calloc nmemb size pagine (by omega) with
      refused | ⟨h', bs', x, runs, assegna, long, zero⟩
    · exact .inl refused
    · exact .inr ⟨h', bs', x, runs, assegna, long, assegna.multiplo, fun _ _ _ _ => zero⟩
  · exact .inl (heapCalloc_troppo wraps)

theorem Custodito.passo_memalign {n : Nat} (aSmall : 2 ^ n < 2 ^ 30) (small : size < 2 ^ 30) :
    heapMemalign s.heap (2 ^ n) size pagine = some (s.heap, 0) ∨
      ∃ h' bs' x, heapMemalign s.heap (2 ^ n) size pagine = some (h', x.start + 16) ∧
        Assegna s.heap bs h' bs' x ∧ size + 16 ≤ x.size ∧ (x.start + 16) % 2 ^ n = 0 := by
  have exponent : n < 30 := (Nat.pow_lt_pow_iff_right (by decide)).mp aSmall
  exact cus.sano.memalign pagine (by omega) (Nat.pow_le_pow_right (by decide) (by omega))

theorem Custodito.passo_posix {n : Nat} (aSmall : 2 ^ n < 2 ^ 30) (small : size < 2 ^ 30) :
    Regge s (.posixMemalign (2 ^ n) size pagine) := by
  by_cases refused : 2 ^ n < 4 ∨ 2 ^ n &&& (2 ^ n - 1) ≠ 0
  · refine ⟨s, bs, ?_, cus, cus.rifiuto _⟩
    rw [passo, heapPosixMemalign, if_pos refused]
    rfl
  rcases cus.passo_memalign (n := n) pagine aSmall small with
    null | ⟨h', bs', x, runs, assegna, long, aligned⟩
  · refine ⟨s, bs, ?_, cus, cus.rifiuto _⟩
    rw [passo, heapPosixMemalign, if_neg refused, null]
    rfl
  · obtain ⟨after, fedele⟩ := cus.assegna (e := .posixMemalign (2 ^ n) size pagine) assegna
      long aligned (by simp) (by simp)
    refine ⟨_, bs', ?_, after, fedele⟩
    rw [passo, heapPosixMemalign, if_neg refused, runs]
    rfl

theorem Custodito.passo_free (alive : s.vivo ptr) : Regge s (.free ptr pagine) := by
  rcases alive with null | live
  · refine ⟨s, bs, ?_, cus, cus.rifiuto _⟩
    rw [passo, null, cus.senza_zero, heapFree, if_pos rfl]
  obtain ⟨x, mem, busy, isPtr⟩ := cus.blocco live
  subst isPtr
  obtain ⟨bs', released⟩ := cus.sano.libera mem busy pagine
  obtain ⟨kept, fedele⟩ := cus.rilascia (e := .free (x.start + 16) pagine) mem busy released
    rfl (by simp) (by simp)
  exact ⟨_, bs', rfl, kept, fedele⟩

theorem Custodito.passo_realloc
    (alive : s.vivo ptr) (small : size < 2 ^ 30) : Regge s (.realloc ptr size pagine) := by
  rcases alive with null | live
  · subst null
    have isMalloc : heapRealloc s.heap 0 size pagine = heapMalloc s.heap size pagine := by
      rw [heapRealloc, if_pos rfl]
    rcases cus.sano.malloc size pagine (by omega) with refused | ⟨h', bs', x, runs, assegna, long⟩
    · refine ⟨s, bs, ?_, cus, cus.rifiuto _⟩
      rw [passo, isMalloc, refused, cus.senza_zero, ite_self]
      rfl
    obtain ⟨after, fedele⟩ := cus.assegna (e := .realloc 0 size pagine) assegna long
      assegna.multiplo (fun _ _ _ isRealloc => by cases isRealloc; rfl) (by simp)
    refine ⟨_, bs', ?_, after, fedele⟩
    rw [passo, isMalloc, runs, cus.senza_zero]
    rfl
  · obtain ⟨x, mem, busy, isPtr⟩ := cus.blocco live
    subst isPtr
    by_cases empty : size = 0
    · subst empty
      obtain ⟨bs', released⟩ := cus.sano.libera mem busy pagine
      obtain ⟨kept, fedele⟩ := cus.rilascia (e := .realloc (x.start + 16) 0 pagine) mem busy
        released rfl (fun _ _ _ isRealloc => by cases isRealloc; rfl) (by simp)
      refine ⟨_, bs', ?_, kept, fedele⟩
      rfl
    · rcases cus.sano.realloc size mem busy pagine (by omega) empty with
        refused | ⟨h', bs', x', runs, resized⟩
      · refine ⟨s, bs, ?_, cus, cus.rifiuto _⟩
        rw [passo, refused, if_neg empty]
        rfl
      · obtain ⟨kept, fedele⟩ := cus.ridimensiona pagine mem busy resized
        refine ⟨_, bs', ?_, kept, fedele⟩
        rw [passo, runs]
        rfl

end

theorem Custodito.passo (cus : Custodito s bs) (ammesso : Ammesso s e) : Regge s e := by
  cases e with
  | malloc size pagine => exact cus.passo_malloc ammesso
  | free ptr pagine => exact cus.passo_free pagine ammesso
  | realloc ptr size pagine => exact cus.passo_realloc pagine ammesso.1 ammesso.2
  | calloc nmemb size pagine => exact cus.passo_calloc pagine ammesso
  | memalign allineamento size pagine =>
    obtain ⟨⟨n, isPower⟩, aSmall, small⟩ := ammesso
    subst isPower
    refine cus.dato (heapMemalign s.heap (2 ^ n) size pagine) size (2 ^ n) rfl ?_ (by simp)
    rcases cus.passo_memalign (n := n) pagine aSmall small with
      null | ⟨h', bs', x, runs, assegna, long, aligned⟩
    · exact .inl null
    · exact .inr ⟨h', bs', x, runs, assegna, long, aligned, (by simp)⟩
  | posixMemalign allineamento size pagine =>
    obtain ⟨⟨n, isPower⟩, aSmall, small⟩ := ammesso
    subst isPower
    exact cus.passo_posix pagine aSmall small
  | scrive a v =>
    obtain ⟨w, alive, lower, upper⟩ := ammesso
    have used := cus.occupato alive lower upper
    have out : ∀ b, ¬Occupato bs b → Buffer.set s.heap.mem a v b = s.heap.mem b := by
      intro b unused
      refine Buffer.set_other _ ?_
      intro same
      rw [same] at unused
      exact unused used
    obtain ⟨after, fedele⟩ := cus.fedele (e := .scrive a v)
      (cus.sano.scrive _ out) (by simp)
      (fun b _ unwritten => Buffer.set_other _ unwritten)
    exact ⟨_, bs, rfl, after, fedele⟩
  | altri incr pagine =>
    have sano : Sano { s.heap with spazio := s.heap.spazio.altrui incr pagine } bs [] :=
      ⟨cus.sano.coerente.ambiente, cus.sano.quieta, cus.sano.coperti,
        cus.sano.spazio.altrui pagine ammesso⟩
    obtain ⟨after, fedele⟩ := cus.fedele (e := .altri incr pagine) sano (by simp) (fun _ _ _ => rfl)
    exact ⟨_, bs, rfl, after, fedele⟩
  | fili =>
    obtain ⟨liste, links⟩ := cus.sano.coerente.cassetti
    have riflette := cus.sano.coerente.riflette
    have inv : Coerente { s.heap with fili := true } bs [] :=
      ⟨{ riflette with }, cus.sano.coerente.disposti, liste, { links with }⟩
    obtain ⟨after, fedele⟩ := cus.fedele (e := .fili)
      { cus.sano with coerente := inv } (by simp)
      (fun _ _ _ => rfl)
    exact ⟨_, bs, rfl, after, fedele⟩

end Steps

/-! ## Runs -/

variable {s : Stato}

theorem Iniziale.custodito (iniziale : Iniziale s) : Custodito s [] := by
  have none : ∀ a, ¬Block.Covered [] a := by
    rintro a ⟨x, mem, _⟩
    exact not_mem_nil mem
  refine ⟨⟨⟨⟨iniziale.primo, iniziale.ultimo, (by simp)⟩,
    ⟨⟨List.Pairwise.nil, (by simp)⟩, (by simp)⟩,
    fun _ => [], ⟨fun i _ => iniziale.cassetti i, fun _ _ => nodup_nil, ?_⟩⟩, List.IsChain.nil, ?_,
    iniziale.spazio⟩, ?_⟩
  · intro i _ b
    refine iff_of_false not_mem_nil ?_
    rintro ⟨_, x, mem, _⟩
    exact not_mem_nil mem
  · intro a
    rw [iniziale.concessi a]
    exact iff_of_false Bool.false_ne_true (none a)
  · rw [iniziale.vivi]
    exact ⟨(by simp), nodup_nil, fun x used => absurd used.1 not_mem_nil,
      fun x _ used => absurd used.1 not_mem_nil⟩

theorem Corsa.custodito (corsa : Corsa s) : ∃ bs, Custodito s bs := by
  refine Reached.invariant (fun s => ∃ bs, Custodito s bs) ?_ ?_ corsa
  · intro s iniziale
    exact ⟨[], iniziale.custodito⟩
  · rintro s e s' ⟨bs, cus⟩ ⟨ammesso, taken⟩
    obtain ⟨after, bs', runs, kept, _⟩ := cus.passo ammesso
    rw [taken] at runs
    rw [Option.some.inj runs]
    exact ⟨bs', kept⟩

/-- A safe heap: the list of its headers, in address order, covers what the kernel gave; no
two free blocks touch; a block is in the drawer of its size exactly when it is free and not
empty; the live pointers are aligned, long enough and apart, and there is a block in use for
each of them and for nothing else. -/
structure Sicuro (s : Stato) (bs : List Block) : Prop where
  lista : Linked s.heap.succ s.heap.prec 0 s.heap.primo (bs.map Block.start)
  ultimo : s.heap.ultimo = (bs.map Block.start).getLastD 0
  intestazioni : ∀ x ∈ bs, s.heap.dim x.start + 16 = x.size ∧
    s.heap.libero x.start = if x.free then 1 else 0
  ordine : bs.Pairwise fun x y => x.stop ≤ y.start
  coperti : ∀ a, s.heap.spazio.concessi a = true ↔ Block.Covered bs a
  quieta : ∀ x ∈ bs, ∀ y ∈ bs, ¬(x.free = true ∧ y.free = true ∧ x.stop = y.start)
  cassetti : ∀ i < heapCassetti, ∀ b, OnList s.heap.dopo (s.heap.cassetto i) b ↔
    ∃ x ∈ bs, x.start = b ∧ x.free = true ∧ 0 < s.heap.dim b ∧ cassettoDi (s.heap.dim b) = i
  vivi : ∀ v ∈ s.vivi, v.ptr % 16 = 0 ∧ v.ptr % v.allineamento = 0 ∧
    v.richiesti ≤ s.heap.dim (v.ptr - 16) ∧ ∃ x ∈ bs, x.free = false ∧ v.ptr = x.start + 16
  disgiunti : s.vivi.Pairwise fun v w =>
    v.ptr + s.heap.dim (v.ptr - 16) ≤ w.ptr ∨ w.ptr + s.heap.dim (w.ptr - 16) ≤ v.ptr
  tutti : ∀ x ∈ bs, x.free = false → ∃ v ∈ s.vivi, v.ptr = x.start + 16

theorem Custodito.sicuro {bs : List Block} (cus : Custodito s bs) : Sicuro s bs := by
  have inv := cus.sano.coerente
  have laid := inv.disposti
  have dims : ∀ {v : Vivo} {x : Block}, x ∈ bs → v.ptr = x.start + 16 →
      s.heap.dim (v.ptr - 16) + 16 = x.size := by
    intro v x mem isPtr
    rw [isPtr]
    exact inv.dim mem
  refine ⟨inv.riflette.legata, inv.riflette.ultimo, inv.riflette.campi,
    laid.apart.ordered, cus.sano.coperti, ?_, ?_, ?_, ?_, ?_⟩
  · intro x xMem y yMem
    exact cus.sano.quieta.apart laid.apart xMem yMem
  · intro i lt b
    obtain ⟨liste, links⟩ := inv.cassetti
    rw [(links.legati i lt).chain.onList_iff, links.membri i lt]
    constructor
    · rintro ⟨_, x, mem, isB, free, long, drawer⟩
      have isDim := inv.dim mem
      rw [isB] at isDim
      rw [← isDim] at drawer
      exact ⟨x, mem, isB, free, by omega, drawer⟩
    · rintro ⟨x, mem, isB, free, long, drawer⟩
      have isDim := inv.dim mem
      rw [isB] at isDim
      refine ⟨not_mem_nil, x, mem, isB, free, by omega, ?_⟩
      rw [← isDim]
      exact drawer
  · intro v alive
    obtain ⟨x, used, isPtr, long, aligned⟩ := cus.vive.blocco v alive
    have isDim := dims used.1 isPtr
    exact ⟨(cus.ptr_facts alive).2, aligned, by omega, x, used.1, used.2, isPtr⟩
  · have ne : s.vivi.Pairwise fun v w => v.ptr ≠ w.ptr := pairwise_map.mp cus.vive.distinti
    refine ne.imp_of_mem ?_
    intro v w vAlive wAlive apart
    obtain ⟨x, xUsed, xPtr, _⟩ := cus.vive.blocco v vAlive
    obtain ⟨y, yUsed, yPtr, _⟩ := cus.vive.blocco w wAlive
    have xDim := dims xUsed.1 xPtr
    have yDim := dims yUsed.1 yPtr
    rcases laid.apart.separate xUsed.1 yUsed.1 with equal | fst | snd
    · rw [xPtr, yPtr, equal] at apart
      exact absurd rfl apart
    · rw [Block.stop] at fst
      omega
    · rw [Block.stop] at snd
      omega
  · intro x mem busy
    exact cus.vive.tutti x ⟨mem, busy⟩

/-- In every state of every run the heap is safe, and there every admitted call returns and
treats the live blocks as it should. -/
theorem corsa_custodita {s : Stato} (corsa : Corsa s) :
    (∃ bs, Sicuro s bs) ∧ ∀ e, Ammesso s e → ∃ s', passo s e = some s' ∧ Fedele s e s' := by
  obtain ⟨bs, cus⟩ := corsa.custodito
  refine ⟨⟨bs, cus.sicuro⟩, ?_⟩
  intro e ammesso
  obtain ⟨s', _, runs, _, fedele⟩ := cus.passo ammesso
  exact ⟨s', runs, fedele⟩

/-- The state a step leaves; the state before it, if it does not return. -/
def dopo (s : Stato) (e : Evento) : Stato := (passo s e).getD s

theorem passo_dopo {e : Evento} (returns : (passo s e).isSome = true) :
    passo s e = some (dopo s e) := by
  rw [dopo]
  cases res : passo s e with
  | none =>
    rw [res] at returns
    cases returns
  | some after => rfl

def statoVuoto : Stato :=
  ⟨{ mem := fun _ => 0, primo := 0, ultimo := 0, cassetto := fun _ => 0, fili := false, errno := 0
     spazio := ⟨0x8001000, 0x8001000, 0xBF000000, fun _ => false⟩ }, []⟩

theorem statoVuoto_iniziale : Iniziale statoVuoto :=
  ⟨rfl, rfl, fun _ => rfl, fun _ => rfl,
    ⟨by decide, by decide, by decide, by decide, fun _ used => absurd used Bool.false_ne_true⟩, rfl⟩

/-- Two blocks, the second aligned; the first is freed and the second grows. -/
def dueBlocchi : Stato := dopo (dopo statoVuoto (.malloc 100 true)) (.memalign 64 5000 true)

def cresciuto : Stato :=
  dopo (dopo dueBlocchi (.free 0x8001010 true)) (.realloc 0x80010C0 9000 true)

theorem corsa_custodita_cresciuto :
    Corsa cresciuto ∧ cresciuto.vivi = [⟨0x80010C0, 9000, 16⟩] ∧ ∃ bs, Sicuro cresciuto bs := by
  have small : Ammesso statoVuoto (.malloc 100 true) := by
    show 100 < 2 ^ 30
    decide
  have power : Ammesso (dopo statoVuoto (.malloc 100 true)) (.memalign 64 5000 true) :=
    ⟨⟨6, rfl⟩, by decide, by decide⟩
  have pair : Corsa dueBlocchi := Reached.next (Reached.next (Reached.start statoVuoto_iniziale)
      ⟨small, passo_dopo (by decide +kernel)⟩) ⟨power, passo_dopo (by decide +kernel)⟩
  have both : dueBlocchi.vivi = [⟨0x80010C0, 5000, 64⟩, ⟨0x8001010, 100, 16⟩] := by decide +kernel
  have fst : Ammesso dueBlocchi (.free 0x8001010 true) := by
    refine .inr ⟨⟨0x8001010, 100, 16⟩, ?_, rfl⟩
    rw [both]
    exact mem_cons_of_mem _ mem_cons_self
  have alone : (dopo dueBlocchi (.free 0x8001010 true)).vivi = [⟨0x80010C0, 5000, 64⟩] := by
    decide +kernel
  have snd : Ammesso (dopo dueBlocchi (.free 0x8001010 true)) (.realloc 0x80010C0 9000 true) := by
    refine ⟨.inr ⟨⟨0x80010C0, 5000, 64⟩, ?_, rfl⟩, by decide⟩
    rw [alone]
    exact mem_cons_self
  have corsa : Corsa cresciuto :=
    Reached.next (Reached.next pair ⟨fst, passo_dopo (by decide +kernel)⟩)
      ⟨snd, passo_dopo (by decide +kernel)⟩
  exact ⟨corsa, by decide +kernel, (corsa_custodita corsa).1⟩

end ExOs.Libc
