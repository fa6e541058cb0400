import ExOs.Mm.HeapInvariant
import Mathlib.Data.List.Chain

/-!
# Safety of the kernel heap

Every operation of the allocator is a sequence of edits that keep `Coerente`,
in which at most one free block is off the free list: the one being taken by
`kmalloc` or given back by `kfree`.
-/

namespace ExOs.Mm.Kmalloc

open ExOs.Library List Function Heap

/-- The heap between two edits.  `vive` are the live allocations, each with
the number of bytes asked for, and `sospeso` is the free block that is
momentarily off the free list. -/
structure Coerente (h : Heap) (regioni : List Nat) (blocchi : Nat → List Nat)
    (libere : List Nat) (vive : List (Nat × Nat)) (sospeso : Option Nat) :
    Prop where
  forma : Forma h regioni blocchi
  lista : Lista h libere
  esatta : ∀ b,
    b ∈ libere ↔ Appartiene regioni blocchi b ∧ (h.blocco b).flags = .libero ∧ sospeso ≠ some b
  sospesa : ∀ b, sospeso = some b → Appartiene regioni blocchi b ∧ (h.blocco b).flags = .libero
  allocate : ∀ v ∈ vive, ∃ b,
    v.1 = b + blockHeaderSize ∧ Appartiene regioni blocchi b ∧
      (h.blocco b).flags = .usato ∧ v.2 ≤ (h.blocco b).size
  distinte : (vive.map Prod.fst).Nodup

/-- No two neighbours among the blocks of a region are free. -/
def Separati (h : Heap) (blocchi : List Nat) : Prop :=
  blocchi.IsChain fun x y => (h.blocco x).flags = .usato ∨ (h.blocco y).flags = .usato

theorem Separati.congr {h h' : Heap} {blocchi : List Nat} (sep : Separati h blocchi)
    (same : ∀ x ∈ blocchi, (h'.blocco x).flags = (h.blocco x).flags) : Separati h' blocchi := by
  refine IsChain.imp_of_mem_imp ?_ sep
  intro x y mem yIn apart
  rwa [same x mem, same y yIn]

variable {h : Heap} {b : Nat}

theorem separati_cons {after : List Nat} : Separati h (b :: after) ↔ Separati h after ∧
      ((h.blocco b).flags = .libero → ∀ y ∈ after.head?, (h.blocco y).flags = .usato) := by
  unfold Separati
  rw [isChain_cons]
  cases (h.blocco b).flags with
  | libero => simp [and_comm]
  | usato => simp

theorem separati_split {pre after : List Nat} :
    Separati h (pre ++ b :: after) ↔ Separati h pre ∧ Separati h after ∧
      ((h.blocco b).flags = .libero → (∀ x ∈ pre.getLast?, (h.blocco x).flags = .usato) ∧
        ∀ y ∈ after.head?, (h.blocco y).flags = .usato) := by
  rw [Separati, isChain_append, ← Separati, ← Separati, separati_cons]
  cases flag : (h.blocco b).flags with
  | libero =>
    simp [flag]
    tauto
  | usato => simp [flag]

/-- What `n` merges do: the suspended block `b` has become part of `c`. -/
structure Coalescenza (h h' : Heap) (libere libere' : List Nat) (b c n : Nat) : Prop where
  flags : ∀ x, (h'.blocco x).flags = (h.blocco x).flags
  vivi : ∀ x, (h.blocco x).flags = .usato → h'.blocco x = h.blocco x
  parola : h'.parola = h.parola
  copre : c ≤ b ∧ b + lunghezza h b ≤ c + lunghezza h' c
  somma : ((c :: libere').map (lunghezza h')).sum = ((b :: libere).map (lunghezza h)).sum
  conto : libere'.length + n = libere.length

theorem Coalescenza.refl (h : Heap) (libere : List Nat) (b : Nat) :
    Coalescenza h h libere libere b b 0 :=
  ⟨fun _ => rfl, fun _ _ => rfl, rfl, ⟨Nat.le_refl _, Nat.le_refl _⟩, rfl, rfl⟩

theorem Coalescenza.trans {h h' h'' : Heap} {l l' l'' : List Nat} {b c d n m : Nat}
    (fst : Coalescenza h h' l l' b c n) (snd : Coalescenza h' h'' l' l'' c d m) :
    Coalescenza h h'' l l'' b d (n + m) where
  flags := fun x => (snd.flags x).trans (fst.flags x)
  vivi := fun x used => (snd.vivi x ((fst.flags x).trans used)).trans (fst.vivi x used)
  parola := snd.parola.trans fst.parola
  copre := ⟨snd.copre.1.trans fst.copre.1, fst.copre.2.trans snd.copre.2⟩
  somma := snd.somma.trans fst.somma
  conto := by
    have := fst.conto
    have := snd.conto
    omega

/-- How many merges a physical neighbour gives: one when it is there and free. -/
def fusione (h : Heap) (vicino : Option Nat) : Nat :=
  if vicino.any fun x => (h.blocco x).flags = .libero then 1 else 0

theorem canarinoRotto_blocco : (canarinoRotto h b).blocco = h.blocco := by
  unfold canarinoRotto
  split <;> rfl

theorem canarinoScrivi_blocco : (canarinoScrivi h b).blocco = h.blocco := by
  unfold canarinoScrivi
  split <;> rfl

namespace Coerente

variable {h : Heap} {regioni libere : List Nat} {blocchi : Nat → List Nat}
  {vive : List (Nat × Nat)} {b : Nat}

theorem usato_ne {x : Nat} (used : (h.blocco x).flags = .usato)
    (free : (h.blocco b).flags = .libero) :
    x ≠ b := by
  intro equal
  rw [equal, free] at used
  nomatch used

theorem usato_of_ne (notFree : (h.blocco b).flags ≠ .libero) : (h.blocco b).flags = .usato := by
  cases flag : (h.blocco b).flags with
  | libero => exact absurd flag notFree
  | usato => rfl

variable {sospeso : Option Nat} {h' : Heap} {blocchi' : Nat → List Nat} {r x y : Nat}
  {pre after : List Nat}

/-- The live allocations stay where the used blocks do. -/
theorem allocate_restano (sound : Coerente h regioni blocchi libere vive sospeso)
    (kept : ∀ x, Appartiene regioni blocchi x → (h.blocco x).flags = .usato →
      Appartiene regioni blocchi' x ∧ (h'.blocco x).flags = .usato ∧
        (h'.blocco x).size = (h.blocco x).size) :
    ∀ v ∈ vive, ∃ b, v.1 = b + blockHeaderSize ∧ Appartiene regioni blocchi' b ∧
      (h'.blocco b).flags = .usato ∧ v.2 ≤ (h'.blocco b).size := by
  intro v alive
  obtain ⟨x, isX, block, used, long⟩ := sound.allocate v alive
  obtain ⟨block', used', sameSize⟩ := kept x block used
  exact ⟨x, isX, block', used', sameSize ▸ long⟩

section

variable (sound : Coerente h regioni blocchi libere vive (some b))

include sound

theorem sospeso_fuori : b ∉ libere := fun listed => ((sound.esatta b).mp listed).2.2 rfl

theorem add : Coerente (freeListAdd h b) regioni blocchi (b :: libere) vive none := by
  have same := freeListAdd_stessiBlocchi h b
  obtain ⟨block, free⟩ := sound.sospesa b rfl
  refine
    { forma := ?_, lista := ?_, esatta := ?_, sospesa := ?_, allocate := ?_,
      distinte := sound.distinte }
  · exact sound.forma.congr same.regione same.regioni fun x _ => ⟨same.size x, same.magic x⟩
  · exact sound.lista.add (sound.forma.blocco_ne_zero block) sound.sospeso_fuori
  · intro x
    rw [mem_cons, sound.esatta x, same.flags x]
    constructor
    · intro either
      rcases either with equal | ⟨inRegion, isFree, _⟩
      · rw [equal]
        exact ⟨block, free, by simp⟩
      · exact ⟨inRegion, isFree, by simp⟩
    · rintro ⟨inRegion, isFree, _⟩
      by_cases equal : x = b
      · exact .inl equal
      · exact .inr ⟨inRegion, isFree, fun other => equal (Option.some.inj other).symm⟩
  · intro x impossible
    simp at impossible
  · exact sound.allocate_restano fun x block used => ⟨block, (same.flags x).trans used, same.size x⟩

end

/-! ## Splitting -/

/-- What a split leaves in the headers: `b` is cut to `aligned` bytes, and a free block of `rest`
bytes is at `y`. -/
structure Tagliata (h h' : Heap) (b y aligned rest : Nat) : Prop where
  altrove : ∀ x, x ≠ b → x ≠ y →
    StessaTesta h h' x ∧ (h'.blocco x).flags = (h.blocco x).flags
  qui : (h'.blocco b).size = aligned ∧ (h'.blocco b).magic = (h.blocco b).magic ∧
    (h'.blocco b).flags = (h.blocco b).flags
  resto : (h'.blocco y).size = rest ∧ (h'.blocco y).magic = heapMagic ∧
    (h'.blocco y).flags = .libero
  stesse : h'.regione = h.regione ∧ h'.regioni = h.regioni

theorem spezza_tagliata (aligned rest : Nat) (different : y ≠ b) :
    Tagliata h ((freeListAdd (h.nuovoLibero y rest) y).setSize b aligned) b y aligned rest := by
  have same := freeListAdd_stessiBlocchi (h.nuovoLibero y rest) y
  refine ⟨fun x notB notY => ⟨⟨?_, ?_⟩, ?_⟩, ?_, ?_, same.regione, same.regioni⟩
  · simpa [setSize, nuovoLibero, setBlocco, notB, notY] using same.size x
  · simpa [setSize, nuovoLibero, setBlocco, notB, notY] using same.magic x
  · simpa [setSize, nuovoLibero, setBlocco, notB, notY] using same.flags x
  · have after := And.intro (same.magic b) (same.flags b)
    simpa [setSize, nuovoLibero, setBlocco, different.symm] using after
  · have after := And.intro (same.size y) (And.intro (same.magic y) (same.flags y))
    simpa [setSize, nuovoLibero, setBlocco, different] using after

theorem lista_spezza (aligned rest : Nat) (lista : Lista h libere) (notNull : y ≠ 0)
    (fresh : y ∉ libere) :
    Lista ((freeListAdd (h.nuovoLibero y rest) y).setSize b aligned) (y :: libere) := by
  have listed : Lista (h.nuovoLibero y rest) libere := by
    refine lista.congr rfl ?_
    intro x listedX
    have notY : x ≠ y := fun equal => fresh (equal ▸ listedX)
    simp [nuovoLibero, setBlocco, notY]
  refine (listed.add notNull fresh).congr rfl ?_
  intro x _
  by_cases isB : x = b <;> simp [setSize, setBlocco, isB]

section

variable {aligned rest : Nat} (tagliata : Tagliata h h' b y aligned rest) (reg : r ∈ regioni)
  (shape : blocchi r = pre ++ b :: after) (fresh : ¬ Appartiene regioni blocchi y)

include tagliata reg shape fresh

theorem Tagliata.forma (forma : Forma h regioni blocchi) (isY : y = b + blockHeaderSize + aligned)
    (isRest : aligned + blockHeaderSize + rest = (h.blocco b).size) :
    Forma h' regioni (update blocchi r (pre ++ b :: y :: after)) := by
  have mem : b ∈ blocchi r := by simp [shape]
  obtain ⟨sizeB, magicB, _⟩ := tagliata.qui
  obtain ⟨sizeY, magicY, _⟩ := tagliata.resto
  refine forma.ritaglia reg (m := [b]) (n := [b, y]) shape tagliata.stesse.1 tagliata.stesse.2
    ?_ ?_ ?_
  · intro x block notB
    exact (tagliata.altrove x (by simpa using notB) fun equal => fresh (equal ▸ block)).1
  · rintro start stop ⟨isStart, isStop⟩
    rw [lunghezza] at isStop
    refine ⟨isStart, ?_, ?_⟩
    · rw [lunghezza]
      omega
    · show y + lunghezza h' y = stop
      rw [lunghezza, ← isStop]
      omega
  · intro x xIn
    rcases mem_pair.mp xIn with isB | isY
    · rw [isB, magicB]
      exact forma.firmati r reg b mem
    · rw [isY]
      exact magicY

theorem Tagliata.separati (forma : Forma h regioni blocchi) (free : (h.blocco b).flags = .libero)
    {s : Nat} (sIn : s ∈ regioni) (sep : Separati h (blocchi s)) :
    Separati (h'.setFlags b .usato) (update blocchi r (pre ++ b :: y :: after) s) := by
  have kept : ∀ x ∈ blocchi s, x ≠ b →
      ((h'.setFlags b .usato).blocco x).flags = (h.blocco x).flags := by
    intro x mem notB
    rw [← (tagliata.altrove x notB fun equal => fresh ⟨s, sIn, equal ▸ mem⟩).2]
    simp [setFlags, setBlocco, notB]
  by_cases isR : s = r
  · subst isR
    have nodup := forma.blocchi_nodup sIn
    rw [shape] at sep kept nodup
    obtain ⟨front, hafter, around⟩ := separati_split.mp sep
    rw [nodup_append, nodup_cons] at nodup
    rw [update_self]
    refine separati_split.mpr ⟨front.congr fun x mem => kept x (by simp [mem]) ?_,
      separati_cons.mpr ⟨hafter.congr fun x mem => kept x (by simp [mem]) ?_, fun _ z zIn => ?_⟩,
      ?_⟩
    · exact fun equal => nodup.2.2 x mem b (by simp) equal
    · exact fun equal => nodup.2.1.1 (equal ▸ mem)
    · have zMem := mem_of_mem_head? zIn
      rw [kept z (by simp [zMem]) fun equal => nodup.2.1.1 (equal ▸ zMem)]
      exact (around free).2 z zIn
    · intro free'
      simp [setFlags, setBlocco] at free'
  · rw [update_of_ne isR]
    refine sep.congr fun x mem => kept x mem ?_
    intro equal
    exact isR (forma.blocco_unico sIn reg mem (equal ▸ shape ▸ mem_append_cons_self))

theorem taglia (sound : Coerente h regioni blocchi libere vive (some b))
    (forma : Forma h' regioni (update blocchi r (pre ++ b :: y :: after)))
    (lista : Lista h' (y :: libere)) :
    Coerente h' regioni (update blocchi r (pre ++ b :: y :: after)) (y :: libere) vive
      (some b) := by
  obtain ⟨block, free⟩ := sound.sospesa b rfl
  have notB : y ≠ b := fun equal => fresh (equal ▸ block)
  refine ⟨forma, lista, ?_, ?_, sound.allocate_restano ?_, sound.distinte⟩
  · intro x
    rw [mem_cons, sound.esatta x, Forma.appartiene_dividi reg shape]
    by_cases isY : x = y
    · subst isY
      simp [tagliata.resto.2.2, notB.symm]
    by_cases isB : x = b
    · simp [isB, notB.symm]
    · rw [(tagliata.altrove x isB isY).2]
      simp [isY]
  · intro x equal
    rw [← Option.some.inj equal, Forma.appartiene_dividi reg shape]
    exact ⟨.inl block, tagliata.qui.2.2.trans free⟩
  · intro x inRegion used
    obtain ⟨same, sameFlags⟩ := tagliata.altrove x (usato_ne used free)
      fun equal => fresh (equal ▸ inRegion)
    exact ⟨(Forma.appartiene_dividi reg shape).mpr (.inl inRegion), sameFlags.trans used, same.size⟩

end

section

variable (sound : Coerente h regioni blocchi libere vive (some b))

include sound

theorem spezza {aligned : Nat} (fits : aligned ≤ (h.blocco b).size) :
    ∃ blocchi' libere', Coerente (spezza h b aligned) regioni blocchi' libere' vive (some b) ∧
        aligned ≤ ((Kmalloc.spezza h b aligned).blocco b).size ∧
        ∀ s ∈ regioni, Separati h (blocchi s) →
          Separati ((Kmalloc.spezza h b aligned).setFlags b .usato) (blocchi' s) := by
  obtain ⟨⟨r, reg, mem⟩, free⟩ := sound.sospesa b rfl
  have bounds := sound.forma.estremi reg mem
  have small := sound.forma.fine_lt reg
  unfold Kmalloc.spezza
  rw [meno32_of_le (by omega) fits]
  by_cases room : blockHeaderSize + heapMinSize ≤ (h.blocco b).size - aligned
  · rw [if_pos room, parola32_of_lt (by omega), meno32_of_le (by omega) (by omega)]
    dsimp only
    generalize isY : b + blockHeaderSize + aligned = y
    generalize isRest : (h.blocco b).size - aligned - blockHeaderSize = rest
    have after : b < y ∧ y < b + blockHeaderSize + (h.blocco b).size := by
      simp only [blockHeaderSize, heapMinSize] at room isY ⊢
      omega
    have fresh := sound.forma.non_appartiene_interno reg mem after.1 after.2
    have unlisted : y ∉ libere := fun listed => fresh ((sound.esatta y).mp listed).1
    have tagliata := spezza_tagliata (h := h) aligned rest after.1.ne'
    obtain ⟨pre, later, shape⟩ := append_of_mem mem
    have forma := tagliata.forma reg shape fresh sound.forma isY.symm (by omega)
    have lista := lista_spezza (b := b) aligned rest sound.lista (by omega) unlisted
    exact ⟨_, _, taglia tagliata reg shape fresh sound forma lista,
      Nat.le_of_eq tagliata.qui.1.symm,
      fun s sIn sep => tagliata.separati reg shape fresh sound.forma free sIn sep⟩
  · rw [if_neg room]
    refine ⟨blocchi, libere, sound, fits, fun s sIn sep => ?_⟩
    refine IsChain.imp_of_mem_imp ?_ sep
    simp only [setFlags, setBlocco]
    grind

end

/-! ## The flag of one block -/

/-- Only the flag at `b` changes, and what neither the tiling nor the free list reads. -/
structure Segnata (h h' : Heap) (b : Nat) (flag : Flag) : Prop where
  campi : ∀ x, (h'.blocco x).size = (h.blocco x).size ∧ (h'.blocco x).magic = (h.blocco x).magic ∧
    (h'.blocco x).next = (h.blocco x).next ∧ (h'.blocco x).prev = (h.blocco x).prev
  qui : (h'.blocco b).flags = flag
  altrove : ∀ x, x ≠ b → (h'.blocco x).flags = (h.blocco x).flags
  stesse : h'.regione = h.regione ∧ h'.regioni = h.regioni ∧ h'.freeList = h.freeList

/-- The canary is written in the payload, so no header changes with it. -/
theorem segnata_usato (chiesti : Nat) :
    Segnata h (canarinoScrivi ((h.setFlags b .usato).setChiesti b chiesti) b) b .usato := by
  refine ⟨fun x => ?_, ?_, fun x notB => ?_, ?_⟩
  · by_cases isB : x = b <;>
      simp [canarinoScrivi_blocco, setFlags, setChiesti, setBlocco, isB]
  · simp [canarinoScrivi_blocco, setFlags, setChiesti, setBlocco]
  · simp [canarinoScrivi_blocco, setFlags, setChiesti, setBlocco, notB]
  · unfold canarinoScrivi
    split <;> exact ⟨rfl, rfl, rfl⟩

theorem segnata_libero : Segnata h ((canarinoRotto h b).setFlags b .libero) b .libero := by
  refine ⟨fun x => ?_, ?_, fun x notB => ?_, ?_⟩
  · by_cases isB : x = b <;>
      simp [setFlags, setBlocco, canarinoRotto_blocco, isB]
  · simp [setFlags, setBlocco]
  · simp [setFlags, setBlocco, canarinoRotto_blocco, notB]
  · unfold canarinoRotto
    split <;> exact ⟨rfl, rfl, rfl⟩

section

variable {flag : Flag} (segnata : Segnata h h' b flag)

include segnata

theorem Segnata.forma (forma : Forma h regioni blocchi) : Forma h' regioni blocchi :=
  forma.congr segnata.stesse.1 segnata.stesse.2.1 fun x _ =>
    ⟨(segnata.campi x).1, (segnata.campi x).2.1⟩

theorem Segnata.lista (lista : Lista h libere) : Lista h' libere :=
  lista.congr segnata.stesse.2.2 fun x _ => (segnata.campi x).2.2

end

theorem segnaUsato {chiesti n : Nat}
    (sound : Coerente h regioni blocchi libere vive (some b)) (long : n ≤ (h.blocco b).size) :
    Coerente (canarinoScrivi ((h.setFlags b .usato).setChiesti b chiesti) b)
      regioni blocchi libere ((b + blockHeaderSize, n) :: vive) none := by
  obtain ⟨block, free⟩ := sound.sospesa b rfl
  have segnata := segnata_usato (h := h) (b := b) chiesti
  refine ⟨segnata.forma sound.forma, segnata.lista sound.lista, ?_, ?_, ?_, ?_⟩
  · intro x
    by_cases isB : x = b
    · rw [isB, segnata.qui]
      simp [sound.sospeso_fuori]
    rw [sound.esatta x, segnata.altrove x isB]
    have ne : some b ≠ some x := fun equal => isB (Option.some.inj equal).symm
    simp [ne]
  · intro x impossible
    simp at impossible
  · intro v alive
    rcases mem_cons.mp alive with isNew | old
    · rw [isNew]
      exact ⟨b, rfl, block, segnata.qui, (segnata.campi b).1.symm ▸ long⟩
    · exact sound.allocate_restano (fun x block used =>
        ⟨block, (segnata.altrove x (usato_ne used free)).trans used, (segnata.campi x).1⟩) v old
  · rw [map_cons, nodup_cons]
    refine ⟨?_, sound.distinte⟩
    intro already
    obtain ⟨v, alive, atV⟩ := mem_map.mp already
    obtain ⟨x, atX, _, used, _⟩ := sound.allocate v alive
    refine usato_ne used free ?_
    omega

section

variable (sound : Coerente h regioni blocchi libere vive none)

include sound

theorem remove (mem : b ∈ libere) :
    Coerente (freeListRemove h b) regioni blocchi (libere.erase b) vive (some b) := by
  have same := freeListRemove_stessiBlocchi h b
  obtain ⟨block, free, _⟩ := (sound.esatta b).mp mem
  refine
    { forma := ?_, lista := sound.lista.remove mem, esatta := ?_, sospesa := ?_, allocate := ?_,
      distinte := sound.distinte }
  · exact sound.forma.congr same.regione same.regioni fun x _ => ⟨same.size x, same.magic x⟩
  · intro x
    rw [sound.lista.nodup.mem_erase_iff, sound.esatta x, same.flags x]
    constructor
    · rintro ⟨ne, inRegion, isFree, _⟩
      exact ⟨inRegion, isFree, fun equal => ne (Option.some.inj equal).symm⟩
    · rintro ⟨inRegion, isFree, ne⟩
      exact ⟨fun equal => ne (congrArg some equal.symm), inRegion, isFree, by simp⟩
  · intro x equal
    rw [← Option.some.inj equal, same.flags b]
    exact ⟨block, free⟩
  · exact sound.allocate_restano fun x block used => ⟨block, (same.flags x).trans used, same.size x⟩

theorem assegna {aligned n : Nat} (size : Nat) (mem : b ∈ libere)
    (fits : aligned ≤ (h.blocco b).size) (enough : n ≤ aligned) :
    ∃ blocchi' libere', Coerente (assegna h b aligned size) regioni blocchi' libere'
        ((b + blockHeaderSize, n) :: vive) none ∧ ∀ s ∈ regioni, Separati h (blocchi s) →
        Separati (Kmalloc.assegna h b aligned size) (blocchi' s) := by
  have same := freeListRemove_stessiBlocchi h b
  have fitsStill : aligned ≤ ((freeListRemove h b).blocco b).size := (same.size b).symm ▸ fits
  obtain ⟨blocchi', libere', split, long, apart⟩ := (sound.remove mem).spezza fitsStill
  refine ⟨blocchi', libere', split.segnaUsato (Nat.le_trans enough long), fun s sIn sep => ?_⟩
  refine (apart s sIn (sep.congr fun x _ => same.flags x)).congr fun x _ => ?_
  by_cases isB : x = b <;>
    simp [Kmalloc.assegna, canarinoScrivi_blocco, setChiesti, setBlocco, isB]

theorem rilascia (block : Appartiene regioni blocchi b) (used : (h.blocco b).flags = .usato) :
    Coerente ((canarinoRotto h b).setFlags b .libero) regioni blocchi libere
      (vive.filter fun v => v.1 ≠ b + blockHeaderSize) (some b) := by
  have segnata := segnata_libero (h := h) (b := b)
  refine ⟨segnata.forma sound.forma, segnata.lista sound.lista, ?_, ?_, ?_, ?_⟩
  · intro x
    rw [sound.esatta x]
    by_cases isB : x = b
    · simp [isB, used]
    · have ne : some b ≠ some x := fun equal => isB (Option.some.inj equal).symm
      simp [segnata.altrove x isB, ne]
  · intro x equal
    rw [← Option.some.inj equal]
    exact ⟨block, segnata.qui⟩
  · intro v alive
    obtain ⟨old, notFreed⟩ := mem_filter.mp alive
    obtain ⟨x, atX, inRegion, usedX, long⟩ := sound.allocate v old
    have notB : x ≠ b := by
      intro equal
      rw [equal] at atX
      simp [atX] at notFreed
    exact ⟨x, atX, inRegion, (segnata.altrove x notB).trans usedX, (segnata.campi x).1.symm ▸ long⟩
  · exact sound.distinte.sublist ((filter_sublist).map Prod.fst)

end

/-! ## Merging -/

/-- The writes of a merge: `altro` leaves the free list and `x` grows over `y`. -/
def fuso (h : Heap) (altro x y : Nat) : Heap :=
  let h₁ := freeListRemove h altro
  h₁.setSize x (parola32 ((h₁.blocco x).size + (blockHeaderSize + (h₁.blocco y).size)))

/-- What a merge leaves in the headers. -/
structure Fusa (h h' : Heap) (x y : Nat) : Prop where
  lunga : (h'.blocco x).size = (h.blocco x).size + (blockHeaderSize + (h.blocco y).size)
  altrove : ∀ z, z ≠ x → (h'.blocco z).size = (h.blocco z).size
  magic : ∀ z, (h'.blocco z).magic = (h.blocco z).magic
  flags : ∀ z, (h'.blocco z).flags = (h.blocco z).flags

theorem fuso_fusa (altro : Nat)
    (small : (h.blocco x).size + (blockHeaderSize + (h.blocco y).size) < 2 ^ 32) :
    Fusa h (fuso h altro x y) x y := by
  have same := freeListRemove_stessiBlocchi h altro
  unfold fuso
  dsimp only
  rw [same.size x, same.size y, parola32_of_lt small]
  refine ⟨?_, fun z notX => ?_, fun z => ?_, fun z => ?_⟩
  · simp [setSize, setBlocco]
  · simpa [setSize, setBlocco, notX] using same.size z
  · rw [← same.magic z]
    by_cases isX : z = x <;> simp [setSize, setBlocco, isX]
  · rw [← same.flags z]
    by_cases isX : z = x <;> simp [setSize, setBlocco, isX]

section

/- Two neighbouring free blocks, one suspended and one listed. -/
variable {sospeso altro : Nat} (sound : Coerente h regioni blocchi libere vive (some sospeso))
  (reg : r ∈ regioni) (shape : blocchi r = pre ++ x :: y :: after)
  (pair : (altro = x ∧ sospeso = y) ∨ (altro = y ∧ sospeso = x)) (listed : altro ∈ libere)

include sound reg shape

theorem vicini : y = x + blockHeaderSize + (h.blocco x).size ∧
    (h.blocco x).size + (blockHeaderSize + (h.blocco y).size) < 2 ^ 32 := by
  have tiling := sound.forma.tessere r reg
  rw [shape, Tiles.split_iff] at tiling
  have atY := tiling.2.1
  simp only [lunghezza] at atY
  have yEnd := (sound.forma.estremi reg (b := y) (by simp [shape])).2
  have finite := sound.forma.fine_lt reg
  omega

theorem fusa_forma (fusa : Fusa h h' x y)
    (stesse : h'.regione = h.regione ∧ h'.regioni = h.regioni) :
    Forma h' regioni (update blocchi r (pre ++ x :: after)) := by
  have neighbours := (sound.vicini reg shape).1
  have long := fusa.lunga
  refine sound.forma.ritaglia reg (m := [x, y]) (n := [x]) shape stesse.1 stesse.2 ?_ ?_ ?_
  · intro z _ out
    exact ⟨fusa.altrove z fun equal => out (by simp [equal]), fusa.magic z⟩
  · rintro start stop ⟨isStart, isY, isStop⟩
    refine ⟨isStart, ?_⟩
    show x + lunghezza h' x = stop
    have ends : y + lunghezza h y = stop := isStop
    rw [lunghezza] at ends
    rw [lunghezza]
    omega
  · intro z zIn
    rw [mem_singleton.mp zIn, fusa.magic x]
    exact sound.forma.firmati r reg x (by simp [shape])

include pair listed

omit reg shape in
theorem vicini_liberi : (h.blocco x).flags = .libero ∧ (h.blocco y).flags = .libero := by
  have freeAltro := ((sound.esatta altro).mp listed).2.1
  have freeSospeso := (sound.sospesa sospeso rfl).2
  rcases pair with ⟨isX, isY⟩ | ⟨isY, isX⟩
  · exact ⟨isX ▸ freeAltro, isY ▸ freeSospeso⟩
  · exact ⟨isX ▸ freeSospeso, isY ▸ freeAltro⟩

/-- The two become one suspended block. -/
theorem unisci : Coerente (fuso h altro x y) regioni (update blocchi r (pre ++ x :: after))
    (libere.erase altro) vive (some x) := by
  have same := freeListRemove_stessiBlocchi h altro
  obtain ⟨neighbours, small⟩ := sound.vicini reg shape
  obtain ⟨freeX, freeY⟩ := sound.vicini_liberi pair listed
  have fusa := fuso_fusa altro small
  have members := sound.forma.appartiene_fondi reg shape
  refine ⟨sound.fusa_forma reg shape fusa ⟨same.regione, same.regioni⟩, ?_, ?_, ?_,
    sound.allocate_restano ?_, sound.distinte⟩
  · refine (sound.lista.remove listed).congr rfl ?_
    intro z _
    by_cases isX : z = x <;> simp [fuso, setSize, setBlocco, isX]
  · intro z
    rw [sound.lista.nodup.mem_erase_iff, sound.esatta z, members z, fusa.flags z]
    rcases pair with ⟨isX, isY⟩ | ⟨isY, isX⟩ <;> grind
  · intro z equal
    rw [← Option.some.inj equal, members x, fusa.flags x]
    refine ⟨⟨⟨r, reg, by simp [shape]⟩, ?_⟩, freeX⟩
    simp only [blockHeaderSize] at neighbours
    omega
  · intro z inRegion used
    exact ⟨(members z).mpr ⟨inRegion, usato_ne used freeY⟩, (fusa.flags z).trans used,
      fusa.altrove z (usato_ne used freeX)⟩

theorem coalescenza : Coalescenza h (fuso h altro x y) libere (libere.erase altro) sospeso x 1 := by
  obtain ⟨neighbours, small⟩ := sound.vicini reg shape
  have freePair := sound.vicini_liberi pair listed
  have fusa := fuso_fusa altro small
  have long := fusa.lunga
  refine ⟨fusa.flags, fun z used => ?_, freeListRemove_parola, ?_, ?_, ?_⟩
  · have notListed : z ∉ libere := fun mem => usato_ne used ((sound.esatta z).mp mem).2.1 rfl
    rw [← sound.lista.remove_fuori listed notListed]
    simp [fuso, setSize, setBlocco, usato_ne used freePair.1]
  · rw [lunghezza, lunghezza]
    rcases pair with ⟨isX, isY⟩ | ⟨isY, isX⟩
    · rw [isY]
      omega
    · rw [isX]
      omega
  · have others : (libere.erase altro).map (lunghezza (fuso h altro x y)) =
        (libere.erase altro).map (lunghezza h) := by
      refine map_congr_left fun z mem => ?_
      rw [sound.lista.nodup.mem_erase_iff] at mem
      have notX : z ≠ x := by
        rcases pair with ⟨isX, isY⟩ | ⟨isY, isX⟩
        · exact isX ▸ mem.1
        · exact fun equal => ((sound.esatta z).mp mem.2).2.2 (by rw [equal, isX])
      rw [lunghezza, fusa.altrove z notX, ← lunghezza]
    rw [map_cons, others, map_cons, sum_cons, sum_cons,
      ((perm_cons_erase listed).map (lunghezza h)).sum_nat, map_cons, sum_cons, lunghezza, long]
    rcases pair with ⟨isX, isY⟩ | ⟨isY, isX⟩ <;> rw [isX, isY, lunghezza, lunghezza] <;> omega
  · have := length_pos_of_mem listed
    rw [length_erase_of_mem listed]
    omega

end

variable (sound : Coerente h regioni blocchi libere vive (some b))

include sound

theorem avanti (reg : r ∈ regioni) (shape : blocchi r = pre ++ b :: after) :
    ∃ after' libere', Coerente (unisciAvanti h r b) regioni
        (update blocchi r (pre ++ b :: after')) libere' vive (some b) ∧
      Coalescenza h (unisciAvanti h r b) libere libere' b b (fusione h after.head?) ∧
      (∀ x ∈ after, (h.blocco x).flags = .usato → x ∈ after') ∧
      (Separati h after → Separati h after' ∧ ∀ y ∈ after'.head?, (h.blocco y).flags = .usato) := by
  have unchanged : Coerente h regioni (update blocchi r (pre ++ b :: after)) libere vive
        (some b) := by
    rw [← shape, update_eq_self]
    exact sound
  have bMember : b ∈ blocchi r := by simp [shape]
  have bounds := sound.forma.estremi reg bMember
  have finite := sound.forma.fine_lt reg
  have tiling := sound.forma.tessere r reg
  rw [shape, Tiles.split_iff] at tiling
  have atNext : blockNextPhys h b = b + blockHeaderSize + (h.blocco b).size :=
    parola32_of_lt (by omega)
  unfold unisciAvanti
  cases after with
  | nil =>
    -- The last block of its region: the next address is `fine`.
    have atEnd : b + lunghezza h b = (h.regione r).fine := tiling.2
    have out : dentroRegione h r (blockNextPhys h b) = false := by
      apply sound.forma.dentroRegione_false reg
      simp only [lunghezza] at atEnd
      omega
    rw [if_neg (by simp [out])]
    exact ⟨[], libere, unchanged, .refl .., fun x mem _ => mem, fun sep => ⟨sep, by simp⟩⟩
  | cons y rest =>
    have yMem : y ∈ blocchi r := by simp [shape]
    have atY : blockNextPhys h b = y := by
      have following := tiling.2.1
      simp only [lunghezza] at following
      omega
    have inside := sound.forma.dentroRegione_true reg yMem
    have valid := sound.forma.blockValid_true ⟨r, reg, yMem⟩
    by_cases free : (h.blocco y).flags = .libero
    · have listed : y ∈ libere := by
        rw [sound.esatta y]
        refine ⟨⟨r, reg, yMem⟩, free, ?_⟩
        intro equal
        have isB : b = y := Option.some.inj equal
        simp only [blockHeaderSize] at atNext
        omega
      rw [atY, if_pos ⟨inside, valid, free⟩]
      have how := sound.coalescenza reg shape (.inr ⟨rfl, rfl⟩) listed
      have once : fusione h (y :: rest).head? = 1 := by simp [fusione, free]
      refine ⟨rest, libere.erase y, sound.unisci reg shape (.inr ⟨rfl, rfl⟩) listed, once ▸ how,
        fun x mem used => ?_, fun sep =>
        ⟨(separati_cons.mp sep).1, (separati_cons.mp sep).2 free⟩⟩
      exact (mem_cons.mp mem).resolve_left (usato_ne used free)
    · rw [atY, if_neg (fun all => free all.2.2)]
      have never : fusione h (y :: rest).head? = 0 := by simp [fusione, free]
      refine ⟨y :: rest, libere, unchanged, never ▸ .refl .., fun x mem _ => mem,
        fun sep => ⟨sep, ?_⟩⟩
      simpa using usato_of_ne free

theorem indietro (reg : r ∈ regioni) (shape : blocchi r = pre ++ b :: after) :
    ∃ front libere', Coerente (unisciIndietro h (pre.getLastD 0) b).1 regioni
        (update blocchi r (front ++ (unisciIndietro h (pre.getLastD 0) b).2 :: after)) libere' vive
        (some (unisciIndietro h (pre.getLastD 0) b).2) ∧
      Coalescenza h (unisciIndietro h (pre.getLastD 0) b).1 libere libere' b
        (unisciIndietro h (pre.getLastD 0) b).2 (fusione h pre.getLast?) ∧
      (∀ x ∈ pre, (h.blocco x).flags = .usato → x ∈ front) ∧
      (Separati h pre → Separati h front ∧ ∀ x ∈ front.getLast?, (h.blocco x).flags = .usato) := by
  have unchanged : Coerente h regioni (update blocchi r (pre ++ b :: after)) libere vive
        (some b) := by
    rw [← shape, update_eq_self]
    exact sound
  unfold unisciIndietro
  rcases eq_nil_or_concat pre with empty | ⟨front, p, concat⟩
  · have fst : pre.getLastD 0 = 0 := by
      rw [empty]
      rfl
    rw [if_neg (fun both => both.1 fst)]
    exact ⟨pre, libere, unchanged, by simpa [empty] using .refl .., fun x mem _ => mem,
      fun sep => ⟨sep, by simp [empty]⟩⟩
  · rw [concat_eq_append] at concat
    have shape' : blocchi r = front ++ p :: b :: after := by
      rw [shape, concat]
      simp
    have pMember : p ∈ blocchi r := by simp [shape']
    have ne := sound.forma.blocco_ne_zero ⟨r, reg, pMember⟩
    rw [concat, getLastD_concat]
    by_cases free : (h.blocco p).flags = .libero
    · have listed : p ∈ libere := by
        rw [sound.esatta p]
        refine ⟨⟨r, reg, pMember⟩, free, ?_⟩
        intro equal
        have isB : b = p := Option.some.inj equal
        have nodup := sound.forma.blocchi_nodup reg
        rw [shape', isB] at nodup
        simp [nodup_append] at nodup
      have how := sound.coalescenza reg shape' (.inl ⟨rfl, rfl⟩) listed
      have once : fusione h (front ++ [p]).getLast? = 1 := by simp [fusione, free]
      rw [if_pos ⟨ne, free⟩]
      refine ⟨front, _, sound.unisci reg shape' (.inl ⟨rfl, rfl⟩) listed, once ▸ how,
        fun x mem used => ?_, fun sep => ?_⟩
      · simpa [usato_ne used free] using mem
      obtain ⟨apart, _, around⟩ := separati_split.mp sep
      exact ⟨apart, (around free).1⟩
    · rw [if_neg (fun both => free both.2)]
      have never : fusione h (front ++ [p]).getLast? = 0 := by simp [fusione, free]
      refine ⟨pre, libere, unchanged, never ▸ .refl .., fun x mem _ => concat ▸ mem,
        fun sep => ⟨concat ▸ sep, ?_⟩⟩
      simpa [concat] using usato_of_ne free

end Coerente

end ExOs.Mm.Kmalloc
