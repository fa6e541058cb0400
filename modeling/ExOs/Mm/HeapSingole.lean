import ExOs.Mm.HeapRuns

/-!
# Single calls of the kernel heap

What one `kfree` or one `kmalloc` served from the free list does to a heap
without free neighbours, and how large a block a request is given.
-/

namespace ExOs.Mm.Kmalloc

open ExOs.Library List Function

variable {regioni libere : List Nat} {r b : Nat} {blocchi : Nat → List Nat} {h : Heap}
  {vive : List (Nat × Nat)}

/-- The blocks tile their regions, the free list holds the free ones, and no
two of these are neighbours. -/
structure BenFormato (h : Heap) (regioni : List Nat) (blocchi : Nat → List Nat)
    (libere : List Nat) : Prop where
  coerente : Coerente h regioni blocchi libere [] none
  separati : ∀ r ∈ regioni, Separati h (blocchi r)

/-- The payload of the blocks of the free list. -/
def carico (h : Heap) (libere : List Nat) : Nat := (libere.map fun b => (h.blocco b).size).sum

theorem sum_lunghezza {l : List Nat} :
    (l.map (lunghezza h)).sum = blockHeaderSize * l.length + carico h l := by
  induction l with
  | nil => rfl
  | cons b rest ih =>
    simp only [carico, map_cons, sum_cons, length_cons, lunghezza] at ih ⊢
    rw [ih, Nat.mul_succ]
    omega

theorem trova {aligned : Nat} (fitting : ∃ b ∈ libere, aligned ≤ (h.blocco b).size) :
    ∃ b, (libere.find? fun b => aligned ≤ (h.blocco b).size) = some b ∧ b ∈ libere ∧
      aligned ≤ (h.blocco b).size := by
  obtain ⟨c, listed, fits⟩ := fitting
  obtain ⟨b, found⟩ : ∃ b, (libere.find? fun b => aligned ≤ (h.blocco b).size) = some b :=
    Option.isSome_iff_exists.mp (find?_isSome.mpr ⟨c, listed, by simpa using fits⟩)
  exact ⟨b, found, mem_of_find?_eq_some found, by simpa using List.find?_some found⟩

/-- What `kfree` makes of a heap when the block `b` has `n` free neighbours. -/
structure Liberato (h h' : Heap) (regioni : List Nat) (blocchi blocchi' : Nat → List Nat)
    (libere libere' : List Nat) (b n : Nat) : Prop where
  benFormato : BenFormato h' regioni blocchi' libere'
  dentro : ∃ c ∈ libere', c ≤ b ∧ b + lunghezza h b ≤ c + lunghezza h' c
  intatti : ∀ x, Appartiene regioni blocchi x → (h.blocco x).flags = .usato → x ≠ b →
    Appartiene regioni blocchi' x ∧ h'.blocco x = h.blocco x
  parola : h'.parola = h.parola
  guadagno : carico h' libere' = carico h libere + (h.blocco b).size + blockHeaderSize * n

theorem BenFormato.kfree {pre after : List Nat} (formed : BenFormato h regioni blocchi libere)
    (reg : r ∈ regioni) (shape : blocchi r = pre ++ b :: after)
    (used : (h.blocco b).flags = .usato) :
    ∃ h' blocchi' libere', kfree h (b + blockHeaderSize) = .ok h' ∧
      Liberato h h' regioni blocchi blocchi' libere libere' b
        (fusione h after.head? + fusione h pre.getLast?) := by
  have inv := formed.coerente
  obtain ⟨h₂, front, after', libere', c, ret, whole, how, stay, apartPre, apartAfter⟩ :=
    inv.kfree reg shape used
  have sep := formed.separati r reg
  rw [shape, separati_split] at sep
  have added := freeListAdd_stessiBlocchi h₂ c
  have whole' := whole.add
  set h₁ := (canarinoRotto h b).setFlags b .libero with atRelease
  have kept : ∀ x, x ≠ b → h₁.blocco x = h.blocco x := fun x ne => by
    simp [atRelease, Heap.setFlags, Heap.setBlocco, ne, canarinoRotto_blocco]
  have sizes : ∀ x, lunghezza h₁ x = lunghezza h x := by
    intro x
    by_cases isB : x = b <;>
      simp [lunghezza, atRelease, Heap.setFlags, Heap.setBlocco, isB, canarinoRotto_blocco]
  have sizes' : lunghezza (freeListAdd h₂ c) = lunghezza h₂ :=
    funext fun x => congrArg (blockHeaderSize + ·) (added.size x)
  refine ⟨freeListAdd h₂ c, _, c :: libere', ret, ⟨whole', ?_⟩,
    ⟨c, mem_cons_self, how.copre.1, ?_⟩, ?_, ?_, ?_⟩
  · intro s sIn
    by_cases isR : s = r
    · subst isR
      obtain ⟨front', last⟩ := apartPre sep.1
      obtain ⟨back', next⟩ := apartAfter sep.2.1
      rw [update_self]
      refine separati_split.mpr ⟨front'.congr fun x _ => added.flags x,
        back'.congr fun x _ => added.flags x, fun _ => ⟨fun x mem => ?_, fun x mem => ?_⟩⟩
      · exact (added.flags x).trans (last x mem)
      · exact (added.flags x).trans (next x mem)
    · rw [update_of_ne isR]
      refine (formed.separati s sIn).congr fun x mem => ?_
      have ne : x ≠ b := fun equal =>
        isR (inv.forma.blocco_unico sIn reg mem (by simp [equal, shape]))
      rw [added.flags x, how.flags x, kept x ne]
  · rw [sizes', ← sizes b]
    exact how.copre.2
  · rintro x ⟨s, sIn, mem⟩ live ne
    have still : h₂.blocco x = h.blocco x := by
      rw [how.vivi x (by rw [kept x ne, live]), kept x ne]
    have live' : (h₂.blocco x).flags = .usato := by rw [still, live]
    refine ⟨⟨s, sIn, ?_⟩, ?_⟩
    · by_cases isR : s = r
      · subst isR
        rw [update_self]
        exact stay x mem live ne
      · rwa [update_of_ne isR]
    · rw [whole.lista.add_fuori ?_ (Coerente.usato_ne live' (whole.sospesa c rfl).2), still]
      exact fun listed => Coerente.usato_ne live' ((whole.esatta x).mp listed).2.1 rfl
  · rw [freeListAdd_parola, how.parola, atRelease, canarinoRotto]
    split <;> rfl
  · have total := how.somma
    have count := how.conto
    rw [funext sizes, ← sizes', sum_lunghezza, map_cons, sum_cons, sum_lunghezza,
      lunghezza] at total
    rw [length_cons, ← count] at total
    simp only [blockHeaderSize] at total ⊢
    omega

theorem BenFormato.kmalloc {size : Nat} (formed : BenFormato h regioni blocchi libere)
    (pagine : Option Nat) (pos : 0 < size)
    (fitting : ∃ b ∈ libere, alignedSize size ≤ (h.blocco b).size) :
    ∃ h' p blocchi' libere', kmalloc h size pagine = .ok (h', p) ∧ p ≠ 0 ∧
      BenFormato h' regioni blocchi' libere' := by
  obtain ⟨b, found, listed, fits⟩ := trova fitting
  obtain ⟨blocchi', libere', served, apart⟩ :=
    formed.coerente.assegna size listed fits (Nat.zero_le _)
  refine ⟨_, _, blocchi', libere', formed.coerente.kmalloc_trovato pagine (by omega) found,
    by simp [blockHeaderSize], ?_, fun r rIn => apart r rIn (formed.separati r rIn)⟩
  exact { served with allocate := by simp, distinte := by simp }

/-- `kfree` of a live block merges it with its free neighbours and `kmalloc`
from the free list splits a block, and neither leaves two free neighbours. -/
theorem chiamate_coalescenti (formed : BenFormato h regioni blocchi libere) :
    (∀ r ∈ regioni, ∀ pre b after, blocchi r = pre ++ b :: after → (h.blocco b).flags = .usato →
      ∃ h' blocchi' libere', kfree h (b + blockHeaderSize) = .ok h' ∧
        Liberato h h' regioni blocchi blocchi' libere libere' b
          (fusione h after.head? + fusione h pre.getLast?)) ∧
    ∀ size pagine, 0 < size → (∃ b ∈ libere, alignedSize size ≤ (h.blocco b).size) →
      ∃ h' p blocchi' libere', kmalloc h size pagine = .ok (h', p) ∧ p ≠ 0 ∧
        BenFormato h' regioni blocchi' libere' :=
  ⟨fun _ reg _ _ _ shape used => formed.kfree reg shape used,
    fun _ pagine pos fitting => formed.kmalloc pagine pos fitting⟩

theorem statoIniziale_benFormato :
    BenFormato statoIniziale.heap [0x100000] (update (fun _ => []) 0x100000 [0x100008])
      [0x100008] := by
  obtain ⟨_, grown, _⟩ := (Coerente.vuoto (h := heapVuoto) rfl rfl).nuovaRegione
    (by decide : 0x100000 ≠ 0) (by simp) (by decide : 36 ≤ 65536) (by decide)
  exact ⟨grown.add, by simp [Separati]⟩

/-- Of the three blocks of the region only the middle one is in use. -/
theorem tre_benFormato :
    BenFormato statoTre.heap [0x100000] (fun _ => [0x100008, 0x10008C, 0x100110])
      [0x100008, 0x100110] := by
  have free : ∀ b ∈ [0x100008, 0x100110], (statoTre.heap.blocco b).flags = .libero := by
    decide +kernel
  have used : (statoTre.heap.blocco 0x10008C).flags = .usato := by decide +kernel
  have alone : (statoTre.heap.regione 0x100000).next = 0 := by decide +kernel
  have last : (statoTre.heap.blocco 0x100110).next = 0 := by decide +kernel
  have full : 0x100110 + lunghezza statoTre.heap 0x100110 =
      (statoTre.heap.regione 0x100000).fine := by decide +kernel
  refine ⟨⟨⟨⟨by decide +kernel, by decide, alone⟩, pairwise_singleton _ _,
    by decide +kernel, fun r member => ?_, by decide +kernel⟩, ?_, fun b => ?_, nofun, nofun,
    nodup_nil⟩, ?_⟩
  · rw [mem_singleton.mp member]
    exact ⟨rfl, by decide +kernel, by decide +kernel, full⟩
  · exact ⟨⟨by decide +kernel, by decide, by decide +kernel, by decide +kernel, by decide,
      by decide +kernel, last⟩, by decide⟩
  · constructor
    · intro listed
      refine ⟨⟨0x100000, mem_singleton_self _, ?_⟩, free b listed, nofun⟩
      exact Sublist.subset (by decide) listed
    · rintro ⟨⟨r, -, member⟩, isFree, -⟩
      have apart : b ≠ 0x10008C := fun equal => Coerente.usato_ne used isFree equal.symm
      simp_all
  · intro r _
    exact isChain_cons_cons.mpr ⟨.inr used, isChain_pair.mpr (.inl used)⟩

/-- The block between two free ones is merged with both. -/
theorem chiamate_coalescenti_tre : (∃ h' blocchi' libere',
    kfree statoTre.heap (0x10008C + blockHeaderSize) = .ok h' ∧
      Liberato statoTre.heap h' [0x100000] (fun _ => [0x100008, 0x10008C, 0x100110]) blocchi'
        [0x100008, 0x100110] libere' 0x10008C 2) ∧
    ∃ h' p blocchi' libere', kmalloc statoTre.heap 200 none = .ok (h', p) ∧ p ≠ 0 ∧
      BenFormato h' [0x100000] blocchi' libere' := by
  have merges :
      fusione statoTre.heap (some 0x100110) + fusione statoTre.heap (some 0x100008) = 2 := by
    decide +kernel
  rw [← merges]
  exact ⟨(chiamate_coalescenti tre_benFormato).1 0x100000 (by simp) [0x100008] 0x10008C [0x100110]
      rfl (by decide +kernel),
    (chiamate_coalescenti tre_benFormato).2 200 none (by decide)
      ⟨0x100110, by simp, by decide +kernel⟩⟩

/-! ## Sizes -/

/-- The payload at `p` holds the bytes asked for and, after them, the canary. -/
structure CanarinoDentro (h : Heap) (p size : Nat) : Prop where
  misura : size + 4 ≤ (h.blocco (p - blockHeaderSize)).size
  finito : p + (h.blocco (p - blockHeaderSize)).size < 2 ^ 32
  scritto : h.parola (p + size) = heapCanarino

theorem CanarinoDentro.lt {size : Nat} (dentro : CanarinoDentro h (b + blockHeaderSize) size) :
    size + 11 < 2 ^ 32 := by
  have misura := dentro.misura
  have finito := dentro.finito
  simp only [blockHeaderSize] at misura finito
  omega

theorem assegna_canarino {aligned size : Nat} (small : size + 4 < 2 ^ 32)
    (room : size + 4 ≤ ((assegna h b aligned size).blocco b).size)
    (finite : b + blockHeaderSize + size < 2 ^ 32) :
    (assegna h b aligned size).parola (b + blockHeaderSize + size) = heapCanarino := by
  rw [assegna, canarinoScrivi_blocco] at room
  have asked : parola32 size = size := parola32_of_lt (by omega)
  have there : canarinoCE (((spezza (freeListRemove h b) b aligned).setFlags b .usato).setChiesti b
      (parola32 size)) b = true := by
    simpa [canarinoCE, Heap.setChiesti, Heap.setFlags, Heap.setBlocco, asked,
      parola32_of_lt small] using room
  rw [assegna, canarinoScrivi, if_pos there]
  refine if_pos ?_
  simp [canarinoDi, Heap.setChiesti, Heap.setBlocco, asked, parola32_of_lt finite]

theorem kmalloc_capiente_iff {size : Nat} (inv : Coerente h regioni blocchi libere vive none)
    (pagine : Option Nat) (pos : 0 < size)
    (fitting : ∃ b ∈ libere, alignedSize size ≤ (h.blocco b).size) :
    (∀ h' p, kmalloc h size pagine = .ok (h', p) → p ≠ 0 → CanarinoDentro h' p size) ↔
      size + 11 < 2 ^ 32 := by
  obtain ⟨b, found, listed, fits⟩ := trova fitting
  have ret := inv.kmalloc_trovato pagine (by omega : size ≠ 0) found
  constructor
  · intro all
    exact (all _ _ ret (by simp [blockHeaderSize])).lt
  · intro small h' p got _
    rw [ret] at got
    obtain ⟨rfl, rfl⟩ := Prod.mk.inj (Except.ok.inj got)
    obtain ⟨_, _, served, _⟩ := inv.assegna size listed fits (le_alignedSize small)
    obtain ⟨x, atX, ⟨r, reg, mem⟩, _, long⟩ := served.allocate _ mem_cons_self
    have isB : x = b := by
      simp only at atX
      omega
    subst isB
    have bounds := served.forma.estremi reg mem
    have finite := served.forma.fine_lt reg
    refine ⟨by simpa using long, by simpa using by omega, ?_⟩
    exact assegna_canarino (by omega) long (by omega)

/-- The first free block is too small here. -/
theorem kmalloc_capiente_tre : (∀ h' p, kmalloc statoTre.heap 200 none = .ok (h', p) → p ≠ 0 →
      CanarinoDentro h' p 200) ↔ 200 + 11 < 2 ^ 32 :=
  kmalloc_capiente_iff tre_benFormato.coerente none (by decide)
    ⟨0x100110, by simp, by decide +kernel⟩

/-- A request of `2 ^ 32 - 4` bytes is given sixteen, and its canary is
written over the block's own header. -/
theorem kmalloc_avvolge : Sano statoIniziale.heap [] ∧
    ¬ ∀ h' p, kmalloc statoIniziale.heap 0xFFFFFFFC none = .ok (h', p) → p ≠ 0 →
      CanarinoDentro h' p 0xFFFFFFFC := by
  refine ⟨⟨_, _, _, statoIniziale_benFormato.coerente⟩, fun all => ?_⟩
  have ret := statoIniziale_benFormato.coerente.kmalloc_trovato (b := 0x100008) none
    (by decide : 0xFFFFFFFC ≠ 0) (by decide +kernel)
  exact absurd (all _ _ ret (by decide)).lt (by decide)

end ExOs.Mm.Kmalloc
