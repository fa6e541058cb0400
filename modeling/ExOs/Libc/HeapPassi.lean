import ExOs.Libc.HeapBlocchi

/-!
# What the functions of the heap do to the block list

One lemma for each function, over any coherent heap: the list it leaves,
written with `absorb` and `trim`; that the bytes in use stay as they were; and
that the break does not move, where it does not.
-/

namespace ExOs.Libc

open ExOs.Library List

/-- From one coherent heap to another, with the same break and the same bytes in use. -/
structure Passa (h : Heap) (bs : List Block) (h' : Heap) (bs' : List Block) : Prop where
  coerente : Coerente h' bs' []
  intatta : Intatta bs h h'
  spazio : h'.spazio = h.spazio

/-! ## A block takes in the next one -/

section Absorb

variable {h : Heap} {bs pre after : List Block} {x y : Block} {sospesi : List Nat}

section

variable (inv : Coerente h bs sospesi) (mem : x ∈ bs)

include inv mem

theorem Coerente.fineDi : h.fineDi x.start = x.stop := by
  have isDim := inv.dim mem
  have facts := inv.disposti.multipli x mem
  rw [Block.stop] at facts
  rw [Heap.fineDi, parola32_of_lt (by rw [bloccoHdr]; omega), bloccoHdr, Block.stop]
  omega

theorem Coerente.libero_iff : h.libero x.start ≠ 0 ↔ x.free = true := by
  rw [inv.libero mem]
  cases x.free <;> decide

theorem Coerente.libero_zero (busy : x.free = false) : h.libero x.start = 0 := by
  rw [inv.libero mem, busy]
  rfl

end

theorem Coerente.passa (inv : Coerente h bs []) : Passa h bs h bs := ⟨inv, Intatta.refl bs h, rfl⟩

theorem Coerente.assorbi_vicino (inv : Coerente h (pre ++ x :: y :: after) [])
    (yFree : y.free = true) (touch : x.stop = y.start) :
    Passa h (pre ++ x :: y :: after) (heapAssorbiSucc h x.start)
      (pre ++ { x with size := x.size + y.size } :: after) := by
  have xMem : x ∈ pre ++ x :: y :: after := mem_append_cons_self
  have yMem : y ∈ pre ++ x :: y :: after := mem_middle.mpr (.inr mem_append_cons_self)
  have yPositive := (inv.disposti.multipli y yMem).2.2.1
  have isSucc : h.succ x.start = y.start := inv.riflette.succ_eq
  have differ : y.start ≠ x.start := inv.disposti.altri_start mem_append_cons_self
  have enters : ¬(h.succ x.start = 0 ∨ h.libero (h.succ x.start) = 0) := by
    rw [isSucc]
    rintro (null | busy)
    · omega
    · exact (inv.libero_iff yMem).mpr yFree busy
  have meets : h.fineDi x.start = h.succ x.start := by
    rw [inv.fineDi xMem, isSucc]
    exact touch
  have runs : heapAssorbiSucc h x.start =
      (let h₁ := cassettoTogli h y.start
      let h₂ := if h₁.libero x.start ≠ 0 then cassettoTogli h₁ x.start else h₁
      let h₃ := Libc.unisci h₂ x.start y.start
      if h₃.libero x.start ≠ 0 then cassettoMetti h₃ x.start else h₃) := by
    rw [heapAssorbiSucc, if_neg enters, if_neg (fun wrong => wrong meets), isSucc]
  obtain ⟨fst, firstSame, firstSpazio⟩ := inv.togli yMem rfl yFree not_mem_nil
  rw [runs]
  generalize cassettoTogli h y.start = h₁ at fst firstSame firstSpazio
  dsimp only
  -- A block in use is in no drawer, a free one leaves its own and comes back longer.
  rcases Bool.eq_false_or_eq_true x.free with xFree | xFree
  · rw [if_pos ((fst.libero_iff xMem).mpr xFree)]
    obtain ⟨snd, secondSame, secondSpazio⟩ := fst.togli xMem rfl xFree
      (fun wrong => differ (mem_singleton.mp wrong).symm)
    obtain ⟨joined, joinedSame, joinedSpazio⟩ := snd.unisci [x.start] touch
      (.inr mem_cons_self) (.inr (mem_cons_of_mem _ mem_cons_self))
      (.inr mem_cons_self)
      (fun c other => by simp only [mem_cons, other, not_mem_nil, or_false])
    have newMember : { x with size := x.size + y.size } ∈
        pre ++ { x with size := x.size + y.size } :: after := mem_append_cons_self
    have free := (joined.libero_iff newMember).mpr xFree
    rw [if_pos free]
    obtain ⟨last, lastSame, lastSpazio⟩ := joined.metti newMember rfl xFree not_mem_nil
    refine ⟨last, ?_, lastSpazio.trans (joinedSpazio.trans (secondSpazio.trans firstSpazio))⟩
    refine (firstSame.trans secondSame).trans (joinedSame.trans ?_)
    refine fun a used => lastSame a (used.mono fun z busy mem => ?_)
    rw [mem_libero xFree busy, mem_libero yFree busy] at mem
    exact mem_middle.mpr (.inr mem)
  · have busy : ¬h₁.libero x.start ≠ 0 := not_not_intro (fst.libero_zero xMem xFree)
    rw [if_neg busy]
    obtain ⟨joined, joinedSame, joinedSpazio⟩ := fst.unisci [] touch (.inl xFree)
      (.inr mem_cons_self) (.inl xFree)
      (fun c other => by rw [mem_singleton]; exact iff_of_false other not_mem_nil)
    have newMember : { x with size := x.size + y.size } ∈
        pre ++ { x with size := x.size + y.size } :: after := mem_append_cons_self
    have stillBusy : ¬(Libc.unisci h₁ x.start y.start).libero x.start ≠ 0 :=
      not_not_intro (joined.libero_zero (x := { x with size := x.size + y.size }) newMember xFree)
    rw [if_neg stillBusy]
    exact ⟨joined, firstSame.trans joinedSame, joinedSpazio.trans firstSpazio⟩

section

variable (inv : Coerente h (pre ++ x :: after) [])

include inv

theorem Coerente.assorbi :
    Passa h (pre ++ x :: after) (heapAssorbiSucc h x.start) (pre ++ Block.absorb x after) := by
  rcases Block.absorb_cases x after with ⟨same, apart⟩ | ⟨y, rest, shape, yFree, touch, joined⟩
  · have stays : heapAssorbiSucc h x.start = h := by
      rw [heapAssorbiSucc]
      rcases inv.riflette.succ_cases with ⟨_, null⟩ | ⟨y, rest, shape, isY⟩
      · rw [if_pos (.inl null)]
      have xMem : x ∈ pre ++ x :: after := mem_append_cons_self
      have yMem : y ∈ pre ++ x :: after := by
        rw [shape]
        exact mem_middle.mpr (.inr mem_append_cons_self)
      by_cases busy : h.libero (h.succ x.start) = 0
      · rw [if_pos (.inr busy)]
      have away : h.fineDi x.start ≠ h.succ x.start := by
        rw [inv.fineDi xMem, isY]
        rw [isY] at busy
        intro touch
        exact apart y (by rw [shape]; rfl) ⟨(inv.libero_iff yMem).mp busy, touch⟩
      split <;> rfl
    rw [same, stays]
    exact inv.passa
  · rw [joined]
    rw [shape] at inv ⊢
    exact inv.assorbi_vicino yFree touch

theorem Coerente.fondi : Passa h (pre ++ x :: after) (heapFondiConSucc h x.start)
      (pre ++ if x.free then Block.absorb x after else x :: after) := by
  have xMem : x ∈ pre ++ x :: after := mem_append_cons_self
  have isFree := inv.libero_iff xMem
  rw [heapFondiConSucc]
  cases xFree : x.free with
  | false =>
    rw [if_pos (inv.libero_zero xMem xFree)]
    exact inv.passa
  | true =>
    rw [if_neg (isFree.mpr xFree)]
    exact inv.assorbi

theorem Coerente.fondi_prec : Passa h (pre ++ x :: after)
      (if h.prec x.start ≠ 0 then heapFondiConSucc h (h.prec x.start) else h)
      (Block.absorbLast pre (x :: after)) := by
  have isPrec := inv.riflette.prec_eq
  rcases eq_nil_or_concat' pre with empty | ⟨front, p, shape⟩
  · rw [empty] at isPrec
    rw [if_neg (fun wrong => wrong isPrec), empty]
    rw [empty] at inv
    exact inv.passa
  have isP : h.prec x.start = p.start := by
    rw [isPrec, shape, map_append, map_singleton, getLastD_append_cons]
    rfl
  rw [shape, append_assoc] at inv
  have pos := (inv.disposti.multipli p mem_append_cons_self).2.2.1
  have ne : p.start ≠ 0 := by omega
  rw [isP, if_pos ne, shape, Block.absorbLast_concat, append_assoc]
  exact inv.fondi

end

end Absorb

section Trim

variable {h : Heap} {pre after : List Block} {x r : Block} {k utile a : Nat}

theorem Occupato.taglia (used : Occupato (pre ++ x :: after) a)
    (out : a < x.start + k ∨ x.stop ≤ a) :
    Occupato (pre ++ { x with size := k } :: r :: after) a := by
  obtain ⟨y, mem, busy, lower, upper⟩ := used
  rcases mem_middle.mp mem with isX | other
  · rw [isX] at busy lower upper
    exact ⟨{ x with size := k }, mem_append_cons_self, busy, lower, out.resolve_right (by omega)⟩
  · exact ⟨y, mem_middle.mpr (.inr (mem_middle.mpr (.inr other))), busy, lower, upper⟩

theorem Coerente.spezza (inv : Coerente h (pre ++ x :: after) []) (busy : x.free = false)
    (mul : utile % 16 = 0) (room : utile + 16 ≤ x.size) (small : utile + 48 < 2 ^ 32) :
    Coerente (heapSpezza h x.start utile) (pre ++ Block.trim (utile + 16) 48 x after) [] ∧
      (heapSpezza h x.start utile).spazio = h.spazio ∧
      ∀ a, Occupato (pre ++ x :: after) a → a < x.start + (utile + 16) ∨ x.stop ≤ a →
        (heapSpezza h x.start utile).mem a = h.mem a := by
  have xMem : x ∈ pre ++ x :: after := mem_append_cons_self
  have isDim := inv.dim xMem
  have facts := inv.disposti.multipli x xMem
  rw [Block.stop] at facts
  have needed : parola32 (utile + bloccoHdr + heapMinSpezza) = utile + 48 := by
    rw [parola32_of_lt (by rw [bloccoHdr, heapMinSpezza]; omega), bloccoHdr, heapMinSpezza]
  rw [heapSpezza, Block.trim]
  split
  · rw [if_pos (by omega)]
    exact ⟨inv, rfl, fun _ _ _ => rfl⟩
  rw [if_neg (by omega)]
  have isResto : parola32 (x.start + bloccoHdr + utile) = x.start + (utile + 16) := by
    rw [parola32_of_lt (by rw [bloccoHdr]; omega), bloccoHdr]
    omega
  have isLeft : meno32 (meno32 (h.dim x.start) utile) bloccoHdr = x.size - (utile + 16) - 16 := by
    have dimSmall : h.dim x.start < 2 ^ 32 := parola_lt h
    rw [meno32_of_le dimSmall (by omega), meno32_of_le (by omega) (by rw [bloccoHdr]; omega),
      bloccoHdr]
    omega
  rw [isResto, isLeft]
  obtain ⟨divided, sameDivided⟩ := inv.dividi (k := utile + 16) true
    [x.start + (utile + 16)] busy (by omega) (by omega) (by omega) (.inr mem_cons_self)
    (fun c other => iff_of_false not_mem_nil (fun wrong => other (mem_singleton.mp wrong)))
  have spazioDivided :=
    (inserisci_altro h x.start (x.start + (utile + 16)) (x.size - (utile + 16) - 16)
    1 utile).2.1
  rw [if_pos rfl, Nat.add_sub_cancel] at divided sameDivided
  obtain ⟨placed, samePlaced, spazioPlaced⟩ :=
    divided.metti (x := ⟨x.start + (utile + 16), x.size - (utile + 16), true⟩)
    (mem_middle.mpr (.inr mem_append_cons_self)) rfl rfl not_mem_nil
  have shape : ∀ rest : List Block, pre ++ { x with size := utile + 16 } :: rest =
      (pre ++ [{ x with size := utile + 16 }]) ++ rest := by
    intro rest
    rw [append_assoc, singleton_append]
  have shifted := placed
  rw [shape] at shifted
  have merged := shifted.fondi
  rw [← shape, ← shape] at merged
  refine ⟨merged.coerente, merged.spazio.trans (spazioPlaced.trans spazioDivided), ?_⟩
  intro a used out
  have still := used.taglia (k := utile + 16)
    (r := ⟨x.start + (utile + 16), x.size - (utile + 16), true⟩) out
  rw [merged.intatta a still, samePlaced a still]
  refine sameDivided a used ?_
  rw [Block.stop] at out
  omega

end Trim

section Search

variable {h : Heap} {bs : List Block} {liste : Nat → List Nat} {nodes : List Nat}

theorem cercaNel_eq {utile i : Nat} :
    ∀ {fuel head : Nat}, Chain h.dopo head nodes → nodes.length < fuel →
      ∃ b, cercaNel h utile i fuel head = some b ∧ (b = 0 ∨ b ∈ nodes ∧ utile ≤ h.dim b) := by
  induction nodes with
  | nil =>
    intro fuel head chain enough
    have null : head = 0 := chain
    cases fuel with
    | zero => exact absurd enough (Nat.not_lt_zero _)
    | succ fuel => exact ⟨0, by rw [cercaNel, if_pos null], .inl rfl⟩
  | cons fst rest ih =>
    intro fuel head chain enough
    obtain ⟨atHead, ne, tail⟩ := chain
    subst atHead
    cases fuel with
    | zero => exact absurd enough (Nat.not_lt_zero _)
    | succ fuel =>
      rw [cercaNel, if_neg ne]
      by_cases fits : utile ≤ h.dim head
      · exact ⟨head, by rw [if_pos fits], .inr ⟨mem_cons_self, fits⟩⟩
      rw [if_neg fits]
      by_cases precise : i < 64
      · exact ⟨0, by rw [if_pos precise], .inl rfl⟩
      · rw [if_neg precise]
        obtain ⟨b, runs, found⟩ := ih tail (Nat.lt_of_succ_lt_succ enough)
        exact ⟨b, runs, found.imp_right fun inRest => ⟨mem_cons_of_mem _ inRest.1, inRest.2⟩⟩

theorem Legami.corta (links : Legami h bs [] liste) (laid : Disposti bs) {i : Nat}
    (lt : i < heapCassetti) : (liste i).length < indirizzi := by
  refine length_lt_of_addresses (links.nodup i lt) (by decide) ?_
  intro b mem
  have facts := ((links.membri i lt b).mp mem).multiplo laid
  exact ⟨by omega, facts.2.2⟩

theorem Legami.cercaDa_eq (links : Legami h bs [] liste) (laid : Disposti bs) (utile : Nat)
    (cassetti : Nat) : ∀ i, i + cassetti ≤ heapCassetti → ∃ b, cercaDa h utile cassetti i = some b ∧
        (b = 0 ∨ (∃ k, InCassetto bs [] k b) ∧ utile ≤ h.dim b) := by
  induction cassetti with
  | zero => exact fun i _ => ⟨0, rfl, .inl rfl⟩
  | succ cassetti ih =>
    intro i le
    have here : i < heapCassetti := by omega
    obtain ⟨b, runs, found⟩ := cercaNel_eq (links.legati i here).chain (links.corta laid here)
    rw [cercaDa, runs, Option.bind_eq_bind, Option.bind_some]
    by_cases null : b = 0
    · rw [if_neg (fun wrong => wrong null)]
      exact ih (i + 1) (by omega)
    · rw [if_pos null]
      obtain ⟨mem, fits⟩ := found.resolve_left null
      exact ⟨b, rfl, .inr ⟨⟨i, (links.membri i here b).mp mem⟩, fits⟩⟩

/-- `cassetto_cerca` returns: nothing, or a free block that is long enough and left its
drawer. -/
theorem Coerente.cerca (inv : Coerente h bs []) (utile : Nat) :
    cassettoCerca h utile = some (h, 0) ∨
      ∃ pre x after, bs = pre ++ x :: after ∧ x.free = true ∧ utile + 16 ≤ x.size ∧
        cassettoCerca h utile = some (cassettoTogli h x.start, x.start) := by
  obtain ⟨liste, links⟩ := inv.cassetti
  have drawer := cassettoDi_lt utile
  obtain ⟨b, runs, found⟩ := links.cercaDa_eq inv.disposti utile
    (heapCassetti - cassettoDi utile) (cassettoDi utile) (by omega)
  rw [cassettoCerca]
  rw [runs, Option.bind_eq_bind, Option.bind_some]
  by_cases null : b = 0
  · rw [if_neg (fun wrong => wrong null)]
    exact .inl rfl
  rw [if_pos null]
  obtain ⟨⟨_, _, x, mem, isB, free, _, _⟩, fits⟩ := found.resolve_left null
  obtain ⟨pre, after, shape⟩ := append_of_mem mem
  have isDim := inv.dim mem
  rw [isB] at isDim
  refine .inr ⟨pre, x, after, shape, free, by omega, ?_⟩
  rw [isB]
  rfl

end Search

end ExOs.Libc
