import ExOs.Libc.HeapForma

/-!
# Edits of the block list

The writes that change which blocks there are: a block is taken or freed,
divided, joined with the next one, added at the end, or cut.  Each is one
lemma on `Coerente`; the blocks it changes are in no drawer then.
-/

namespace ExOs.Libc

open ExOs.Library List ExOs.Library.Block

section Edits

variable {h : Heap} {pre after : List Block} {x : Block} {sospesi sospesi' : List Nat} {y : Block}
  {x' : Block}

theorem mem_middle : y ∈ pre ++ x :: after ↔ y = x ∨ y ∈ pre ++ after :=
  perm_middle.mem_iff.trans mem_cons

theorem mem_libero (free : x.free = true) (busy : y.free = false) :
    y ∈ pre ++ x :: after ↔ y ∈ pre ++ after := by
  rw [mem_middle, or_iff_right]
  intro isX
  rw [isX, free] at busy
  cases busy

section

variable (riflette : Riflette h (pre ++ x :: after))

include riflette

theorem Riflette.succ_eq : h.succ x.start = (after.map start).headD 0 := by
  have linked := riflette.legata
  rw [map_append] at linked
  exact linked.links_of_split.2

theorem Riflette.prec_eq : h.prec x.start = (pre.map start).getLastD 0 := by
  have linked := riflette.legata
  rw [map_append] at linked
  exact linked.links_of_split.1

theorem Riflette.succ_cases :
    (after = [] ∧ h.succ x.start = 0) ∨ ∃ y rest, after = y :: rest ∧ h.succ x.start = y.start := by
  have isSucc := riflette.succ_eq
  cases after with
  | nil => exact .inl ⟨rfl, isSucc⟩
  | cons y rest => exact .inr ⟨y, rest, rfl, isSucc⟩

end

theorem getLastD_append_cons (front rest : List Nat) (node last : Nat) :
    (front ++ node :: rest).getLastD last = rest.getLastD node := by
  induction front generalizing last with
  | nil => rw [nil_append, getLastD_cons]
  | cons fst front ih =>
    rw [cons_append, getLastD_cons]
    exact ih fst

variable {old new : List Block}

theorem mem_inner : y ∈ pre ++ (old ++ after) ↔ y ∈ old ∨ y ∈ pre ++ after := by
  simp only [mem_append]
  tauto

theorem InCassetto.scambia (old new : List Block) {i c : Nat}
    (hidden : ∀ y ∈ old, y.free = false ∨ y.start ∈ sospesi)
    (same : ∀ y ∈ pre ++ after, y.start ∈ sospesi ↔ y.start ∈ sospesi')
    (inC : InCassetto (pre ++ (old ++ after)) sospesi i c) :
    InCassetto (pre ++ (new ++ after)) sospesi' i c := by
  obtain ⟨present, y, mem, isC, free, facts⟩ := inC
  rcases mem_inner.mp mem with inner | stays
  · rcases hidden y inner with busy | apart
    · rw [free] at busy
      cases busy
    · rw [isC] at apart
      exact absurd apart present
  · refine ⟨?_, y, mem_inner.mpr (.inr stays), isC, free, facts⟩
    rw [← isC, ← same y stays, isC]
    exact present

/-- The header `x` and what follows it are rewritten, up to a block whose link back may
change, while the drawers hold what they held.  Bytes in use change only where a new
header is. -/
theorem Coerente.riscrivi (h' : Heap) (ws fs : List (Nat × Nat)) (old new : List Block)
    (inv : Coerente h (pre ++ x :: (old ++ after)) sospesi)
    (laid : Disposti (pre ++ x' :: (new ++ after))) (sameStart : x'.start = x.start)
    (scritte : h'.mem = h.mem.putAll ws) (parti : new = old ∧ ws = fs ∨ ∀ w, w ∈ ws ↔ w ∈ fs ∨
      w ∈ seam 0 4 (pre.map start ++ [x.start]) (new.map start) (after.map start))
    (giusti : ∀ w ∈ fs, Campo (x' :: new) w)
    (campi : ∀ w, Campo (x' :: new) w → w ∈ fs ∨ Campo [x] w) (primo : h'.primo = h.primo)
    (ultimo : h'.ultimo = if after = [] then (new.map start).getLastD x.start else h.ultimo)
    (cassetto : h'.cassetto = h.cassetto)
    (hidden : ∀ y ∈ x :: old, y.free = false ∨ y.start ∈ sospesi)
    (hidden' : ∀ y ∈ x' :: new, y.free = false ∨ y.start ∈ sospesi')
    (same : ∀ y ∈ pre ++ after, y.start ∈ sospesi ↔ y.start ∈ sospesi') :
    Coerente h' (pre ++ x' :: (new ++ after)) sospesi' ∧
      ∀ a, Occupato (pre ++ x :: (old ++ after)) a → (∀ y ∈ new, a < y.start ∨ y.start + 16 ≤ a) →
        h'.mem a = h.mem a := by
  have starts : ∀ (fst : Block) (inner : List Block), fst.start = x.start →
      (pre ++ fst :: (inner ++ after)).map start = pre.map start ++ [x.start] ++
        (inner.map start ++ after.map start) := by
    intro fst inner isStart
    rw [append_cons, map_append, map_append, map_append, map_singleton, isStart]
  have nonNull : ∀ b ∈ pre.map start ++ [x.start] ++ after.map start, b ≠ 0 := by
    intro b mem
    refine (inv.disposti.inizi ?_).2.1.ne'
    rw [starts x old rfl]
    simp only [mem_append] at mem ⊢
    tauto
  obtain ⟨sewn, splice⟩ := linkWords_splice 0 4 (old.map start) (new.map start) nonNull
  rw [← starts x' new sameStart] at sewn splice
  rw [← starts x old rfl] at splice
  obtain ⟨⟨isPrimo, isUltimo⟩, _⟩ := (riflette_iff inv.disposti).mp inv.riflette
  obtain ⟨liste, links⟩ := inv.cassetti
  have heads := ((legami_iff inv.disposti).mp links).2.1
  have right : ∀ w ∈ ws, Intestazione (pre ++ x' :: (new ++ after)) w := by
    intro w written
    have field : w ∈ fs → Intestazione (pre ++ x' :: (new ++ after)) w := by
      intro hit
      obtain ⟨y, mem, isW⟩ := giusti w hit
      exact .inr ⟨y, mem_append_right _ (mem_append_left after mem), isW⟩
    rcases parti with ⟨_, same⟩ | parti
    · exact field (same ▸ written)
    · exact ((parti w).mp written).elim field fun link => .inl (sewn w link)
  have wrote : ∀ w ∈ fs, w ∈ ws := by
    intro w hit
    rcases parti with ⟨_, same⟩ | parti
    · exact same ▸ hit
    · exact (parti w).mpr (.inl hit)
  have listed : ∀ {y : Block}, y ∈ pre ++ x' :: (new ++ after) → y ∈ x' :: new ∨ y ∈ pre ++ after :=
    fun mem => mem_inner.mp mem
  have kept : ∀ {y : Block}, y ∈ pre ++ after → y ∈ pre ++ x :: (old ++ after) :=
    fun mem => mem_append.mpr
      ((mem_append.mp mem).imp_right fun late => mem_cons_of_mem _ (mem_append_right _ late))
  have xMem : x ∈ pre ++ x :: (old ++ after) := mem_append_cons_self
  refine ⟨inv.scrivi links laid ⟨links.nodup, fun i lt c => (links.membri i lt c).trans
      ⟨InCassetto.scambia (x :: old) (x' :: new) hidden same,
        InCassetto.scambia (x' :: new) (x :: old) hidden' fun y mem => (same y mem).symm⟩⟩ scritte
    (fun w written => .inl (right w written)) ?_ (fun _ => .inr) ?_ ?_ (cassetto ▸ heads), ?_⟩
  · rintro w (link | ⟨y, mem, isW⟩)
    · rcases parti with ⟨unchanged, _⟩ | parti
      · refine .inr (.inl ?_)
        rw [starts x old rfl, ← unchanged, ← starts x' new sameStart]
        exact link
      · exact (splice w link).imp (fun hit => (parti w).mpr (.inr hit)) .inl
    · rcases listed mem with inner | stays
      · refine (campi w ⟨y, inner, isW⟩).imp (wrote w) ?_
        rintro ⟨z, isX, isW⟩
        exact .inr ⟨z, mem_singleton.mp isX ▸ xMem, isW⟩
      · exact .inr (.inr ⟨y, kept stays, isW⟩)
  · rw [primo, isPrimo, starts x' new sameStart]
    cases pre <;> rfl
  · rw [ultimo, isUltimo]
    cases after with
    | nil => rw [if_pos rfl, append_nil, map_append, map_cons, getLastD_append_cons, sameStart]
    | cons z rest =>
      rw [if_neg (cons_ne_nil z rest)]
      simp only [map_append, map_cons, getLastD_append_cons]
  · intro a used out
    rw [scritte]
    refine Buffer.putAll_outside fun w written => ?_
    obtain ⟨y, mem, k, small, isW⟩ := (right w written).posto
    have away : a < y.start ∨ y.start + 16 ≤ a := by
      rcases listed mem with inner | stays
      · rcases mem_cons.mp inner with isX | isNew
        · rw [isX, sameStart]
          exact inv.disposti.fuori_intestazione xMem used
        · exact out y isNew
      · exact inv.disposti.fuori_intestazione (kept stays) used
    omega

section

variable (laid : Disposti (pre ++ x :: after)) {y : Block}

include laid

theorem Disposti.altri (mem : y ∈ pre ++ after) :
    (y.stop ≤ x.start ∧ y.start + 16 ≤ x.start) ∨ (x.stop ≤ y.start ∧ x.start + 16 ≤ y.start) := by
  have yLong := laid.lungo (mem_middle.mpr (.inr mem))
  have xLong := laid.lungo (mem_middle.mpr (.inl rfl) : x ∈ pre ++ x :: after)
  obtain ⟨_, later, cross⟩ := apart_append.mp laid.apart
  rcases mem_append.mp mem with early | late
  · have fst := cross y early x mem_cons_self
    rw [stop] at fst ⊢
    omega
  · have snd := (apart_cons.mp later).2.2 y late
    rw [stop, stop] at *
    omega

theorem Disposti.altri_start (mem : y ∈ pre ++ after) : y.start ≠ x.start := by
  have apart := laid.altri mem
  omega

theorem Disposti.senza : y ∈ pre ++ after ↔ y ≠ x ∧ y ∈ pre ++ x :: after := by
  rw [mem_middle]
  constructor
  · intro other
    exact ⟨fun isX => laid.altri_start other (by rw [isX]), .inr other⟩
  · rintro ⟨notX, isX | other⟩
    · exact absurd isX notX
    · exact other

theorem Disposti.dopo : (after.map start).headD 0 = 0 ↔ after = [] := by
  cases after with
  | nil => simp
  | cons y rest => simpa using (laid.multipli y (by simp)).2.2.1.ne'

/-! ## Rewritten headers -/

theorem Disposti.cambia {new : Block}
    (sameStart : new.start = x.start) (shorter : new.size ≤ x.size) (mul : new.size % 16 = 0)
    (long : 16 ≤ new.size) : Disposti (pre ++ new :: after) := by
  have shorterStop : new.stop ≤ x.stop := by
    rw [stop, stop]
    omega
  refine ⟨laid.apart.change (by omega) sameStart shorterStop, ?_⟩
  intro y mem
  rcases mem_middle.mp mem with isNew | other
  · have facts := laid.multipli x mem_append_cons_self
    rw [isNew]
    omega
  · exact laid.multipli y (mem_middle.mpr (.inr other))

theorem Disposti.stesso {new : Block}
    (sameStart : new.start = x.start) (sameSize : new.size = x.size) :
    Disposti (pre ++ new :: after) := by
  have facts := laid.multipli x mem_append_cons_self
  have long := laid.lungo (mem_append_cons_self : x ∈ pre ++ x :: after)
  exact laid.cambia sameStart (by omega) (by omega) (by omega)

end

theorem Coerente.campo {k v : Nat} (inv : Coerente h (pre ++ x :: after) sospesi)
    (laid : Disposti (pre ++ x' :: after)) (sameStart : x'.start = x.start)
    (place : (k = 8 ∧ v = x'.size - 16 ∧ x'.free = x.free) ∨
      k = 12 ∧ (v = if x'.free then 1 else 0) ∧ x'.size = x.size)
    (hidden : x.free = false ∨ x.start ∈ sospesi) (hidden' : x'.free = false ∨ x'.start ∈ sospesi')
    (same : ∀ y ∈ pre ++ after, y.start ∈ sospesi ↔ y.start ∈ sospesi') :
    Coerente (h.scrivi (x.start + k) v) (pre ++ x' :: after) sospesi' ∧
      Intatta (pre ++ x :: after) h (h.scrivi (x.start + k) v) := by
  have isUltimo := inv.riflette.ultimo
  have edited := inv.riscrivi (h.scrivi (x.start + k) v) _ [(x.start + k, v)] [] [] laid sameStart
    rfl (.inl ⟨rfl, rfl⟩) ?_ ?_ rfl ?_ rfl (by simpa using hidden) (by simpa using hidden') same
  · exact ⟨edited.1, fun a used => edited.2 a used (by simp)⟩
  · intro w written
    rw [mem_singleton.mp written, ← sameStart]
    refine ⟨x', mem_cons_self, ?_⟩
    rcases place with ⟨isK, isV, _⟩ | ⟨isK, isV, _⟩
    · exact .inl (by rw [isK, isV])
    · exact .inr (by rw [isK, isV])
  · rintro w ⟨y, mem, isW⟩
    rw [mem_singleton.mp mem, sameStart] at isW
    rw [mem_singleton]
    rcases place with ⟨isK, isV, sameFree⟩ | ⟨isK, isV, sameSize⟩
    · rw [sameFree] at isW
      rw [isK, isV]
      exact isW.imp_right fun isW => ⟨x, mem_cons_self, .inr isW⟩
    · rw [sameSize] at isW
      rw [isK, isV]
      exact isW.symm.imp_right fun isW => ⟨x, mem_cons_self, .inl isW⟩
  · split
    case isTrue last =>
      rw [last, map_append, map_singleton, getLastD_append_cons] at isUltimo
      exact isUltimo
    case isFalse => rfl

theorem Coerente.occupa (inv : Coerente h (pre ++ x :: after) (x.start :: sospesi)) :
    Coerente (h.setLibero x.start 0) (pre ++ { x with free := false } :: after) sospesi ∧
      Intatta (pre ++ x :: after) h (h.setLibero x.start 0) := by
  refine inv.campo (inv.disposti.stesso rfl rfl) rfl (.inr ⟨rfl, rfl, rfl⟩)
    (.inr mem_cons_self) (.inl rfl) ?_
  intro y mem
  rw [mem_cons, or_iff_right (inv.disposti.altri_start mem)]

theorem Coerente.libera (inv : Coerente h (pre ++ x :: after) sospesi) (busy : x.free = false) :
    Coerente (h.setLibero x.start 1) (pre ++ { x with free := true } :: after)
        (x.start :: sospesi) ∧
      Intatta (pre ++ x :: after) h (h.setLibero x.start 1) := by
  refine inv.campo (inv.disposti.stesso rfl rfl) rfl (.inr ⟨rfl, rfl, rfl⟩)
    (.inl busy) (.inr mem_cons_self) ?_
  intro y mem
  rw [mem_cons, or_iff_right (inv.disposti.altri_start mem)]

theorem Coerente.accorcia (size : Nat) (inv : Coerente h (pre ++ x :: after) (x.start :: sospesi))
    (shorter : size ≤ x.size) (sizeMultiple : size % 16 = 0) (long : 16 ≤ size) :
    Coerente (h.setDim x.start (size - 16)) (pre ++ { x with size := size } :: after)
        (x.start :: sospesi) ∧
      Intatta (pre ++ x :: after) h (h.setDim x.start (size - 16)) :=
  inv.campo (inv.disposti.cambia rfl shorter sizeMultiple long) rfl (.inl ⟨rfl, rfl, rfl⟩)
    (.inr mem_cons_self) (.inr mem_cons_self) (fun _ _ => Iff.rfl)

end Edits

section Divide

variable {h : Heap} {pre after : List Block} {x : Block} {sospesi : List Nat}
variable {b nuovo : Nat}

def paroleInserite (h : Heap) (b nuovo dim libero dimB : Nat) : List (Nat × Nat) :=
  [(b + 8, dimB), (b + 4, nuovo)] ++ nodeWord (h.succ b) 0 nuovo ++
    [(nuovo + 4, h.succ b), (nuovo, b), (nuovo + 12, libero), (nuovo + 8, dim)]

theorem inserisci_effetti (h : Heap) (dim libero dimB : Nat) (bMultiple : b % 16 = 0)
    (nMultiple : nuovo % 16 = 0) (apart : nuovo ≠ b) :
    (inserisci h b nuovo dim libero dimB).mem =
        h.mem.putAll (paroleInserite h b nuovo dim libero dimB) ∧
      (inserisci h b nuovo dim libero dimB).ultimo = if h.succ b = 0 then nuovo else h.ultimo := by
  have sameSucc : (((h.setDim nuovo dim).setLibero nuovo libero).setPrec nuovo b).succ b =
    h.succ b := by
    refine Buffer.le32_putAll_outside h.mem
      [(nuovo, b), (nuovo + 12, libero), (nuovo + 8, dim)] ?_ (by omega) ?_
    · grind
    · grind
  rw [inserisci, paroleInserite, nodeWord]
  generalize isH₁ : ((h.setDim nuovo dim).setLibero nuovo libero).setPrec nuovo b = h₁ at sameSucc
  have sameSucc₂ : (h₁.setSucc nuovo (h.succ b)).succ b = h.succ b := by
    rw [Heap.succ, Heap.setSucc, parola_scrivi _ _ (by omega) (by omega), if_neg (by omega)]
    exact sameSucc
  rw [sameSucc, sameSucc₂]
  by_cases last : h.succ b = 0
  · rw [if_neg (fun wrong => wrong last), if_pos last, if_pos last, ← isH₁]
    exact ⟨rfl, rfl⟩
  · rw [if_pos last, if_neg last, if_neg last, ← isH₁]
    exact ⟨rfl, rfl⟩

theorem inserisci_altro (h : Heap) (b nuovo dim libero dimB : Nat) :
    (inserisci h b nuovo dim libero dimB).primo = h.primo ∧
      (inserisci h b nuovo dim libero dimB).spazio = h.spazio ∧
      (inserisci h b nuovo dim libero dimB).cassetto = h.cassetto := by
  rw [inserisci]
  split <;> exact ⟨rfl, rfl, rfl⟩

theorem mem_paroleInserite {dim libero dimB : Nat} {w : Nat × Nat} :
    w ∈ paroleInserite h b nuovo dim libero dimB ↔
      w ∈ [(b + 8, dimB), (nuovo + 8, dim), (nuovo + 12, libero)] ∨
        w ∈ (b + 4, nuovo) :: (nuovo, b) :: (nuovo + 4, h.succ b) ::
          nodeWord (h.succ b) 0 nuovo := by
  simp only [paroleInserite, mem_append, mem_cons, not_mem_nil, or_false]
  tauto

theorem Disposti.dividi {k : Nat} (free : Bool) (laid : Disposti (pre ++ x :: after))
    (kMultiple : k % 16 = 0) (long : 16 ≤ k) (room : k + 16 ≤ x.size) :
    Disposti (pre ++ { x with size := k } :: ⟨x.start + k, x.size - k, free⟩ :: after) := by
  have facts := laid.multipli x mem_append_cons_self
  rw [stop] at facts
  have sameStop : stop ⟨x.start + k, x.size - k, free⟩ = x.stop := by
    simp only [stop]
    omega
  refine ⟨laid.apart.divide ?_ ?_ rfl rfl sameStop, ?_⟩
  · show 0 < k
    omega
  · show 0 < x.size - k
    omega
  · intro y mem
    rcases mem_middle.mp mem with isFirst | other
    · rw [isFirst]
      simp only [stop]
      omega
    rcases mem_middle.mp other with isSecond | old
    · rw [isSecond]
      simp only [stop]
      omega
    · exact laid.multipli y (mem_middle.mpr (.inr old))

theorem Coerente.dividi {k : Nat} (free : Bool) (sospesi' : List Nat)
    (inv : Coerente h (pre ++ x :: after) sospesi) (busy : x.free = false)
    (kMultiple : k % 16 = 0) (long : 16 ≤ k) (room : k + 16 ≤ x.size)
    (hidden : free = false ∨ x.start + k ∈ sospesi')
    (same : ∀ c, c ≠ x.start + k → (c ∈ sospesi ↔ c ∈ sospesi')) :
    Coerente (inserisci h x.start (x.start + k) (x.size - k - 16) (if free then 1 else 0) (k - 16))
        (pre ++ { x with size := k } :: ⟨x.start + k, x.size - k, free⟩ :: after) sospesi' ∧
      ∀ a, Occupato (pre ++ x :: after) a → a < x.start + k ∨ x.start + k + 16 ≤ a →
        (inserisci h x.start (x.start + k) (x.size - k - 16) (if free then 1 else 0) (k - 16)).mem
          a =
          h.mem a := by
  have laid := inv.disposti
  have facts := laid.multipli x mem_append_cons_self
  have away : ∀ y ∈ pre ++ after, y.start ≠ x.start + k := by
    intro y mem
    have apart := laid.altri mem
    rw [stop, stop] at apart
    omega
  have isSucc := inv.riflette.succ_eq
  obtain ⟨scritte, isUltimo⟩ :=
    inserisci_effetti h (x.size - k - 16) (if free then 1 else 0) (k - 16)
    facts.1 (by omega : (x.start + k) % 16 = 0) (by omega)
  obtain ⟨isPrimo, _, isCassetto⟩ :=
    inserisci_altro h x.start (x.start + k) (x.size - k - 16) (if free then 1 else 0) (k - 16)
  have isSeam : seam 0 4 (pre.map start ++ [x.start]) [x.start + k] (after.map start) =
      (x.start + 4, x.start + k) :: (x.start + k, x.start) :: (x.start + k + 4, h.succ x.start) ::
        nodeWord (h.succ x.start) 0 (x.start + k) := by
    rw [seam, getLastD_concat, nodeWord, if_neg facts.2.2.1.ne', isSucc]
    rfl
  have edited := inv.riscrivi _ _ _ [] [⟨x.start + k, x.size - k, free⟩]
    (laid.dividi free kMultiple long room) rfl scritte
    (.inr fun w => mem_paroleInserite.trans (by rw [← isSeam]; rfl)) ?_ ?_ isPrimo ?_ isCassetto
    (by simpa using .inl busy) (by simpa [busy] using hidden) fun y mem => same y.start (away y mem)
  · exact ⟨edited.1, fun a used out => edited.2 a used (by simpa using out)⟩
  · simp [Campo]
  · simp only [Campo, mem_cons, not_mem_nil, or_false, exists_eq_or_imp, exists_eq_left]
    tauto
  · rw [isUltimo, isSucc]
    simp only [laid.dopo]
    rfl

end Divide

section Join

variable {h : Heap} {pre after : List Block} {x y : Block} {sospesi : List Nat}
variable {b s : Nat}

def paroleUnite (h : Heap) (b s : Nat) : List (Nat × Nat) :=
  nodeWord (h.succ s) 0 b ++ [(b + 4, h.succ s), (b + 8, h.dim b + (16 + h.dim s))]

theorem succ_unisci {v t : Nat} (bMultiple : b % 16 = 0) (sMultiple : s % 16 = 0) (apart : s ≠ b) :
    (h.setDim b v).succ s = h.succ s ∧ ((h.setDim b v).setSucc b t).succ s = h.succ s := by
  have fst : (h.setDim b v).succ s = h.succ s := by
    rw [Heap.succ, Heap.setDim, parola_scrivi _ _ (by omega) (by omega), if_neg (by omega)]
    rfl
  refine ⟨fst, ?_⟩
  rw [Heap.succ, Heap.setSucc, parola_scrivi _ _ (by omega) (by omega), if_neg (by omega)]
  exact fst

theorem unisci_effetti (bMultiple : b % 16 = 0) (sMultiple : s % 16 = 0) (apart : s ≠ b) :
    (unisci h b s).mem = h.mem.putAll (paroleUnite h b s) ∧
      (unisci h b s).ultimo = if h.succ s = 0 then b else h.ultimo := by
  have isDim : h.setDim b (parola32 (h.dim b + (bloccoHdr + h.dim s))) =
      h.setDim b (h.dim b + (16 + h.dim s)) := by
    rw [Heap.setDim, Heap.scrivi, parola32, Buffer.putLe32_mod]
    rfl
  obtain ⟨sameSucc, sameSucc₂⟩ := succ_unisci bMultiple sMultiple apart
  rw [unisci, paroleUnite, nodeWord, isDim, sameSucc, sameSucc₂]
  by_cases last : h.succ s = 0
  · rw [if_neg (fun wrong => wrong last), if_pos last, if_pos last]
    exact ⟨rfl, rfl⟩
  · rw [if_pos last, if_neg last, if_neg last]
    exact ⟨rfl, rfl⟩

theorem unisci_altro : (unisci h b s).primo = h.primo ∧ (unisci h b s).spazio = h.spazio ∧
      (unisci h b s).cassetto = h.cassetto := by
  rw [unisci]
  split <;> exact ⟨rfl, rfl, rfl⟩

theorem mem_paroleUnite {w : Nat × Nat} : w ∈ paroleUnite h b s ↔
      w ∈ [(b + 8, h.dim b + (16 + h.dim s))] ∨
        w ∈ (b + 4, h.succ s) :: nodeWord (h.succ s) 0 b := by
  simp only [paroleUnite, mem_append, mem_cons, not_mem_nil, or_false]
  tauto

theorem Disposti.unisci (laid : Disposti (pre ++ x :: y :: after)) (touch : x.stop = y.start) :
    Disposti (pre ++ { x with size := x.size + y.size } :: after) := by
  have xFacts := laid.multipli x mem_append_cons_self
  have yFacts := laid.multipli y (mem_middle.mpr (.inr mem_append_cons_self))
  have sameStop : stop { x with size := x.size + y.size } = y.stop := by
    simp only [stop] at touch ⊢
    omega
  refine ⟨laid.apart.join rfl sameStop, ?_⟩
  intro z mem
  rcases mem_middle.mp mem with isFirst | other
  · rw [isFirst, sameStop]
    exact ⟨xFacts.1, by show (x.size + y.size) % 16 = 0; omega, xFacts.2.2.1, yFacts.2.2.2⟩
  · exact laid.multipli z (mem_middle.mpr (.inr (mem_middle.mpr (.inr other))))

theorem Coerente.unisci (sospesi' : List Nat) (inv : Coerente h (pre ++ x :: y :: after) sospesi)
    (touch : x.stop = y.start) (xHidden : x.free = false ∨ x.start ∈ sospesi)
    (yHidden : y.free = false ∨ y.start ∈ sospesi) (xHidden' : x.free = false ∨ x.start ∈ sospesi')
    (same : ∀ c, c ≠ y.start → (c ∈ sospesi ↔ c ∈ sospesi')) :
    Coerente (unisci h x.start y.start) (pre ++ { x with size := x.size + y.size } :: after)
        sospesi' ∧
      Intatta (pre ++ x :: y :: after) h (unisci h x.start y.start) ∧
      (unisci h x.start y.start).spazio = h.spazio := by
  have laid := inv.disposti
  have xMem : x ∈ pre ++ x :: y :: after := mem_append_cons_self
  have yMem : y ∈ pre ++ x :: y :: after := mem_middle.mpr (.inr mem_append_cons_self)
  have xFacts := laid.multipli x xMem
  have yFacts := laid.multipli y yMem
  have xDim := inv.dim xMem
  have yDim := inv.dim yMem
  have isDim : h.dim x.start + (16 + h.dim y.start) = x.size + y.size - 16 := by omega
  have shifted := inv
  rw [append_cons pre x] at shifted
  have isSucc := shifted.riflette.succ_eq
  have away : ∀ z ∈ pre ++ after, z.start ≠ y.start := by
    intro z mem
    refine shifted.disposti.altri_start ?_
    rcases mem_append.mp mem with early | late
    · exact mem_append_left _ (mem_append_left _ early)
    · exact mem_append_right _ late
  have joined := laid.unisci touch
  rw [stop] at touch
  obtain ⟨scritte, isUltimo⟩ := unisci_effetti xFacts.1 yFacts.1 (by omega)
  obtain ⟨isPrimo, isSpazio, isCassetto⟩ := unisci_altro
  have isSeam : seam 0 4 (pre.map start ++ [x.start]) [] (after.map start) =
      (x.start + 4, h.succ y.start) :: nodeWord (h.succ y.start) 0 x.start := by
    rw [seam, getLastD_concat, nodeWord, if_neg xFacts.2.2.1.ne', isSucc]
    rfl
  have edited := inv.riscrivi _ _ _ [y] [] joined rfl scritte
    (.inr fun w => mem_paroleUnite.trans (by rw [← isSeam]; rfl)) ?_ ?_ isPrimo ?_ isCassetto
    (by simpa using ⟨xHidden, yHidden⟩) (by simpa using xHidden') fun z mem =>
    same z.start (away z mem)
  · exact ⟨edited.1, fun a used => edited.2 a used (by simp), isSpazio⟩
  · simp [Campo, isDim]
  · simp only [isDim, Campo, mem_cons, not_mem_nil, or_false, exists_eq_left]
    exact fun w isW => isW.imp_right .inr
  · rw [isUltimo, isSucc]
    simp only [shifted.disposti.dopo]
    rfl

end Join

section Append

variable {h : Heap} {bs : List Block} {sospesi : List Nat} {b quanto : Nat}

def paroleAccodate (h : Heap) (b quanto : Nat) : List (Nat × Nat) :=
  nodeWord h.ultimo 4 b ++ [(b, h.ultimo), (b + 4, 0), (b + 12, 1),
    (b + 8, meno32 quanto bloccoHdr)]

theorem accoda_effetti : (accoda h b quanto).mem = h.mem.putAll (paroleAccodate h b quanto) ∧
      (accoda h b quanto).globali =
        { h.globali with primo := if h.ultimo ≠ 0 then h.primo else b, ultimo := b } ∧
      (accoda h b quanto).cassetto = h.cassetto := by
  rw [accoda, paroleAccodate, nodeWord]
  have same : ((((h.setDim b (meno32 quanto bloccoHdr)).setLibero b 1).setSucc b 0).setPrec b
      h.ultimo).ultimo = h.ultimo := rfl
  rw [same]
  by_cases empty : h.ultimo = 0
  · have notFull : ¬h.ultimo ≠ 0 := fun full => full empty
    rw [if_neg notFull, if_neg notFull, if_pos empty]
    exact ⟨rfl, rfl, rfl⟩
  · rw [if_pos empty, if_pos empty, if_neg empty]
    exact ⟨rfl, rfl, rfl⟩

theorem Disposti.accoda (laid : Disposti bs) (beyond : ∀ y ∈ bs, y.stop ≤ b)
    (bMultiple : b % 16 = 0) (pos : 0 < b) (qMultiple : quanto % 16 = 0) (long : 16 ≤ quanto)
    (small : b + quanto < 2 ^ 32) : Disposti (bs ++ [⟨b, quanto, true⟩]) := by
  refine ⟨laid.apart.concat (by show 0 < quanto; omega) beyond, ?_⟩
  intro z mem
  rcases mem_append.mp mem with old | new
  · exact laid.multipli z old
  · rw [mem_singleton.mp new]
    exact ⟨bMultiple, qMultiple, pos, small⟩

theorem Riflette.ultimo_cases (riflette : Riflette h bs) : (bs = [] ∧ h.primo = 0 ∧ h.ultimo = 0) ∨
      ∃ front p, bs = front ++ [p] ∧ h.ultimo = p.start := by
  rcases eq_nil_or_concat' bs with empty | ⟨front, p, shape⟩
  · left
    have head := riflette.legata.head_eq
    have last := riflette.ultimo
    rw [empty] at head last
    exact ⟨empty, head, last⟩
  · right
    refine ⟨front, p, shape, ?_⟩
    rw [riflette.ultimo, shape, map_append, map_singleton, getLastD_append_cons]
    rfl

theorem mem_paroleAccodate {w : Nat × Nat} : w ∈ paroleAccodate h b quanto ↔
      w ∈ [(b + 8, meno32 quanto 16), (b + 12, 1)] ∨
        w ∈ nodeWord h.ultimo 4 b ++ [(b, h.ultimo), (b + 4, 0)] := by
  simp only [paroleAccodate, bloccoHdr, mem_append, mem_cons, not_mem_nil, or_false]
  tauto

theorem Coerente.accoda (inv : Coerente h bs sospesi) (beyond : ∀ y ∈ bs, y.stop ≤ b)
    (bMultiple : b % 16 = 0) (pos : 0 < b) (qMultiple : quanto % 16 = 0) (long : 16 ≤ quanto)
    (small : b + quanto < 2 ^ 32) :
    Coerente (accoda h b quanto) (bs ++ [⟨b, quanto, true⟩]) (b :: sospesi) ∧
      Intatta bs h (accoda h b quanto) := by
  have laid := inv.disposti
  have added := laid.accoda beyond bMultiple pos qMultiple long small
  have isDim : meno32 quanto 16 = quanto - 16 := meno32_of_le (by omega) long
  obtain ⟨liste, links⟩ := inv.cassetti
  obtain ⟨⟨primo, ultimo⟩, _⟩ := (riflette_iff laid).mp inv.riflette
  obtain ⟨scritte, globali, isCassetto⟩ := accoda_effetti
  have starts : (bs ++ [(⟨b, quanto, true⟩ : Block)]).map start =
    bs.map start ++ ([b] ++ []) := by
    rw [map_append]
    rfl
  have isSeam : seam 0 4 (bs.map start) [b] [] =
      nodeWord h.ultimo 4 b ++ [(b, h.ultimo), (b + 4, 0)] := by
    rw [seam, ← ultimo]
    exact append_nil _
  have nonNull : ∀ c ∈ bs.map start ++ [], c ≠ 0 := by
    rw [append_nil]
    exact fun c mem => (laid.inizi mem).2.1.ne'
  obtain ⟨sewn, splice⟩ := linkWords_splice 0 4 [] [b] nonNull
  rw [← starts, isSeam] at sewn splice
  rw [nil_append, append_nil] at splice
  have right : ∀ w ∈ paroleAccodate h b quanto, Intestazione (bs ++ [⟨b, quanto, true⟩]) w := by
    intro w written
    rcases mem_paroleAccodate.mp written with field | link
    · refine .inr ⟨⟨b, quanto, true⟩, by simp, ?_⟩
      simpa [isDim] using field
    · exact .inl (sewn w link)
  have away : ∀ y ∈ bs, y.start ≠ b := by
    intro y mem
    have long := laid.lungo mem
    have below := beyond y mem
    rw [stop] at below
    omega
  refine ⟨inv.scrivi links added ⟨links.nodup, ?_⟩ scritte
    (fun w written => .inl (right w written)) ?_
    (fun _ => .inr) ((congrArg Globali.primo globali).trans ?_)
    ((congrArg Globali.ultimo globali).trans ?_) (isCassetto ▸ ((legami_iff laid).mp links).2.1),
      ?_⟩
  · intro i inside c
    rw [links.membri i inside c]
    constructor
    · rintro ⟨present, y, mem, isC, facts⟩
      exact ⟨not_mem_cons_of_ne_of_not_mem (isC ▸ away y mem) present, y, mem_append_left _ mem,
        isC, facts⟩
    · rintro ⟨present, y, mem, isC, facts⟩
      rcases mem_append.mp mem with old | new
      · exact ⟨not_mem_of_not_mem_cons present, y, old, isC, facts⟩
      · rw [mem_singleton.mp new] at isC
        exact absurd (isC ▸ mem_cons_self) present
  · rintro w (link | ⟨y, mem, isW⟩)
    · exact (splice w link).imp (fun hit => mem_paroleAccodate.mpr (.inr hit)) .inl
    rcases mem_append.mp mem with old | new
    · exact .inr (.inr ⟨y, old, isW⟩)
    · rw [mem_singleton.mp new, ← isDim] at isW
      exact .inl (mem_paroleAccodate.mpr (.inl (by simpa using isW)))
  · rw [ultimo, primo]
    rcases eq_nil_or_concat' bs with empty | ⟨front, p, shape⟩
    · rw [empty]
      rfl
    · have full := (laid.multipli p (by simp [shape])).2.2.1.ne'
      rw [shape, map_append, map_singleton, getLastD_concat, if_pos full]
      cases front <;> rfl
  · rw [starts, append_nil, getLastD_concat]
  · intro a used
    rw [scritte]
    refine Buffer.putAll_outside fun w written => ?_
    obtain ⟨y, mem, k, lt, isW⟩ := (right w written).posto
    rcases mem_append.mp mem with old | new
    · have apart := laid.fuori_intestazione old used
      omega
    · obtain ⟨z, zMem, _, _, upper⟩ := used
      have below := beyond z zMem
      rw [mem_singleton.mp new] at isW
      dsimp only at isW
      omega

end Append

end ExOs.Libc
