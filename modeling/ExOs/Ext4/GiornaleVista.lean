import ExOs.Ext4.GiornaleCommit

/-!
# Metadata blocks seen through the journal

`giornale_scrivi` changes what `giornale_leggi` shows of the block it is given,
and of no other outside the journal: also when it commits the transaction
before, and when that commit fails half way.
-/

namespace ExOs.Ext4.Gio

open ExOs.Library ExOs.Library.Buffer ExOs.Fs List Command

variable {m : Ext2Mount} {g : Giornale} {d : Disco} {s : Nat × Buffer} {dst : Buffer} {pos : Nat}

theorem copre_append {slot : List (Nat × Buffer)} {n : Nat} :
    copre (slot ++ [s]) n dst = if s.1 = n then s.2 else copre slot n dst := by
  unfold copre
  rw [foldl_append]
  rfl

variable {n ora k : Nat} {slot : List (Nat × Buffer)} {src : Buffer} {w : Scrittura}
  {programma : List (Option Comando)} {comandi : List Comando} {log : Nat}

theorem copre_not_mem : ∀ {dst : Buffer}, (∀ s ∈ slot, s.1 ≠ n) → copre slot n dst = dst := by
  induction slot with
  | nil =>
    intro dst _
    rfl
  | cons s resto ih =>
    intro dst absent
    have here := absent s mem_cons_self
    show copre resto n (if s.1 = n then s.2 else dst) = dst
    rw [if_neg here]
    exact ih fun other later =>
      absent other (mem_cons_of_mem s later)

theorem copre_mem :
    ∀ {dst dst' : Buffer}, (∃ s ∈ slot, s.1 = n) → copre slot n dst = copre slot n dst' := by
  induction slot with
  | nil =>
    intro dst dst' held
    obtain ⟨s, mem, _⟩ := held
    simp at mem
  | cons s resto ih =>
    intro dst dst' held
    show copre resto n (if s.1 = n then s.2 else dst) =
      copre resto n (if s.1 = n then s.2 else dst')
    by_cases here : s.1 = n
    · rw [if_pos here, if_pos here]
    apply ih
    obtain ⟨other, mem, isN⟩ := held
    rcases mem_cons.mp mem with isFirst | later
    · exact absurd (isFirst ▸ isN) here
    · exact ⟨other, later, isN⟩

theorem sostituisci_copre :
    ∀ {slot slot' : List (Nat × Buffer)}, sostituisci n src slot = some slot' →
      ∀ {k : Nat} {dst : Buffer}, k ≠ n → copre slot' k dst = copre slot k dst := by
  intro slot
  induction slot with
  | nil =>
    intro slot' replaced
    simp [sostituisci] at replaced
  | cons s resto ih =>
    intro slot' replaced k dst other
    rw [sostituisci] at replaced
    split at replaced
    · next here =>
      rw [← Option.some.inj replaced]
      show copre resto k (if n = k then src else dst) = copre resto k (if s.1 = k then s.2 else dst)
      rw [if_neg (fun same => other same.symm), if_neg (fun same => other (same.symm.trans here))]
    · obtain ⟨resto', inner, shape⟩ := Option.map_eq_some_iff.mp replaced
      rw [← shape]
      exact ih inner other

theorem sostituisci_fst :
    ∀ {slot slot' : List (Nat × Buffer)}, sostituisci n src slot = some slot' →
      slot'.map Prod.fst = slot.map Prod.fst ∧
        ((slot.map Prod.fst).Nodup → ∀ dst, copre slot' n dst = src) := by
  intro slot
  induction slot with
  | nil =>
    intro slot' replaced
    simp [sostituisci] at replaced
  | cons s resto ih =>
    intro slot' replaced
    rw [sostituisci] at replaced
    split at replaced
    · next here =>
      rw [← Option.some.inj replaced]
      refine ⟨by simp [here], ?_⟩
      intro nodup dst
      rw [map_cons, nodup_cons, here] at nodup
      show copre resto n (if n = n then src else dst) = src
      rw [if_pos rfl]
      apply copre_not_mem
      intro other later same
      exact nodup.1 (same ▸ mem_map_of_mem later)
    · obtain ⟨resto', inner, shape⟩ := Option.map_eq_some_iff.mp replaced
      obtain ⟨sameFst, covers⟩ := ih inner
      rw [← shape]
      refine ⟨by simp [sameFst], ?_⟩
      intro nodup dst
      rw [map_cons, nodup_cons] at nodup
      exact covers nodup.2 _

theorem sostituisci_none :
    ∀ {slot : List (Nat × Buffer)}, sostituisci n src slot = none → n ∉ slot.map Prod.fst := by
  intro slot
  induction slot with
  | nil =>
    simp
  | cons s resto ih =>
    intro absent
    rw [sostituisci] at absent
    split at absent
    · simp at absent
    rename_i other
    rw [map_cons, mem_cons]
    rintro (isFirst | later)
    · exact other isFirst.symm
    · exact ih (Option.map_eq_none_iff.mp absent) later

/-! ## Commands of a commit, also of one that fails -/

/-- A write to a block of the journal or of the transaction. -/
def DelGiornale (m : Ext2Mount) (g : Giornale) (w : Scrittura) : Prop :=
  (∃ log src, gioScrivi g log src = some w) ∨ ∃ s ∈ g.slot, alSuoPosto m s.1 s.2 = some w

theorem esegui_mem : w ∈ writes (esegui programma).1 → some (.write w) ∈ programma := by
  induction programma with
  | nil =>
    intro mem
    simp [esegui, writes] at mem
  | cons primo resto ih =>
    intro mem
    cases primo with
    | none => simp [esegui, writes] at mem
    | some comando =>
      cases comando with
      | flush =>
        exact mem_cons_of_mem _ (ih mem)
      | write fst =>
        rcases mem_cons.mp mem with isFirst | later
        · rw [isFirst]
          exact mem_cons_self
        · exact mem_cons_of_mem _ (ih later)

theorem esegui_true : (esegui programma).2 = true → programma = (esegui programma).1.map some := by
  induction programma with
  | nil =>
    intro _
    rfl
  | cons primo resto ih =>
    intro whole
    cases primo with
    | none => simp [esegui] at whole
    | some comando =>
      show some comando :: resto = some comando :: (esegui resto).1.map some
      rw [← ih whole]

theorem copieDa_mem : ∀ {log : Nat}, some (.write w) ∈ copieDa g slot log →
      ∃ log src, gioScrivi g log src = some w := by
  induction slot with
  | nil =>
    intro log mem
    simp [copieDa] at mem
  | cons s resto ih =>
    intro log mem
    rcases mem_cons.mp mem with here | later
    · obtain ⟨w', written, same⟩ := Option.map_eq_some_iff.mp here.symm
      rw [write.injEq] at same
      exact ⟨_, _, same ▸ written⟩
    · exact ih later

theorem gioScrivi_mem (here : some (write w) = (gioScrivi g log src).map .write) :
    ∃ log src, gioScrivi g log src = some w := by
  obtain ⟨w', written, same⟩ := Option.map_eq_some_iff.mp here.symm
  rw [write.injEq] at same
  exact ⟨log, src, same ▸ written⟩

theorem commitScrive_mem (mem : some (.write w) ∈ commitScrive m g ora) :
    ∃ log src, gioScrivi g log src = some w := by
  rcases mem_append.mp mem with mem | closing
  · rcases mem_append.mp mem with opening | copies
    · rcases mem_cons.mp opening with isSuper | rest
      · exact gioScrivi_mem isSuper
      · exact gioScrivi_mem (mem_singleton.mp rest)
    · exact copieDa_mem copies
  · simp only [mem_cons, not_mem_nil, or_false] at closing
    rcases closing with isFlush | isCommit | isFlush
    · simp at isFlush
    · exact gioScrivi_mem isCommit
    · simp at isFlush

def programmaCommit (m : Ext2Mount) (g : Giornale) (ora : Nat) : List (Option Comando) :=
  commitScrive m g ora ++ commitPosa m g ++ [(gioScrivi g 0 (jsbChiuso g)).map .write]

theorem programmaCommit_delGiornale (issued : some (.write w) ∈ programmaCommit m g ora) :
    DelGiornale m g w := by
  rcases mem_append.mp issued with issued | closing
  · rcases mem_append.mp issued with written | placed
    · exact .inl (commitScrive_mem written)
    rcases mem_append.mp placed with inSlot | isFlush
    · obtain ⟨s, sMember, shape⟩ := mem_map.mp inSlot
      obtain ⟨w', here, same⟩ := Option.map_eq_some_iff.mp shape
      rw [write.injEq] at same
      exact .inr ⟨s, sMember, same ▸ here⟩
    · simp at isFlush
  · exact .inl (gioScrivi_mem (mem_singleton.mp closing))

theorem gioScrivi_libero (written : gioScrivi g log src = some w) (free : Libero g n) :
    w (n, pos) = none := by
  unfold gioScrivi at written
  split at written
  · simp at written
  · next mapped =>
    rw [← Option.some.inj written]
    exact scriviTutto_untouched (fun same => free log mapped same.symm) _ pos

theorem alSuoPosto_some (placed : alSuoPosto m s.1 s.2 = some w) : w = posto s := by
  have inside : NelVolume m s.1 := by
    unfold alSuoPosto at placed
    split at placed
    · simp at placed
    · next good =>
      unfold NelVolume
      omega
  exact Option.some.inj (placed.symm.trans (alSuoPosto_eq inside))

theorem delGiornale_fuori (mine : DelGiornale m g w)
    (free : Libero g k) (absent : ∀ s ∈ g.slot, s.1 ≠ k) :
    w (k, pos) = none := by
  rcases mine with ⟨log, src, written⟩ | ⟨s, mem, placed⟩
  · exact gioScrivi_libero written free
  · rw [alSuoPosto_some placed]
    exact posto_untouched (fun same => absent s mem same.symm) pos

theorem nasconde (issued : ∀ w ∈ writes comandi, some (.write w) ∈ programmaCommit m g ora)
    (free : Libero g k) :
    copre g.slot k (blocco (Write.applyAll (writes comandi) d) k) =
      copre g.slot k (blocco d k) := by
  by_cases held : ∃ s ∈ g.slot, s.1 = k
  · exact copre_mem held
  rw [blocco_applyAll_of_untouched]
  intro w mem pos
  apply delGiornale_fuori (programmaCommit_delGiornale (issued w mem)) free
  intro s sMember same
  exact held ⟨s, sMember, same⟩

theorem posa_writes : ∀ {slot : List (Nat × Buffer)}, comandi.map some =
        slot.map (fun s => (alSuoPosto m s.1 s.2).map .write) →
      writes comandi = slot.map posto := by
  induction comandi with
  | nil =>
    intro slot same
    rw [map_nil, nil_eq, map_eq_nil_iff] at same
    rw [same]
    rfl
  | cons comando comandi ih =>
    intro slot same
    cases slot with
    | nil => simp at same
    | cons s resto =>
      rw [map_cons, map_cons, cons_eq_cons] at same
      obtain ⟨w, placed, shape⟩ := Option.map_eq_some_iff.mp same.1.symm
      rw [← shape, writes, ih same.2, map_cons, alSuoPosto_some placed]

theorem blocco_posti (positive : k ≠ 0) : ∀ (d : Disco),
      blocco (Write.applyAll (slot.map posto) d) k = copre slot k (blocco d k) := by
  induction slot with
  | nil =>
    intro d
    rfl
  | cons s resto ih =>
    intro d
    rw [map_cons, Write.applyAll_cons, ih]
    show copre resto k (blocco ((posto s).apply d) k) =
      copre resto k (if s.1 = k then s.2 else blocco d k)
    split
    · next here =>
      congr 1
      funext pos
      unfold blocco Write.apply posto
      rw [if_pos ⟨here.symm, fun zero => absurd (here.symm.trans zero) positive⟩]
      rfl
    · next here =>
      rw [blocco_apply_of_untouched (posto_untouched fun same => here same.symm)]

theorem writes_journal (same : programma = comandi.map some)
    (journal : ∀ w, some (.write w) ∈ programma → ∃ log src, gioScrivi g log src = some w)
    (free : Libero g k) :
    blocco (Write.applyAll (writes comandi) d) k = blocco d k := by
  apply blocco_applyAll_of_untouched
  intro w mem pos
  have issued : some (write w) ∈ programma := by
    apply esegui_mem
    rw [same, esegui_map_some]
    exact mem
  obtain ⟨log, src, written⟩ := journal w issued
  exact gioScrivi_libero written free

theorem posati (issued : programmaCommit m g ora = comandi.map some)
    (pos : k ≠ 0) (free : Libero g k) :
    blocco (Write.applyAll (writes comandi) d) k = copre g.slot k (blocco d k) := by
  obtain ⟨pre, closing, isAll, isBefore, isClosing⟩ := map_eq_append_iff.mp issued.symm
  obtain ⟨scritti, posa, isBefore', isScritti, isPosa⟩ := map_eq_append_iff.mp isBefore
  obtain ⟨posti, flush, isPosa', isPosti, isFlush⟩ := map_eq_append_iff.mp isPosa
  have noWrites : writes flush = [] := by
    have isOne : flush = [Command.flush] := by simpa using isFlush
    rw [isOne]
    rfl
  rw [isAll, isBefore', isPosa', writes_append,
    writes_append, writes_append, noWrites,
    append_nil, posa_writes isPosti, Write.applyAll_append, Write.applyAll_append,
    writes_journal isClosing.symm _ free, blocco_posti pos,
    writes_journal isScritti.symm (fun w mem => commitScrive_mem mem) free]
  intro w mem
  exact gioScrivi_mem (mem_singleton.mp mem)

/-- What a commit leaves: every block in its place and no slot, or what it covers unchanged. -/
inductive Commesso (g : Giornale) : List Comando × Giornale × Bool → Prop where
  | riuscito {comandi : List Comando} {g' : Giornale} (emptied : g'.slot = [])
      (placed : ∀ k ≠ 0, Libero g k → ∀ d,
        blocco (Write.applyAll (writes comandi) d) k = copre g.slot k (blocco d k)) :
      Commesso g (comandi, g', true)
  | fallito {comandi : List Comando} {g' : Giornale} (kept : g'.slot = g.slot)
      (hidden : ∀ k, Libero g k → ∀ d,
        copre g.slot k (blocco (Write.applyAll (writes comandi) d) k) =
          copre g.slot k (blocco d k)) :
      Commesso g (comandi, g', false)

theorem commit_commesso (m : Ext2Mount) (g : Giornale) (ora : Nat) :
    Commesso g (commit m g ora) := by
  unfold commit
  split
  · next empty =>
    have nothing := isEmpty_iff.mp empty
    refine .riuscito nothing fun k _ _ d => ?_
    rw [nothing]
    rfl
  split
  · exact .fallito rfl fun _ _ _ => rfl
  dsimp only
  split
  · next whole =>
    exact .riuscito rfl fun k pos free d => posati (esegui_true whole) pos free
  · exact .fallito rfl fun k free d => nasconde (fun w => esegui_mem) free

theorem giornaleScrivi_altro (other : k ≠ n) (pos : k ≠ 0) (free : Libero g k) :
    giornaleLeggi (giornaleScrivi m g n src ora).2.1 k (blocco (Write.applyAll
          (writes (giornaleScrivi m g n src ora).1) d) k) =
      giornaleLeggi g k (blocco d k) := by
  unfold giornaleScrivi
  split
  · rfl
  · cases replaced : sostituisci n src g.slot with
    | some slot => exact sostituisci_copre replaced other
    | none =>
      dsimp only
      split
      · have commesso := commit_commesso m g ora
        generalize commit m g ora = esito at commesso ⊢
        cases commesso with
        | riuscito emptied placed =>
          rw [giornaleLeggi, copre_append, emptied, if_neg (fun same => other same.symm)]
          exact placed k pos free d
        | fallito kept hidden =>
          rw [giornaleLeggi, kept]
          exact hidden k free d
      · rw [giornaleLeggi, copre_append, if_neg (fun same => other same.symm)]
        rfl

def Giornale.Semplice (g : Giornale) : Prop := (g.slot.map Prod.fst).Nodup

theorem giornaleScrivi_questo (semplice : g.Semplice) :
    (giornaleScrivi m g n src ora).2.1.Semplice ∧ ((giornaleScrivi m g n src ora).2.2 = true →
        ∀ dst, giornaleLeggi (giornaleScrivi m g n src ora).2.1 n dst = src) := by
  unfold giornaleScrivi
  split
  · exact ⟨semplice, fun done => absurd done (by simp)⟩
  · cases replaced : sostituisci n src g.slot with
    | some slot =>
      obtain ⟨sameFst, covers⟩ := sostituisci_fst replaced
      refine ⟨?_, fun _ dst => covers semplice dst⟩
      unfold Giornale.Semplice
      rw [sameFst]
      exact semplice
    | none =>
      have absent := sostituisci_none replaced
      dsimp only
      split
      · have commesso := commit_commesso m g ora
        generalize commit m g ora = esito at commesso ⊢
        cases commesso with
        | riuscito emptied _ =>
          refine ⟨?_, ?_⟩
          · unfold Giornale.Semplice
            simp [emptied]
          · intro _ dst
            rw [giornaleLeggi, copre_append, if_pos rfl]
        | fallito kept _ =>
          refine ⟨?_, fun done => absurd done (by simp)⟩
          unfold Giornale.Semplice
          rw [kept]
          exact semplice
      · refine ⟨?_, ?_⟩
        · unfold Giornale.Semplice
          rw [map_append, nodup_append]
          refine ⟨semplice, by simp, ?_⟩
          intro a aMember b bMember same
          rw [map_singleton, mem_singleton] at bMember
          rw [same, bMember] at aMember
          exact absent aMember
        · intro _ dst
          rw [giornaleLeggi, copre_append, if_pos rfl]

end ExOs.Ext4.Gio
