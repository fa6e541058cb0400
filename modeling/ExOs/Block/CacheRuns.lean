import ExOs.Block.Finestra
import ExOs.Library.Runs

/-!
# Runs of the block layer

The whole state is coherent when both caches and the read-ahead window agree
with the disks.  Every operation keeps it so, and a read returns what was last
written.
-/

namespace ExOs.Block.Blk

open ExOs.Library Buffer

variable {Settore : Type}

structure Coerente (s : Sistema Settore) : Prop where
  settori : ∀ cache, s.cache = some cache → CacheCoerente cache s.dischi
  pagine : ∀ pc, s.pc = some pc → ∃ libere, PcCoerente pc s.dischi libere
  finestra : ∀ disco, s.avDisco = some disco →
    ∀ j, j < s.avN → s.av j = s.dischi disco (s.avLba + j)

/-- What a read leaves: a coherent state over the same disks and, if it
succeeds, the sectors in the buffer. -/
structure Letto (dischi : Nat → Nat → Settore) (esito : Sistema Settore × Option (Nat → Settore))
    (disco abs n : Nat) (buf : Nat → Settore) (p : Nat) : Prop where
  coerente : Coerente esito.1
  stessi : esito.1.dischi = dischi
  dati : ∀ buf', esito.2 = some buf' → buf' = copy buf p (dischi disco) abs n

variable {s : Sistema Settore} {n : Nat} {lba abs : Nat} {b : BlkDev}

section Outcomes

variable {dischi : Nat → Nat → Settore} {disco abs p : Nat} {buf : Nat → Settore}

theorem Letto.fallito (inv : Coerente s) (stessi : s.dischi = dischi) :
    Letto dischi (s, none) disco abs n buf p :=
  ⟨inv, stessi, nofun⟩

theorem Letto.servito (inv : Coerente s) (stessi : s.dischi = dischi) :
    Letto dischi (s, some (copy buf p (dischi disco) abs n)) disco abs n buf p :=
  ⟨inv, stessi, fun _ served => (Option.some.inj served).symm⟩

end Outcomes

theorem Coerente.discoLeggi (inv : Coerente s) (disco abs n : Nat) (buf : Nat → Settore) (p : Nat) :
    Letto s.dischi (discoLeggi s disco abs n buf p) disco abs n buf p := by
  have after : Coerente (s.comanda disco abs n) := { inv with }
  unfold Blk.discoLeggi
  split
  · exact .servito after rfl
  · exact .fallito after rfl

theorem Coerente.leggiAvanti (inv : Coerente s)
    (disco abs n : Nat) (buf : Nat → Settore) (p fine : Nat) :
    Letto s.dischi (leggiAvanti s disco abs n buf p fine) disco abs n buf p := by
  have after : Coerente { s with avUltDisco := some disco, avUltFine := abs + n } := { inv with }
  have dropped : Coerente { s with
          avUltDisco := some disco, avUltFine := abs + n, avDisco := none } :=
    ⟨inv.settori, inv.pagine, by simp⟩
  unfold Blk.leggiAvanti
  dsimp only
  split
  · next inside =>
    have content : copy buf p s.av (abs - s.avLba) n =
      copy buf p (s.dischi disco) abs n := by
      refine copy_congr fun j small => ?_
      rw [inv.finestra disco inside.1 _ (by omega), ← Nat.add_assoc, Nat.add_sub_cancel' inside.2.1]
    rw [content]
    exact .servito after rfl
  · split
    · exact after.discoLeggi disco abs n buf p
    generalize (if abs + avantiSett > fine then fine - abs else avantiSett) = quanti
    split
    · exact dropped.discoLeggi disco abs n buf p
    have filled := dropped.discoLeggi disco abs quanti s.av 0
    generalize Blk.discoLeggi _ disco abs quanti s.av 0 = res at filled ⊢
    obtain ⟨s₃, outcome⟩ := res
    have sameDisks : s₃.dischi = s.dischi := filled.stessi
    cases outcome with
    | none =>
      rw [← sameDisks]
      exact filled.coerente.discoLeggi disco abs n buf p
    | some av =>
      have content := filled.dati av rfl
      have window : ∀ j, j < quanti → av j = s.dischi disco (abs + j) := by
        intro j small
        rw [content, copy_inside (Nat.zero_le j) (by omega), Nat.sub_zero]
      have copied : copy buf p av 0 n = copy buf p (s.dischi disco) abs n := by
        refine copy_congr fun j small => ?_
        rw [Nat.zero_add, window j (by omega)]
      dsimp only
      rw [copied]
      refine .servito ⟨filled.coerente.settori, filled.coerente.pagine, ?_⟩ sameDisks
      intro d isDisk j small
      have sameDisk : disco = d := Option.some.inj isDisk
      have held := window j small
      rw [← sameDisks, sameDisk] at held
      exact held

theorem Coerente.pcFonte (inv : Coerente s)
    (b : BlkDev) (abs n : Nat) (buf : Nat → Settore) (p : Nat) (avanti : Bool) :
    Letto s.dischi (pcFonte s b abs n buf p avanti) b.disco abs n buf p := by
  unfold Blk.pcFonte
  split
  · exact inv.leggiAvanti b.disco abs n buf p (b.primo + b.settori)
  · exact inv.discoLeggi b.disco abs n buf p

theorem Coerente.pcMetti (inv : Coerente s)
    {chiave : Chiave} {t : Nat → Settore} (aligned : chiave.2 % pcSett = 0)
    (content : ∀ j, j < pcSett → t j = s.dischi chiave.1 (chiave.2 + j)) :
    Coerente (pcMetti s chiave t) := by
  refine ⟨inv.settori, ?_, inv.finestra⟩
  intro pc' present
  have present' : s.pc.map (fun pc => pcMettiRimbalzo pc (s.ram 0) chiave t) = some pc' := present
  obtain ⟨pc, pre, updated⟩ := Option.map_eq_some_iff.mp present'
  obtain ⟨libere, pagine⟩ := inv.pagine pc pre
  rw [← updated]
  exact pagine.mettiRimbalzo aligned content

theorem Coerente.pcMettiTutte (disco : Nat) (buf : Nat → Settore) (pagine : Nat) :
    ∀ {s : Sistema Settore} (pag p : Nat), Coerente s → pag % pcSett = 0 →
      (∀ j, j < pagine * pcSett → buf (p + j) = s.dischi disco (pag + j)) →
      Coerente (pcMettiTutte disco buf pagine s pag p) ∧
        (pcMettiTutte disco buf pagine s pag p).dischi = s.dischi := by
  induction pagine with
  | zero =>
    intro s pag p inv _ _
    exact ⟨inv, rfl⟩
  | succ pagine ih =>
    intro s pag p inv aligned content
    rw [Nat.succ_mul] at content
    have fst : Coerente (Blk.pcMetti s (disco, pag) fun k => buf (p + k)) := by
      apply inv.pcMetti aligned
      intro j small
      exact content j (by omega)
    have rest := ih (pag + pcSett) (p + pcSett) fst (by rw [Nat.add_mod_right]; exact aligned) (by
          intro j small
          have later := content (j + pcSett) (by omega)
          have source : p + pcSett + j = p + (j + pcSett) := by omega
          have target : pag + pcSett + j = pag + (j + pcSett) := by omega
          rw [source, target]
          exact later)
    exact rest

/-- What one round of `pc_leggi` leaves. -/
structure PezzoLetto (dischi : Nat → Nat → Settore)
    (esito : Sistema Settore × Option (Nat × (Nat → Settore)))
    (disco abs n : Nat) (buf : Nat → Settore) (p : Nat) : Prop where
  coerente : Coerente esito.1
  stessi : esito.1.dischi = dischi
  dati : ∀ q buf', esito.2 = some (q, buf') →
    0 < q ∧ q ≤ n ∧ buf' = copy buf p (dischi disco) abs q

theorem PezzoLetto.servito {dischi : Nat → Nat → Settore} {disco abs p q : Nat}
    {buf buf' : Nat → Settore}
    (inv : Coerente s) (stessi : s.dischi = dischi) (pos : 0 < q) (short : q ≤ n)
    (content : buf' = copy buf p (dischi disco) abs q) :
    PezzoLetto dischi (s, some (q, buf')) disco abs n buf p := by
  refine ⟨inv, stessi, fun q₁ buf₁ served => ?_⟩
  cases served
  exact ⟨pos, short, content⟩

theorem Coerente.pcLeggiPezzo (inv : Coerente s)
    {pc : CachePagine Settore} (present : s.pc = some pc) (b : BlkDev)
    (abs : Nat) (pos : n ≠ 0) (buf : Nat → Settore) (p : Nat) (avanti : Bool) :
    PezzoLetto s.dischi (pcLeggiPezzo s pc b abs n buf p avanti) b.disco abs n buf p := by
  obtain ⟨libere, pagine⟩ := inv.pagine pc present
  obtain ⟨progress, short, le⟩ := PcCoerente.nellaPagina_spec pos
  obtain ⟨aligned, lower, _⟩ := PcCoerente.paginaDi_spec abs
  unfold Blk.pcLeggiPezzo
  dsimp only
  cases served : pcCopia pc (b.disco, paginaDi abs) (abs - paginaDi abs)
        (nellaPagina abs n) buf p with
  | some answer =>
    obtain ⟨pc', buf₁⟩ := answer
    obtain ⟨after, content⟩ := pagine.copia le served
    rw [Nat.add_sub_cancel' lower] at content
    have coherent : Coerente { s with pc := some pc' } := by
      refine ⟨inv.settori, ?_, inv.finestra⟩
      intro pc₁ isPc
      rw [← Option.some.inj isPc]
      exact ⟨libere, after⟩
    cases avanti with
    | false => exact .servito coherent rfl progress short content
    | true => exact .servito { coherent with } rfl progress short content
  | none =>
    dsimp only
    split
    · next whole =>
      -- A whole page is missing, so `abs` is the page's first sector.
      have start : paginaDi abs = abs := by omega
      obtain ⟨pagesPositive, pagesShort⟩ :=
        pagineMancanti_spec pc b.disco (paginaDi abs) n n 1 Nat.one_pos (by omega)
      generalize pagineMancanti pc b.disco (paginaDi abs) n n 1 =
        quante at pagesPositive pagesShort ⊢
      have source := inv.pcFonte b abs (quante * pcSett) buf p avanti
      split
      · next s' failed =>
        rw [failed] at source
        exact ⟨source.coerente, source.stessi, by simp⟩
      rename_i s' buf₁ res
      rw [res] at source
      have content := source.dati buf₁ rfl
      have sameDisks : s'.dischi = s.dischi := source.stessi
      have put := Coerente.pcMettiTutte b.disco buf₁ quante (paginaDi abs) p
          source.coerente aligned (by
            intro j small
            rw [content, copy_inside (Nat.le_add_right p j)
              (by omega), start, sameDisks, Nat.add_sub_cancel_left])
      exact .servito put.1 (put.2.trans sameDisks) (Nat.mul_pos pagesPositive (by decide))
        pagesShort content
    · split
      · have source := inv.pcFonte b abs (nellaPagina abs n) buf p avanti
        split
        · next s' failed =>
          rw [failed] at source
          exact ⟨source.coerente, source.stessi, by simp⟩
        rename_i s' buf₁ res
        rw [res] at source
        exact .servito source.coerente source.stessi progress short (source.dati buf₁ rfl)
      · have source := inv.pcFonte b (paginaDi abs) pcSett (fun _ => buf p) 0 avanti
        split
        · next s' failed =>
          rw [failed] at source
          exact ⟨source.coerente, source.stessi, by simp⟩
        rename_i s' t res
        rw [res] at source
        have sameDisks : s'.dischi = s.dischi := source.stessi
        have content : ∀ j, j < pcSett → t j = s.dischi b.disco (paginaDi abs + j) := by
          intro j small
          rw [source.dati t rfl, copy_inside (Nat.zero_le j) (by omega), Nat.sub_zero]
        have put : Coerente (Blk.pcMetti s' (b.disco, paginaDi abs) t) := by
          apply source.coerente.pcMetti aligned
          rw [sameDisks]
          exact content
        refine .servito put sameDisks progress short (copy_congr fun j small => ?_)
        rw [content _ (by omega), ← Nat.add_assoc, Nat.add_sub_cancel' lower]

theorem Coerente.pcLeggiDa (b : BlkDev) (avanti : Bool) (giri : Nat) :
    ∀ {s : Sistema Settore} (abs n : Nat) (buf : Nat → Settore) (p : Nat), n ≤ giri → Coerente s →
      Letto s.dischi (pcLeggiDa b avanti giri s abs n buf p) b.disco abs n buf p := by
  induction giri with
  | zero =>
    intro s abs n buf p enough inv
    rw [Nat.le_zero.mp enough]
    exact ⟨inv, rfl, fun buf' served => by rw [copy_zero, ← Option.some.inj served]⟩
  | succ giri ih =>
    intro s abs n buf p enough inv
    rw [Blk.pcLeggiDa]
    split
    · next done =>
      rw [done]
      exact ⟨inv, rfl, fun buf' served => by rw [copy_zero, ← Option.some.inj served]⟩
    · next done =>
      cases present : s.pc with
      | none => exact inv.pcFonte b abs n buf p avanti
      | some pc =>
        have piece := inv.pcLeggiPezzo present b abs done buf p avanti
        dsimp only
        split
        · next s' failed =>
          rw [failed] at piece
          exact ⟨piece.coerente, piece.stessi, by simp⟩
        rename_i s' q buf₁ res
        rw [res] at piece
        obtain ⟨pos, short, content⟩ := piece.dati q buf₁ rfl
        have sameDisks : s'.dischi = s.dischi := piece.stessi
        have rest := ih (abs + q) (n - q) buf₁ (p + q) (by omega) piece.coerente
        refine ⟨rest.coerente, rest.stessi.trans sameDisks, ?_⟩
        intro buf' served
        rw [rest.dati buf' served, content, sameDisks,
          copy_append, Nat.add_sub_cancel' short]

theorem Coerente.pcLeggi (inv : Coerente s)
    (b : BlkDev) (abs n : Nat) (buf : Nat → Settore) (avanti : Bool) :
    Letto s.dischi (pcLeggi s b abs n buf avanti) b.disco abs n buf 0 := by
  unfold Blk.pcLeggi
  cases s.pc with
  | none => exact inv.pcFonte b abs n buf 0 avanti
  | some pc =>
    exact Coerente.pcLeggiDa b avanti n abs n buf 0 (Nat.le_refl n) inv

theorem Coerente.cacheInit (inv : Coerente s) (vuoto : Settore) : Coerente (cacheInit s vuoto) := by
  unfold Blk.cacheInit
  split
  · refine ⟨?_, ?_, inv.finestra⟩
    · intro cache isCache
      rw [← Option.some.inj isCache]
      exact ⟨⟨_, .empty secchio cacheVoci _⟩, by simp⟩
    · intro pc isPc
      obtain ⟨tabella, _, created⟩ := Option.map_eq_some_iff.mp isPc
      have enough := tabella.abbastanza
      rw [← created]
      refine ⟨List.range' 0 tabella.pagine,
        ⟨⟨_, .empty (pcSecchio (tabella.secchi - 1)) tabella.pagine _⟩, ?_,
          List.nodup_range', ?_, by simp, by simp⟩⟩
      · have chain := BucketTable.Follow.range'
            (fun k => if k + 1 < tabella.pagine then some (k + 1) else none)
            tabella.pagine 0
            (by
              intro index _ upper
              rw [if_pos]
              omega)
            (by
              intro _
              rw [if_neg]
              omega)
        rw [if_neg (by omega)] at chain
        exact chain
      · intro k mem
        obtain ⟨i, small, isK⟩ := List.mem_range'.mp mem
        refine ⟨rfl, ?_⟩
        dsimp only
        omega
  · exact { inv with }

theorem cacheInit_dischi {vuoto : Settore} : (cacheInit s vuoto).dischi = s.dischi := by
  unfold cacheInit
  split <;> rfl

theorem Coerente.conCache (inv : Coerente s)
    {cache : CacheSettori Settore} (cacheCoerente : CacheCoerente cache s.dischi) :
    Coerente { s with cache := some cache } := by
  refine ⟨?_, inv.pagine, inv.finestra⟩
  intro cache' isCache
  rw [← Option.some.inj isCache]
  exact cacheCoerente

theorem Coerente.leggiAta (inv : Coerente s)
    (b : BlkDev) (abs n : Nat) (buf : Nat → Settore) (usaCache : Bool) :
    Letto s.dischi (leggiAta s b abs n buf usaCache) b.disco abs n buf 0 := by
  unfold Blk.leggiAta
  dsimp only
  have ready : Coerente (if s.pronta then s else Blk.cacheInit s (buf 0)) := by
    split
    · exact inv
    · exact inv.cacheInit (buf 0)
  have sameDisks : (if s.pronta then s else Blk.cacheInit s (buf 0)).dischi = s.dischi := by
    split
    · rfl
    · exact cacheInit_dischi
  generalize (if s.pronta then s else Blk.cacheInit s (buf 0)) = s₁ at ready sameDisks ⊢
  rw [← sameDisks]
  split
  · next cache present _ =>
    obtain ⟨after, served⟩ := CacheCoerente.servi b.disco n abs buf 0 (ready.settori cache present)
    split
    · next cache' buf₁ res =>
      rw [res] at after served
      exact ⟨ready.conCache after, rfl, served⟩
    rename_i cache' missed
    rw [missed] at after
    have source := (ready.conCache after).pcLeggi b abs n buf false
    split
    · next s₂ failed =>
      rw [failed] at source
      exact ⟨source.coerente, source.stessi, by simp⟩
    rename_i s₂ buf₁ res
    rw [res] at source
    have content := source.dati buf₁ rfl
    have sameDisks₂ : s₂.dischi = s₁.dischi := source.stessi
    refine ⟨⟨?_, source.coerente.pagine, source.coerente.finestra⟩, source.stessi, source.dati⟩
    intro cache₂ isCache
    obtain ⟨cache₁, pre, filled⟩ := Option.map_eq_some_iff.mp isCache
    rw [← filled]
    apply CacheCoerente.riempi b.disco buf₁ n abs 0 (source.coerente.settori cache₁ pre)
    intro k small
    have inside := congrFun content (0 + k)
    rw [copy_inside (Nat.zero_le (0 + k)) (by omega)] at inside
    rw [inside, Nat.zero_add]
    exact congrFun (congrFun sameDisks₂.symm b.disco) (abs + k)
  · exact ready.pcLeggi b abs n buf (!usaCache)

theorem Coerente.leggi (inv : Coerente s)
    (b : BlkDev) (lba n : Nat) (buf : Nat → Settore) (usaCache : Bool) :
    Letto s.dischi (leggi s b lba n buf usaCache) b.disco (b.primo + lba) n buf 0 := by
  unfold Blk.leggi
  split
  · exact ⟨inv, rfl, by simp⟩
  · next abs accepted =>
    rw [← (traduci_eq_some accepted).1]
    exact inv.leggiAta b abs n buf usaCache

theorem Coerente.avantiScarta (inv : Coerente s) (disco : Option Nat) (lba n : Nat) :
    Coerente (avantiScarta s disco lba n) := by
  rcases avantiScarta_cases s disco lba n with same | dropped
  · rw [same]
    exact inv
  · rw [dropped]
    exact ⟨inv.settori, inv.pagine, by simp⟩

theorem avantiScarta_away (s : Sistema Settore) (disco lba : Nat)
    (held : (avantiScarta s (some disco) lba n).avDisco = some disco) :
    s.avLba + s.avN ≤ lba ∨ lba + n ≤ s.avLba := by
  unfold avantiScarta at held
  split at held
  · next empty =>
    rw [empty] at held
    simp at held
  rename_i corrente present
  split at held
  · next other =>
    rw [present] at held
    exact absurd held.symm other.2
  · split at held
    · next away => exact away.2
    · simp at held

/-- After the window is dropped, a command that changes the range leaves what
the window still holds alone. -/
theorem Coerente.finestra_scriviDischi (inv : Coerente s) (disco abs n : Nat)
    (src : Nat → Settore) :
    ∀ d, (Blk.avantiScarta s (some disco) abs n).avDisco = some d →
      ∀ j, j < (Blk.avantiScarta s (some disco) abs n).avN →
        (Blk.avantiScarta s (some disco) abs n).av j =
          scriviDischi (Blk.avantiScarta s (some disco) abs n).dischi disco abs src n d
            ((Blk.avantiScarta s (some disco) abs n).avLba + j) := by
  intro d held j small
  have content := (inv.avantiScarta (some disco) abs n).finestra d held j small
  rw [content]
  by_cases same : d = disco
  · rw [same] at held
    have away := avantiScarta_away s disco abs held
    rw [scriviDischi_outside]
    rcases avantiScarta_cases s (some disco) abs n with same | dropped
    · rw [same] at small ⊢
      omega
    · rw [dropped] at held
      cases held
  · rw [scriviDischi_outside (.inl same)]

theorem Coerente.blkWrite (inv : Coerente s) (b : BlkDev) (lba n : Nat)
    (buf resto : Nat → Settore) :
    Coerente (blkWrite s b lba n buf resto).1 := by
  unfold Blk.blkWrite
  split
  · exact inv
  rename_i abs accepted
  split
  · exact inv
  have kept := inv.avantiScarta (some b.disco) abs n
  have window := inv.finestra_scriviDischi b.disco abs n
  unfold discoScrivi
  cases (Blk.avantiScarta s (some b.disco) abs n).esiti 0 with
  | true =>
    refine ⟨?_, ?_, window buf⟩
    · intro cache' isCache
      obtain ⟨cache, pre, updated⟩ := Option.map_eq_some_iff.mp isCache
      rw [← updated]
      exact CacheCoerente.aggiorna b.disco n abs buf (kept.settori cache pre)
    · intro pc' isPc
      obtain ⟨pc, pre, updated⟩ := Option.map_eq_some_iff.mp isPc
      obtain ⟨libere, pagine⟩ := kept.pagine pc pre
      rw [← updated]
      exact ⟨libere, PcCoerente.aggiorna b.disco n abs n buf (Nat.le_refl n) pagine⟩
  | false =>
    refine ⟨?_, ?_, window resto⟩
    · intro cache' isCache
      obtain ⟨cache, pre, updated⟩ := Option.map_eq_some_iff.mp isCache
      rw [← updated]
      obtain ⟨after, dropped⟩ := CacheCoerente.scarta b.disco n abs (kept.settori cache pre)
      apply after.congr_dischi
      intro k chiave live
      have out := (dropped k chiave live).2
      exact scriviDischi_outside (by omega)
    · intro pc' isPc
      obtain ⟨pc, pre, updated⟩ := Option.map_eq_some_iff.mp isPc
      obtain ⟨libere, pagine⟩ := kept.pagine pc pre
      obtain ⟨aligned, lower, upper⟩ := PcCoerente.paginaDi_spec abs
      rw [← updated]
      obtain ⟨libere', after, dropped⟩ :=
        PcCoerente.scarta b.disco (abs + n) (n + 1) (paginaDi abs) pagine aligned (by
            simp only [pcSett] at *
            omega)
      refine ⟨libere', after.congr_dischi ?_⟩
      intro k chiave live j small
      have out := (dropped k chiave live).2
      have keyAligned := after.allineata k chiave live
      apply scriviDischi_outside
      simp only [pcSett] at *
      omega

theorem Coerente.blkCacheCedi (inv : Coerente s)
    (pagine : Nat) : Coerente (blkCacheCedi s pagine) := by
  refine ⟨inv.settori, ?_, inv.finestra⟩
  intro pc' isPc
  obtain ⟨pc, pre, updated⟩ := Option.map_eq_some_iff.mp isPc
  obtain ⟨libere, pcCoerente⟩ := inv.pagine pc pre
  rw [← updated]
  exact PcCoerente.cedi pagine pcCoerente

theorem Coerente.cacheSvuota (inv : Coerente s)
    (disco : Option Nat) : Coerente (cacheSvuota s disco) := by
  have kept := inv.avantiScarta disco 0 0
  refine ⟨?_, ?_, kept.finestra⟩
  · intro cache' isCache
    obtain ⟨cache, pre, updated⟩ := Option.map_eq_some_iff.mp isCache
    rw [← updated]
    exact CacheCoerente.svuota disco cacheVoci 0 (kept.settori cache pre)
  · intro pc' isPc
    obtain ⟨pc, pre, updated⟩ := Option.map_eq_some_iff.mp isPc
    obtain ⟨libere, pcCoerente⟩ := kept.pagine pc pre
    rw [← updated]
    exact PcCoerente.svuota disco pc.n 0 pcCoerente

/-! ## Runs -/

/-- A write brings, besides its buffer, what a failed command would leave on
the disk. -/
inductive Chiamata (Settore : Type) where
  | blkRead (b : BlkDev) (lba n : Nat) (buf : Nat → Settore)
  | blkReadDiretto (b : BlkDev) (lba n : Nat) (buf : Nat → Settore)
  | blkWrite (b : BlkDev) (lba n : Nat) (buf resto : Nat → Settore)
  | blkCacheCedi (pagine : Nat)
  | cacheSvuota (disco : Option Nat)

def Chiamata.esegui : Chiamata Settore → Sistema Settore → Sistema Settore
  | .blkRead b lba n buf, s => (Blk.blkRead s b lba n buf).1
  | .blkReadDiretto b lba n buf, s => (Blk.blkReadDiretto s b lba n buf).1
  | .blkWrite b lba n buf resto, s => (Blk.blkWrite s b lba n buf resto).1
  | .blkCacheCedi pagine, s => Blk.blkCacheCedi s pagine
  | .cacheSvuota disco, s => Blk.cacheSvuota s disco

/-- The state at boot: no cache yet, no window, any disks and any answers to
come from the controller and the allocator. -/
def Iniziale (s : Sistema Settore) : Prop :=
  s.pronta = false ∧ s.cache = none ∧ s.pc = none ∧ s.avDisco = none

theorem Iniziale.coerente (iniziale : Iniziale s) : Coerente s := by
  obtain ⟨_, noCache, noPages, noWindow⟩ := iniziale
  exact ⟨by simp [noCache], by simp [noPages], by simp [noWindow]⟩

theorem Coerente.esegui (inv : Coerente s)
    (chiamata : Chiamata Settore) : Coerente (chiamata.esegui s) := by
  cases chiamata with
  | blkRead b lba n buf => exact (inv.leggi b lba n buf true).coerente
  | blkReadDiretto b lba n buf =>
    exact (inv.leggi b lba n buf false).coerente
  | blkWrite b lba n buf resto => exact inv.blkWrite b lba n buf resto
  | blkCacheCedi pagine => exact inv.blkCacheCedi pagine
  | cacheSvuota disco => exact inv.cacheSvuota disco

/-- The states the driver goes through, one call at a time. -/
def Raggiunto : Sistema Settore → Prop :=
  Reached Iniziale fun prima (chiamata : Chiamata Settore) dopo =>
    dopo = chiamata.esegui prima

theorem Raggiunto.coerente (raggiunto : Raggiunto s) : Coerente s := by
  apply Reached.invariant Coerente _ _ raggiunto
  · intro state fst
    exact fst.coerente
  · intro pre chiamata after inv taken
    rw [taken]
    exact inv.esegui chiamata

/-- Whatever calls came before, a read that succeeds fills its buffer with the
sectors that are on the disk. -/
theorem lettura_fedele {s : Sistema Settore} (raggiunto : Raggiunto s)
    (b : BlkDev) (lba n : Nat) (buf buf' : Nat → Settore) :
    ((blkRead s b lba n buf).2 = some buf' → ∀ k, buf' k =
          if k < n then s.dischi b.disco (b.primo + lba + k) else buf k) ∧
      ((blkReadDiretto s b lba n buf).2 = some buf' →
        ∀ k, buf' k = if k < n then s.dischi b.disco (b.primo + lba + k) else buf k) := by
  have served : ∀ usaCache, (leggi s b lba n buf usaCache).2 = some buf' → ∀ k, buf' k =
        if k < n then s.dischi b.disco (b.primo + lba + k) else buf k := by
    intro usaCache res k
    have content := (raggiunto.coerente.leggi b lba n buf usaCache).dati buf' res
    rw [content]
    split
    · rw [copy_inside (Nat.zero_le k) (by omega), Nat.sub_zero]
    · rw [copy_outside (by omega)]
  exact ⟨served true, served false⟩

/-- A disk read once, so that its first page is in both caches, and then
written: the next read finds the new sector. -/
def discoDiProva : BlkDev :=
  { usato := true, guasto := false, solaLettura := false, disco := 0
    primo := 0, settori := 64, limite := by decide }

def avvio : Sistema Nat :=
  { dischi := fun disco lba => 1000 * disco + lba, pronta := false
    cache := none, pc := none, avMemoria := false, av := fun _ => 0
    avDisco := none, avLba := 0, avN := 0, avUltDisco := none, avUltFine := 0
    memoria :=
      { settori := true, finestra := true
        pagine := some { pagine := 16, secchi := 16, abbastanza := by decide } }
    comandi := [], esiti := fun _ => true, ram := fun _ => true }

def lettoEScritto : Sistema Nat :=
  Chiamata.esegui (.blkWrite discoDiProva 3 1 (fun _ => 7) (fun _ => 0))
    (Chiamata.esegui (.blkRead discoDiProva 3 1 fun _ => 0) avvio)

theorem lettura_fedele_dopo_scrittura : Raggiunto lettoEScritto ∧
      ∃ buf', (blkRead lettoEScritto discoDiProva 3 1 fun _ => 0).2 = some buf' ∧ buf' 0 = 7 := by
  have raggiunto : Raggiunto lettoEScritto := .next (.next (.start ⟨rfl, rfl, rfl, rfl⟩) rfl) rfl
  have succeeds : (blkRead lettoEScritto discoDiProva 3 1 fun _ => 0).2.isSome = true := by
    decide +kernel
  obtain ⟨buf', res⟩ := Option.isSome_iff_exists.mp succeeds
  have content := (lettura_fedele raggiunto discoDiProva 3 1 (fun _ => 0) buf').1 res 0
  refine ⟨raggiunto, buf', res, ?_⟩
  rw [content]
  decide +kernel

/-! ## The last write -/

theorem avantiScarta_dischi (s : Sistema Settore) (disco : Option Nat) (lba n : Nat) :
    (avantiScarta s disco lba n).dischi = s.dischi := by
  rcases avantiScarta_cases s disco lba n with same | dropped
  · rw [same]
  · rw [dropped]

variable {buf resto : Nat → Settore} {r : Sistema Settore × Bool}

theorem blkWrite_dischi (done : blkWrite s b lba n buf resto = r) : r = (s, false) ∨
    ∃ src, (r.2 = true → src = buf) ∧
      r.1.dischi = scriviDischi s.dischi b.disco (b.primo + lba) src n := by
  rw [← done, ← avantiScarta_dischi s (some b.disco) (b.primo + lba) n]
  unfold Blk.blkWrite
  split
  · exact .inl rfl
  rename_i abs accepted
  rw [(traduci_eq_some accepted).1]
  split
  · exact .inl rfl
  unfold discoScrivi
  cases (avantiScarta s (some b.disco) (b.primo + lba) n).esiti 0 with
  | true => exact .inr ⟨buf, fun _ => rfl, rfl⟩
  | false => exact .inr ⟨resto, nofun, rfl⟩

/-- A call that writes nothing on a sector. -/
def Chiamata.Lontana (disco abs : Nat) : Chiamata Settore → Prop
  | .blkWrite b lba n _ _ => disco ≠ b.disco ∨ abs < b.primo + lba ∨ b.primo + lba + n ≤ abs
  | _ => True

theorem Coerente.lontana (inv : Coerente s) {disco abs : Nat} {chiamata : Chiamata Settore}
    (away : chiamata.Lontana disco abs) :
    (chiamata.esegui s).dischi disco abs = s.dischi disco abs := by
  cases chiamata with
  | blkRead b lba n buf => rw [Chiamata.esegui, blkRead, (inv.leggi b lba n buf true).stessi]
  | blkReadDiretto b lba n buf =>
    rw [Chiamata.esegui, blkReadDiretto, (inv.leggi b lba n buf false).stessi]
  | blkCacheCedi pagine => rfl
  | cacheSvuota altro => exact congrFun (congrFun (avantiScarta_dischi s altro 0 0) disco) abs
  | blkWrite b lba n buf resto =>
    rw [Chiamata.esegui]
    have effect := blkWrite_dischi (rfl : Blk.blkWrite s b lba n buf resto = _)
    rcases effect with still | ⟨src, _, written⟩
    · rw [still]
    · rw [written, scriviDischi_outside away]

/-- A sector read, through any device of its disk, is what the last write put there. -/
theorem ultima_scrittura (raggiunto : Raggiunto s) {s' : Sistema Settore}
    (written : blkWrite s b lba n buf resto = (s', true)) {chiamate : List (Chiamata Settore)}
    {b' : BlkDev} {lba' n' i j : Nat} (inside : i < n) (asked : j < n')
    (place : b'.disco = b.disco ∧ b'.primo + lba' + j = b.primo + lba + i)
    (away : ∀ c ∈ chiamate, c.Lontana b.disco (b.primo + lba + i)) {prima letto : Nat → Settore}
    {cached : Bool}
    (read : (leggi (chiamate.foldl (fun s c => c.esegui s) s') b' lba' n' prima cached).2 =
      some letto) : letto j = buf i := by
  have after := raggiunto.coerente.blkWrite b lba n buf resto
  rw [written] at after
  have put : s'.dischi b.disco (b.primo + lba + i) = buf i := by
    rcases blkWrite_dischi written with failed | ⟨src, isBuf, dischi⟩
    · cases failed
    · rw [dischi, isBuf rfl, scriviDischi_inside (by omega) (by omega), Nat.add_sub_cancel_left]
  clear written
  induction chiamate generalizing s' with
  | nil =>
    rw [(after.leggi b' lba' n' prima cached).dati letto read, place.1,
      copy_inside (Nat.zero_le j) (by omega), Nat.sub_zero, place.2]
    exact put
  | cons c chiamate ih =>
    have still := after.lontana (away c List.mem_cons_self)
    exact ih (fun d mem => away d (List.mem_cons_of_mem c mem)) read (after.esegui c)
      (still.trans put)

def partizioneDiProva : BlkDev :=
  { discoDiProva with primo := 2, settori := 32, limite := by decide }

/-- Reads, a write to other sectors and a flush, through the disk and a partition of it. -/
def nelFrattempo : List (Chiamata Nat) :=
  [.blkRead discoDiProva 0 8 fun _ => 0, .blkWrite partizioneDiProva 10 2 (fun _ => 9) fun _ => 0,
    .cacheSvuota (some 0), .blkReadDiretto partizioneDiProva 0 16 fun _ => 0]

theorem ultima_scrittura_letta : ∃ letto,
    (blkRead (nelFrattempo.foldl (fun s c => c.esegui s) lettoEScritto) partizioneDiProva 1 1
      fun _ => 0).2 = some letto ∧ letto 0 = 7 := by
  have accepted : traduci partizioneDiProva 1 1 = some 3 := rfl
  have given := Dati.lettura (fun _ => 0) (nelFrattempo.foldl (fun s c => c.esegui s) lettoEScritto)
    (by decide) (by decide) accepted true
  obtain ⟨letto, read⟩ := Option.isSome_iff_exists.mp (given.riesce fun _ => rfl).2
  have fst : Raggiunto (Chiamata.esegui (.blkRead discoDiProva 3 1 fun _ => 0) avvio) :=
    .next (.start ⟨rfl, rfl, rfl, rfl⟩) rfl
  have written : blkWrite (Chiamata.esegui (.blkRead discoDiProva 3 1 fun _ => 0) avvio)
      discoDiProva 3 1 (fun _ => 7) (fun _ => 0) = (lettoEScritto, true) :=
    Prod.ext rfl (by decide +kernel)
  refine ⟨letto, read, ultima_scrittura fst written Nat.one_pos Nat.one_pos ?_ ?_ read⟩
  · exact ⟨rfl, rfl⟩
  simp [nelFrattempo, Chiamata.Lontana, discoDiProva, partizioneDiProva]

end ExOs.Block.Blk
