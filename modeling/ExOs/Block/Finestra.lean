import ExOs.Block.CacheCoherence

/-!
# The window of a device

Every command a call of `kernel/block/blk.c` gives to a disk is in the log of
`Sistema`.  Here each call is followed along its path: what it adds to the log
is inside the window of its device, and it succeeds if its commands do.
-/

namespace ExOs.Block.Blk

open ExOs.Library

variable {Settore α β : Type} {s s' s₁ : Sistema Settore} {b : BlkDev} {abs n lba : Nat}

theorem traduci_eq_some (accepted : traduci b lba n = some abs) :
    abs = b.primo + lba ∧ lba ≤ (lba + n) % 2 ^ 64 ∧ (lba + n) % 2 ^ 64 ≤ b.settori := by
  simp only [traduci, Option.ite_none_left_eq_some, Option.some.injEq] at accepted
  omega

/-- An accepted range is inside the device, and no 64-bit sum of the read path
on it wraps around. -/
theorem traduci_bounds (lbaWord : lba < 2 ^ 64)
    (nWord : n < 2 ^ 32) (accepted : traduci b lba n = some abs) :
    abs + n ≤ b.primo + b.settori := by
  obtain ⟨start, noWrap, short⟩ := traduci_eq_some accepted
  omega

theorem avantiScarta_cases (s : Sistema Settore) (disco : Option Nat) (lba n : Nat) :
    avantiScarta s disco lba n = s ∨ avantiScarta s disco lba n = { s with avDisco := none } := by
  unfold avantiScarta
  split
  · exact .inl rfl
  split
  · exact .inl rfl
  split
  · exact .inl rfl
  · exact .inr rfl

theorem pagineMancanti_spec (pc : CachePagine Settore) (disco pag n : Nat) :
    ∀ giri pagine, 0 < pagine → pagine * pcSett ≤ n →
      0 < pagineMancanti pc disco pag n giri pagine ∧
        pagineMancanti pc disco pag n giri pagine * pcSett ≤ n := by
  intro giri
  induction giri with
  | zero =>
    intro pagine pos short
    exact ⟨pos, short⟩
  | succ giri ih =>
    intro pagine pos short
    rw [pagineMancanti]
    split
    · next more =>
      exact ih (pagine + 1) (Nat.succ_pos pagine) more.1
    · exact ⟨pos, short⟩

/-- The commands given between two states are for the disk of `b`, inside its window. -/
def Dentro (b : BlkDev) (prima dopo : Sistema Settore) : Prop :=
  ∃ nuovi, dopo.comandi = prima.comandi ++ nuovi ∧ ∀ c ∈ nuovi,
    c.disco = b.disco ∧ b.primo ≤ c.abs ∧ c.abs + c.n ≤ b.primo + b.settori

theorem Dentro.nessuno (same : s'.comandi = s.comandi) : Dentro b s s' :=
  ⟨[], by rw [same, List.append_nil], by simp⟩

theorem Dentro.trans (fst : Dentro b s s₁) (snd : Dentro b s₁ s') : Dentro b s s' := by
  obtain ⟨primi, isFirst, firstInside⟩ := fst
  obtain ⟨secondi, isSecond, secondInside⟩ := snd
  refine ⟨primi ++ secondi, by rw [isSecond, isFirst, List.append_assoc], fun c member => ?_⟩
  exact (List.mem_append.mp member).elim (firstInside c) (secondInside c)

theorem Dentro.comanda (window : b.primo ≤ abs ∧ abs + n ≤ b.primo + b.settori) :
    Dentro b s (s.comanda b.disco abs n) :=
  ⟨[⟨b.disco, abs, n⟩], rfl, by simpa using window⟩

/-- Every command to come will succeed. -/
def Pronti (s : Sistema Settore) : Prop := ∀ k, s.esiti k = true

/-- What a read gave: commands inside the window, and a result if they succeed. -/
structure Dati (b : BlkDev) (s : Sistema Settore) (esito : Sistema Settore × Option α) : Prop where
  dentro : Dentro b s esito.1
  riesce : Pronti s → Pronti esito.1 ∧ esito.2.isSome = true

theorem Dati.servito (same : s'.comandi = s.comandi ∧ s'.esiti = s.esiti) {dato : α} :
    Dati b s (s', some dato) :=
  ⟨.nessuno same.1, fun pronti => ⟨fun k => same.2 ▸ pronti k, rfl⟩⟩

theorem Dati.prima {esito : Sistema Settore × Option α} (given : Dati b s₁ esito)
    (same : s₁.comandi = s.comandi ∧ s₁.esiti = s.esiti) : Dati b s esito :=
  ⟨(Dentro.nessuno same.1).trans given.dentro,
    fun pronti => given.riesce fun k => same.2 ▸ pronti k⟩

variable {primo : Sistema Settore × Option α} {esito : Sistema Settore × Option β}

theorem Dati.fallita (given : Dati b s primo) (failed : primo = (s', none))
    (next : Dentro b s' esito.1) : Dati b s esito := by
  rw [failed] at given
  exact ⟨given.dentro.trans next, fun pronti => absurd (given.riesce pronti).2 nofun⟩

theorem Dati.riuscita (given : Dati b s primo) {dato : α} (done : primo = (s', some dato))
    (next : Dati b s' esito) : Dati b s esito := by
  rw [done] at given
  exact ⟨given.dentro.trans next.dentro, fun pronti => next.riesce (given.riesce pronti).1⟩

variable (buf : Nat → Settore)

theorem Dati.leggi (p : Nat) (window : b.primo ≤ abs ∧ abs + n ≤ b.primo + b.settori) :
    Dati b s (discoLeggi s b.disco abs n buf p) := by
  refine ⟨.comanda window, fun pronti => ⟨fun k => pronti (k + 1), ?_⟩⟩
  rw [discoLeggi, if_pos (pronti 0)]
  rfl

/-- The read-ahead stops at the end of the device. -/
theorem Dati.avanti (p : Nat) (window : b.primo ≤ abs ∧ abs + n ≤ b.primo + b.settori) :
    Dati b s (leggiAvanti s b.disco abs n buf p (b.primo + b.settori)) := by
  have room : abs + (if abs + avantiSett > b.primo + b.settori then b.primo + b.settori - abs
      else avantiSett) ≤ b.primo + b.settori := by
    split <;> omega
  unfold leggiAvanti
  dsimp only
  generalize (if abs + avantiSett > b.primo + b.settori then b.primo + b.settori - abs
      else avantiSett) = quanti at room ⊢
  split
  · exact .servito (by exact ⟨rfl, rfl⟩)
  split
  · exact (Dati.leggi buf p window).prima (by exact ⟨rfl, rfl⟩)
  split
  · exact (Dati.leggi buf p window).prima (by exact ⟨rfl, rfl⟩)
  have fills := (Dati.leggi (s := { s with
    avUltDisco := some b.disco, avUltFine := abs + n, avDisco := none }) s.av 0 ⟨window.1, room⟩)
  have fills := fills.prima (s := s) ⟨rfl, rfl⟩
  split
  · next s' failed => exact fills.fallita failed (Dati.leggi buf p window).dentro
  · next s' av done => exact fills.riuscita done (.servito (by exact ⟨rfl, rfl⟩))

theorem Dati.fonte (p : Nat) (avanti : Bool)
    (window : b.primo ≤ abs ∧ abs + n ≤ b.primo + b.settori) :
    Dati b s (pcFonte s b abs n buf p avanti) := by
  unfold pcFonte
  split
  · exact .avanti buf p window
  · exact .leggi buf p window

theorem pcMettiTutte_frame {disco : Nat} {buf : Nat → Settore} {pagine : Nat} :
    ∀ (s : Sistema Settore) (pag p : Nat),
      (pcMettiTutte disco buf pagine s pag p).comandi = s.comandi ∧
        (pcMettiTutte disco buf pagine s pag p).esiti = s.esiti := by
  induction pagine with
  | zero =>
    intro s pag p
    exact ⟨rfl, rfl⟩
  | succ pagine ih =>
    intro s pag p
    exact ih _ _ _

/-- One round of `pc_leggi`: whole pages only when they are asked for, and the
page of a piece only when it is all in the device. -/
theorem Dati.pezzo (s : Sistema Settore) (pc : CachePagine Settore) (buf : Nat → Settore) (p : Nat)
    (avanti : Bool) (pos : n ≠ 0) (window : b.primo ≤ abs ∧ abs + n ≤ b.primo + b.settori) :
    Dati b s (pcLeggiPezzo s pc b abs n buf p avanti) := by
  have short : nellaPagina abs n ≤ n := (PcCoerente.nellaPagina_spec pos).2.1
  unfold pcLeggiPezzo pcCopia
  dsimp only
  cases pcCerca pc (b.disco, paginaDi abs) with
  | some k => exact .servito (by split <;> exact ⟨rfl, rfl⟩)
  | none =>
    dsimp only
    split
    · obtain ⟨-, fit⟩ := pagineMancanti_spec pc b.disco (paginaDi abs) n n 1 Nat.one_pos (by omega)
      generalize pagineMancanti pc b.disco (paginaDi abs) n n 1 = quante at fit ⊢
      have source := Dati.fonte (s := s) (n := quante * pcSett) buf p avanti ⟨window.1, by omega⟩
      split
      · next s' failed => exact source.fallita failed (.nessuno rfl)
      · next s' buf' done => exact source.riuscita done (.servito (pcMettiTutte_frame ..))
    split
    · have source := Dati.fonte (s := s) (n := nellaPagina abs n) buf p avanti
        ⟨window.1, by omega⟩
      split
      · next s' failed => exact source.fallita failed (.nessuno rfl)
      · next s' buf' done => exact source.riuscita done (.servito ⟨rfl, rfl⟩)
    · have source : Dati b s (pcFonte s b (paginaDi abs) pcSett (fun _ => buf p) 0 avanti) :=
        .fonte _ 0 avanti (by omega)
      split
      · next s' failed => exact source.fallita failed (.nessuno rfl)
      · next s' t done => exact source.riuscita done (.servito (by exact ⟨rfl, rfl⟩))

theorem pcLeggiPezzo_short {pc : CachePagine Settore} {p q : Nat} {avanti : Bool}
    {buf' : Nat → Settore}
    (pos : n ≠ 0) (served : (pcLeggiPezzo s pc b abs n buf p avanti).2 = some (q, buf')) :
    q ≤ n := by
  have short : nellaPagina abs n ≤ n := (PcCoerente.nellaPagina_spec pos).2.1
  unfold pcLeggiPezzo at served
  dsimp only at served
  split at served
  · cases served
    exact short
  split at served
  · obtain ⟨-, fit⟩ := pagineMancanti_spec pc b.disco (paginaDi abs) n n 1 Nat.one_pos (by omega)
    split at served
    · cases served
    · cases served
      exact fit
  split at served <;> split at served <;> cases served <;> exact short

/-- The whole loop, round by round. -/
theorem Dati.da (avanti : Bool) (giri : Nat) : ∀ (s : Sistema Settore) (abs n : Nat)
    (buf : Nat → Settore) (p : Nat), b.primo ≤ abs ∧ abs + n ≤ b.primo + b.settori →
      Dati b s (pcLeggiDa b avanti giri s abs n buf p) := by
  induction giri with
  | zero =>
    intro s abs n buf p window
    exact .servito ⟨rfl, rfl⟩
  | succ giri ih =>
    intro s abs n buf p window
    unfold pcLeggiDa
    split
    · exact .servito ⟨rfl, rfl⟩
    · rename_i pos
      cases s.pc with
      | none => exact .fonte buf p avanti window
      | some pc =>
        have piece := Dati.pezzo s pc buf p avanti pos window
        dsimp only
        split
        · next s' failed => exact piece.fallita failed (.nessuno rfl)
        · next s' q buf' done =>
          have short := pcLeggiPezzo_short buf pos (congrArg Prod.snd done)
          exact piece.riuscita done (ih s' (abs + q) (n - q) buf' (p + q) (by omega))

theorem Dati.pagine (avanti : Bool) (window : b.primo ≤ abs ∧ abs + n ≤ b.primo + b.settori) :
    Dati b s (pcLeggi s b abs n buf avanti) := by
  unfold pcLeggi
  cases s.pc with
  | none => exact .fonte buf 0 avanti window
  | some pc => exact .da avanti n s abs n buf 0 window

theorem Dati.ata (usaCache : Bool) (window : b.primo ≤ abs ∧ abs + n ≤ b.primo + b.settori) :
    Dati b s (leggiAta s b abs n buf usaCache) := by
  have same : (if s.pronta then s else cacheInit s (buf 0)).comandi = s.comandi ∧
      (if s.pronta then s else cacheInit s (buf 0)).esiti = s.esiti := by
    unfold cacheInit
    split <;> (try split) <;> exact ⟨rfl, rfl⟩
  unfold leggiAta
  dsimp only
  generalize (if s.pronta then s else cacheInit s (buf 0)) = s₁ at same ⊢
  refine Dati.prima ?_ same
  split
  · split
    · exact .servito (by exact ⟨rfl, rfl⟩)
    · next cache' _ =>
      have source := Dati.pagine (s := { s₁ with cache := some cache' }) buf false window
      have source := source.prima (s := s₁) ⟨rfl, rfl⟩
      split
      · next s' failed => exact source.fallita failed (.nessuno rfl)
      · next s' buf' done => exact source.riuscita done (.servito (by exact ⟨rfl, rfl⟩))
  · exact .pagine buf _ window

theorem Dati.lettura (s : Sistema Settore) (lbaWord : lba < 2 ^ 64) (nWord : n < 2 ^ 32)
    (accepted : traduci b lba n = some abs) (usaCache : Bool) :
    Dati b s (Blk.leggi s b lba n buf usaCache) := by
  have starts := (traduci_eq_some accepted).1
  unfold Blk.leggi
  rw [accepted]
  exact .ata buf usaCache ⟨by omega, traduci_bounds lbaWord nWord accepted⟩

/-- A call keeps to the window of its device: every command `blk_read`, `blk_read_diretto` and
`blk_write` give is inside it, whatever the caches hold, and a request that is not ends in an
error with no command and no change. -/
theorem finestra_rispettata (s : Sistema Settore) (b : BlkDev) (lba : UInt64) (n : UInt32)
    (buf resto : Nat → Settore) :
    Dentro b s (blkRead s b lba.toNat n.toNat buf).1 ∧
      Dentro b s (blkReadDiretto s b lba.toNat n.toNat buf).1 ∧
      Dentro b s (blkWrite s b lba.toNat n.toNat buf resto).1 ∧ (b.settori < lba.toNat + n.toNat →
        blkRead s b lba.toNat n.toNat buf = (s, none) ∧
          blkReadDiretto s b lba.toNat n.toNat buf = (s, none) ∧
          blkWrite s b lba.toNat n.toNat buf resto = (s, false)) := by
  have lbaWord := lba.toNat_lt
  have nWord := n.toNat_lt
  cases accepted : traduci b lba.toNat n.toNat with
  | none =>
    simp only [blkRead, blkReadDiretto, leggi, blkWrite, accepted]
    exact ⟨.nessuno rfl, .nessuno rfl, .nessuno rfl, by simp⟩
  | some abs =>
    have starts := (traduci_eq_some accepted).1
    have ends := traduci_bounds lbaWord nWord accepted
    refine ⟨(Dati.lettura buf s lbaWord nWord accepted true).dentro,
      (Dati.lettura buf s lbaWord nWord accepted false).dentro, ?_, by omega⟩
    unfold blkWrite
    rw [accepted]
    dsimp only
    split
    · exact .nessuno rfl
    have given : Dentro b s
        ((avantiScarta s (some b.disco) abs n.toNat).comanda b.disco abs n.toNat) := by
      refine Dentro.trans (.nessuno ?_) (.comanda ⟨by omega, ends⟩)
      rcases avantiScarta_cases s (some b.disco) abs n.toNat with same | dropped
      · rw [same]
      · rw [dropped]
    unfold discoScrivi
    cases (avantiScarta s (some b.disco) abs n.toNat).esiti 0 with
    | true | false => exact given

end ExOs.Block.Blk
