import ExOs.Ext4.GiornaleCommit
import ExOs.Ext4.GiornaleMount
import ExOs.Ext4.GiornaleVista
import ExOs.Fs.Ext2Percorsi
import ExOs.Library.Runs

/-!
# The path cache does not show

What `risolvi` answers from its cache is what `risolvi_dal_disco` would answer:
an invariant of the driver's runs, under a condition on the journals that the
registration of the write module replays.
-/

namespace ExOs.Fs

open ExOs.Library ExOs.Library.Buffer ExOs.Ext4 List Driver

/-- The blocks of a volume as its reads see them. -/
def Volume.oracolo (v : Volume) (s : Driver) (lettura : Lettura) : Option Buffer :=
  v.leggi (s.dischi v.blkdev) lettura.numero

/-- The block of pointers in memory is the one on the volume. -/
def Driver.IndFedele (s : Driver) (ind : Option (Nat × Nat × Buffer)) : Prop :=
  ∀ mnt n b, ind = some (mnt, n, b) →
    ∃ v, s.mnt mnt = some v ∧ v.leggi (s.dischi v.blkdev) n = some b

variable {s : Driver} {mnt : Nat} {v : Volume}

variable (mounted : s.mnt mnt = some v) {n : Nat} {ind : Option (Nat × Nat × Buffer)} {v' : Volume}
  {Esito : Type} {s' : Driver} {b : Buffer} {d : Disco}

include mounted

theorem Driver.IndFedele.letto (n : Nat) : s.IndFedele
      ((v.leggi (s.dischi v.blkdev) n).map fun b => (mnt, n, b)) := by
  intro mnt' n' b' kept
  obtain ⟨b, read, same⟩ := Option.map_eq_some_iff.mp kept
  simp only [Prod.mk.injEq] at same
  obtain ⟨isMnt, isN, isB⟩ := same
  refine ⟨v, isMnt ▸ mounted, ?_⟩
  rw [← isN, ← isB]
  exact read

theorem Driver.servi_fedele (ind : Option (Nat × Nat × Buffer)) (lettura : Lettura)
    (fedele : s.IndFedele ind) :
    (s.servi mnt v ind lettura).1 = v.oracolo s lettura ∧
      s.IndFedele (s.servi mnt v ind lettura).2 := by
  have fresh := Driver.IndFedele.letto mounted
  cases lettura with
  | blocco n => exact ⟨rfl, fedele⟩
  | indiretto n =>
    cases ind with
    | none => exact ⟨rfl, fresh n⟩
    | some cached =>
      obtain ⟨altro, numero, b⟩ := cached
      unfold servi
      dsimp only
      split
      · next hit =>
        obtain ⟨v', mounted', read⟩ := fedele altro numero b rfl
        have same : v' = v := by
          rw [hit.1, mounted] at mounted'
          exact (Option.some.inj mounted').symm
        rw [same, hit.2] at read
        exact ⟨read.symm, fedele⟩
      · exact ⟨rfl, fresh n⟩

theorem Driver.esegui_fedele (fedele : s.IndFedele s.ind) (programma : Programma Esito) :
    (s.esegui mnt v programma).1 = programma.eval (v.oracolo s) ∧
      s.IndFedele (s.esegui mnt v programma).2.ind :=
  Query.run_eq (fun ind lettura good =>
    servi_fedele mounted ind lettura good) programma s.ind fedele

omit mounted

/-- An entry that `risolvi` may use. -/
def Driver.Viva (s : Driver) (e : VoceRisolvi) : Prop := e.ino ≠ 0 ∧ e.gen = s.gen

/-- The driver's caches agree with the volumes, no device is mounted twice, and
journals are opened by the module only. -/
structure Driver.Coerente (s : Driver) : Prop where
  ind : s.IndFedele s.ind
  voci : ∀ e ∈ s.ris, s.Viva e →
    ∃ v, s.mnt e.mnt = some v ∧
      (risolviDalDisco v.m (some e.nome)).eval (v.oracolo s) = some (e.ino, some e.inode)
  distinti : ∀ i j v w, s.mnt i = some v → s.mnt j = some w → v.blkdev = w.blkdev → i = j
  chiusi : s.ops = false → ∀ i v, s.mnt i = some v → v.giornale = none
  semplici : ∀ i v g, s.mnt i = some v → v.giornale = some g → g.Semplice

/-- `risolvi` answers what `risolvi_dal_disco` would. -/
def Driver.Trasparente (s : Driver) : Prop :=
  ∀ mnt v, s.mnt mnt = some v → ∀ percorso,
    (s.risolvi mnt v percorso).1 = (s.esegui mnt v (risolviDalDisco v.m percorso)).1

variable (inv : s.Coerente) {src : Buffer} {ora : Nat}

include inv

theorem Driver.Coerente.ricorda (mounted : s.mnt mnt = some v) {nome : List UInt8}
    {voce : VoceRisolvi}
    (found : s.ricorda mnt nome = some voce) :
    (risolviDalDisco v.m (some nome)).eval (v.oracolo s) = some (voce.ino, some voce.inode) := by
  have mem := mem_of_find?_eq_some found
  have matched := List.find?_some found
  simp only [ne_eq, decide_eq_true_eq] at matched
  obtain ⟨used, current, isMnt, isNome⟩ := matched
  obtain ⟨v', mounted', res⟩ := inv.voci voce mem ⟨used, current⟩
  have same : v' = v := by
    rw [isMnt, mounted] at mounted'
    exact (Option.some.inj mounted').symm
  rw [same, isNome] at res
  exact res

theorem Driver.Coerente.trasparente : s.Trasparente := by
  intro mnt v mounted percorso
  have isPure := (esegui_fedele mounted inv.ind (risolviDalDisco v.m percorso)).1
  cases percorso with
  | none => rfl
  | some nome =>
    unfold risolvi
    dsimp only
    split
    · rfl
    · cases found : s.ricorda mnt nome with
      | some voce =>
        rw [isPure, inv.ricorda mounted found]
      | none =>
        dsimp only
        split
        · next ino inode s' res => rw [res]
        · rfl

theorem Driver.Coerente.conInd (fedele : s.IndFedele ind) : { s with ind := ind }.Coerente :=
  { inv with ind := fedele }

include mounted

theorem Driver.Coerente.esegui (programma : Programma Esito) :
    (s.esegui mnt v programma).2.Coerente :=
  inv.conInd (esegui_fedele mounted inv.ind programma).2

theorem Driver.Coerente.risolvi (percorso : Option (List UInt8)) :
    (s.risolvi mnt v percorso).2.Coerente := by
  obtain ⟨res, fedele⟩ := esegui_fedele mounted inv.ind (risolviDalDisco v.m percorso)
  have same := inv.esegui mounted (risolviDalDisco v.m percorso)
  cases percorso with
  | none => exact same
  | some nome =>
    unfold Driver.risolvi
    dsimp only
    split
    · exact same
    · cases found : s.ricorda mnt nome with
      | some voce => exact inv
      | none =>
        dsimp only
        split
        · next ino inode s' resolved =>
          rw [resolved] at res same
          have isState : s' = (s.esegui mnt v (risolviDalDisco v.m (some nome))).2 := by
            rw [resolved]
          refine { same with voci := ?_ }
          intro e mem viva
          rcases mem_or_eq_of_mem_set mem with old | new
          · exact same.voci e old viva
          refine ⟨v, ?_, ?_⟩
          · rw [new, isState]
            exact mounted
          · rw [new, isState]
            exact res.symm
        · exact same

omit mounted

omit inv

/-! ## Writes of metadata -/

/-- No entry has the generation that comes next: the counter has not gone
round. -/
def Driver.Freschi (s : Driver) : Prop := ∀ e ∈ s.ris, e.ino ≠ 0 → e.gen ≠ (s.gen + 1) % 2 ^ 32

theorem Driver.Freschi.nessuna (freschi : s.Freschi)
    (ris : s'.ris = s.ris) (gen : s'.gen = (s.gen + 1) % 2 ^ 32) :
    ∀ e ∈ s'.ris, ¬ s'.Viva e := by
  intro e mem viva
  rw [ris] at mem
  exact freschi e mem viva.1 (viva.2.trans gen)

theorem Volume.leggi_some (read : v.leggi d n = some b) : n ≠ 0 ∧ n < v.m.nBlocchi := by
  unfold Volume.leggi at read
  split at read
  · simp at read
  · omega

theorem Volume.leggi_congr {d d' : Disco} (volume : v'.m = v.m) (same : v'.vede d' n = v.vede d n) :
    v'.leggi d' n = v.leggi d n := by
  unfold Volume.leggi Volume.tronca
  rw [volume, same]

/-- What `metti` does: `v'` is the volume after it. -/
structure Driver.Messo (s : Driver) (mnt : Nat) (v : Volume) (n : Nat)
    (src : Buffer) (ok : Bool) (s' : Driver) (v' : Volume) : Prop where
  mnt : ∀ i, s'.mnt i = if i = mnt then some v' else s.mnt i
  m : v'.m = v.m
  blkdev : v'.blkdev = v.blkdev
  dischi : ∀ dev, dev ≠ v.blkdev → s'.dischi dev = s.dischi dev
  resto : s'.ind = s.ind ∧ s'.ris = s.ris ∧ s'.gen = s.gen ∧ s'.ops = s.ops
  altri : ∀ k, k ≠ n → k ≠ 0 → (∀ g, v.giornale = some g → Gio.Libero g k) →
    v'.vede (s'.dischi v.blkdev) k = v.vede (s.dischi v.blkdev) k
  questo : ok = true → (∀ g, v.giornale = some g → g.Semplice) →
    v'.vede (s'.dischi v.blkdev) n = src
  semplice : (∀ g, v.giornale = some g → g.Semplice) → ∀ g, v'.giornale = some g → g.Semplice
  chiuso : v.giornale = none → v'.giornale = none

theorem Driver.metti_spec (mounted : s.mnt mnt = some v) :
    ∃ v', s.Messo mnt v n src (s.metti mnt v n src ora).1 (s.metti mnt v n src ora).2 v' := by
  unfold metti
  cases journal : v.giornale with
  | none =>
    refine ⟨v, ?_, rfl, rfl, ?_, ⟨rfl, rfl, rfl, rfl⟩, ?_, ?_, ?_, ?_⟩
    · intro i
      by_cases here : i = mnt
      · rw [if_pos here, here]
        exact mounted
      · rw [if_neg here]
        rfl
    · intro dev other
      exact if_neg other
    · intro k other _ _
      unfold conDisco Volume.vede
      dsimp only
      rw [if_pos rfl, journal]
      exact blocco_apply_of_untouched (scriviTutto_untouched other src) _
    · intro _ _
      unfold conDisco Volume.vede
      dsimp only
      rw [if_pos rfl, journal]
      exact blocco_scriviTutto
    · intro semplice
      exact semplice
    · intro closed
      exact closed
  | some g =>
    refine ⟨{ v with
        giornale := some (Gio.giornaleScrivi v.m g n src ora).2.1 },
      fun i => rfl, rfl, rfl, ?_, ⟨rfl, rfl, rfl, rfl⟩, ?_, ?_, ?_, ?_⟩
    · intro dev other
      exact if_neg other
    · intro k other pos free
      unfold conVolume conDisco Volume.vede
      dsimp only
      rw [if_pos rfl, journal]
      exact Gio.giornaleScrivi_altro other pos (free g journal)
    · intro ok semplice
      exact (Gio.giornaleScrivi_questo (semplice g journal)).2 ok _
    · intro semplice g' isG
      rw [← Option.some.inj isG]
      exact (Gio.giornaleScrivi_questo (semplice g journal)).1
    · intro closed
      rw [journal] at closed
      simp at closed

include inv

/-- A step that changes one mount and keeps its device its own. -/
theorem Driver.Coerente.cambia (only : ∀ i, s'.mnt i = if i = mnt then some v' else s.mnt i)
    (alone : ∀ i w, i ≠ mnt → s.mnt i = some w → w.blkdev ≠ v'.blkdev)
    (ops : s'.ops = s.ops) (chiuso : s.ops = false → v'.giornale = none)
    (semplice : ∀ g, v'.giornale = some g → g.Semplice) (ind : s'.IndFedele s'.ind)
    (voci : ∀ e ∈ s'.ris, s'.Viva e → ∃ w, s'.mnt e.mnt = some w ∧
      (risolviDalDisco w.m (some e.nome)).eval (w.oracolo s') = some (e.ino, some e.inode)) :
    s'.Coerente := by
  have pre : ∀ i w, s'.mnt i = some w → i = mnt ∧ w = v' ∨ i ≠ mnt ∧ s.mnt i = some w := by
    intro i w after
    rw [only] at after
    split at after
    · next here => exact .inl ⟨here, (Option.some.inj after).symm⟩
    · next other => exact .inr ⟨other, after⟩
  refine ⟨ind, voci, ?_, ?_, ?_⟩
  · intro i j w u i_mounted j_mounted same
    rcases pre i w i_mounted with ⟨iHere, isW⟩ | ⟨iOther, wOld⟩
    · rcases pre j u j_mounted with ⟨jHere, _⟩ | ⟨jOther, uOld⟩
      · rw [iHere, jHere]
      · exact absurd (isW ▸ same.symm) (alone j u jOther uOld)
    · rcases pre j u j_mounted with ⟨_, isU⟩ | ⟨_, uOld⟩
      · exact absurd (isU ▸ same) (alone i w iOther wOld)
      · exact inv.distinti i j w u wOld uOld same
  · intro closed i w i_mounted
    rw [ops] at closed
    rcases pre i w i_mounted with ⟨_, isW⟩ | ⟨_, wOld⟩
    · rw [isW, chiuso closed]
    · exact inv.chiusi closed i w wOld
  · intro i w g i_mounted journal
    rcases pre i w i_mounted with ⟨_, isW⟩ | ⟨_, wOld⟩
    · exact semplice g (isW ▸ journal)
    · exact inv.semplici i w g wOld journal

theorem Driver.Coerente.sola (mounted : s.mnt mnt = some v) :
    ∀ i w, i ≠ mnt → s.mnt i = some w → w.blkdev ≠ v.blkdev := by
  intro i w other w_mounted same
  exact other (inv.distinti i mnt w v w_mounted mounted same)

omit inv

/-- A metadata block written when no entry is in use any more: the block of
pointers in memory is another one, or the block written itself. -/
theorem Driver.Messo.coerente {ok : Bool} {s₀ s' : Driver}
    (messo : s.Messo mnt v n src ok s' v') (inv : s₀.Coerente)
    (volumes : s.mnt = s₀.mnt) (loaded : s.ops = s₀.ops)
    (mounted : s.mnt mnt = some v) (absent : ∀ e ∈ s.ris, ¬ s.Viva e)
    (ind : ∀ i k b, s.ind = some (i, k, b) →
      i = mnt ∧ k = n ∧ b = v.tronca src ∧ ok = true ∧ n ≠ 0 ∧ n < v.m.nBlocchi ∨
        ∃ w, s.mnt i = some w ∧ w.leggi (s.dischi w.blkdev) k = some b ∧
          (i = mnt → k ≠ n ∧ ∀ g, v.giornale = some g → Gio.Libero g k)) :
    s'.Coerente := by
  obtain ⟨sameInd, sameRis, sameGen, sameOps⟩ := messo.resto
  rw [volumes] at mounted
  have mine : s'.mnt mnt = some v' := by rw [messo.mnt, if_pos rfl]
  have simple : ∀ g, v.giornale = some g → g.Semplice := fun g => inv.semplici mnt v g mounted
  have alone := inv.sola mounted
  apply inv.cambia (volumes ▸ messo.mnt) (messo.blkdev ▸ alone) (sameOps.trans loaded)
    (fun closed => messo.chiuso (inv.chiusi closed mnt v mounted)) (messo.semplice simple)
  · intro i k b cached
    rw [sameInd] at cached
    rcases ind i k b cached with
      ⟨isMnt, isN, isB, done, pos, lt⟩ | ⟨w, w_mounted, read, away⟩
    · refine ⟨v', isMnt ▸ mine, ?_⟩
      unfold Volume.leggi Volume.tronca
      rw [messo.m, messo.blkdev, isN, messo.questo done simple, if_neg (by omega), isB]
      rfl
    · rw [volumes] at w_mounted
      by_cases here : i = mnt
      · rw [here, mounted] at w_mounted
        rw [← Option.some.inj w_mounted] at read
        obtain ⟨other, free⟩ := away here
        refine ⟨v', here ▸ mine, ?_⟩
        rw [messo.blkdev, ← read]
        exact Volume.leggi_congr messo.m (messo.altri k other (Volume.leggi_some read).1 free)
      · refine ⟨w, ?_, ?_⟩
        · rw [messo.mnt, if_neg here, volumes]
          exact w_mounted
        · rw [messo.dischi _ (alone i w here w_mounted)]
          exact read
  · intro e mem viva
    rw [sameRis] at mem
    exact absurd ⟨viva.1, viva.2.trans sameGen⟩ (absent e mem)

include inv

include mounted

/-- `scrivi_blocco`, where the block of pointers in memory is not a block of
the journal. -/
theorem Driver.Coerente.scriviBlocco (freschi : s.Freschi)
    (free : ∀ k b g, s.ind = some (mnt, k, b) → v.giornale = some g →
      Gio.Libero g k) (n : Nat) (src : Buffer) (ora : Nat) :
    (s.scriviBlocco mnt v n src ora).2.Coerente := by
  unfold Driver.scriviBlocco
  split
  · exact inv
  obtain ⟨v', messo⟩ := metti_spec
    (s := { s with ind := s.ind.filter fun tenuto => tenuto.2.1 ≠ n }.invecchia)
    mounted
  apply messo.coerente inv rfl rfl mounted (freschi.nessuna rfl rfl)
  intro i k b kept
  obtain ⟨old, other⟩ := Option.filter_eq_some_iff.mp kept
  obtain ⟨w, w_mounted, read⟩ := inv.ind i k b old
  refine .inr ⟨w, w_mounted, read, ?_⟩
  intro isMnt
  rw [isMnt] at old
  exact ⟨of_decide_eq_true other, fun g journal => free k b g old journal⟩

theorem Driver.Coerente.indRiversa (freschi : s.Freschi) {b₀ : Buffer}
    (cached : s.ind = some (mnt, n, b₀)) (done : (s.indRiversa mnt v n b ora).1 = true) :
    (s.indRiversa mnt v n b ora).2.Coerente := by
  obtain ⟨w, w_mounted, read⟩ := inv.ind mnt n b₀ cached
  have isV : w = v := by
    rw [mounted] at w_mounted
    exact (Option.some.inj w_mounted).symm
  rw [isV] at read
  obtain ⟨pos, lt⟩ := Volume.leggi_some read
  obtain ⟨v', messo⟩ := metti_spec
    (s := { s with ind := some (mnt, n, v.tronca b) }.invecchia) mounted
  apply messo.coerente inv rfl rfl mounted (freschi.nessuna rfl rfl)
  intro i k b' here
  have same := Option.some.inj here
  simp only [Prod.mk.injEq] at same
  exact .inl ⟨same.1.symm, same.2.1.symm, same.2.2.symm, done, pos, lt⟩

omit mounted

omit inv

/-! ## Opening journals -/

/-- The journal that the module opens on mount `mnt` changes no block through
which an entry in use was resolved, nor the block of pointers that stays in
memory. -/
def Driver.Intatta (s : Driver) (mnt : Nat) : Prop :=
  ∀ v, s.mnt mnt = some v →
    (∀ e ∈ s.ris, s.Viva e → e.mnt = mnt →
      ∀ lettura ∈ (risolviDalDisco v.m (some e.nome)).trace (v.oracolo s),
        blocco ((s.valuta mnt).dischi v.blkdev) lettura.numero =
          blocco (s.dischi v.blkdev) lettura.numero) ∧
    ∀ n b, (s.valuta mnt).ind = some (mnt, n, b) →
      blocco ((s.valuta mnt).dischi v.blkdev) n = blocco (s.dischi v.blkdev) n

/-- What `valuta` may do: reads, writes to one device, a journal without a
transaction. -/
structure Driver.Valutato (s : Driver) (mnt : Nat) (v : Volume) (s' : Driver)
    (giornale : Option Gio.Giornale) : Prop where
  mnt : ∀ i, s'.mnt i =
    if i = mnt then some { v with giornale := giornale } else s.mnt i
  dischi : ∀ dev, dev ≠ v.blkdev → s'.dischi dev = s.dischi dev
  resto : s'.ris = s.ris ∧ s'.gen = s.gen ∧ s'.ops = s.ops
  vuoto : ∀ g, giornale = some g → g.slot = []
  ind : s.IndFedele s'.ind

theorem Driver.conVolume_valutato (fedele : s.IndFedele ind) :
    s.Valutato mnt v ({ s with ind := ind }.conVolume mnt { v with giornale := none }) none :=
  ⟨fun _ => rfl, fun _ _ => rfl, ⟨rfl, rfl, rfl⟩, by simp, fedele⟩

include mounted

theorem Driver.apriGiornale_valutato (fedele : s.IndFedele s.ind) {inode : Buffer} :
    ∃ giornale, s.Valutato mnt v (s.apriGiornale mnt v inode) giornale := by
  unfold apriGiornale
  refine ⟨_, fun _ => rfl, fun dev other => if_neg other, ⟨rfl, rfl, rfl⟩, ?_, ?_⟩
  · intro g isOpen
    obtain ⟨g₀, jsb, next, prima, x, _, _, _, shape⟩ := Gio.giornaleMonta_some (Prod.ext rfl isOpen)
    rw [shape]
    rfl
  · unfold conVolume conDisco
    dsimp only
    split
    · intro i k b here
      simp at here
    · exact (esegui_fedele mounted fedele _).2

theorem Driver.valuta_valutato (fedele : s.IndFedele s.ind) (closed : v.giornale = none) :
    ∃ giornale, s.Valutato mnt v (s.valuta mnt) giornale := by
  unfold valuta
  rw [mounted]
  dsimp only
  split
  · unfold giornaleMonta
    dsimp only
    split
    · exact ⟨none, conVolume_valutato fedele⟩
    have fedele' := (esegui_fedele mounted fedele (leggiInode v.m
      (le32 (superblocco v.m (s.dischi v.blkdev)) 0xE0))).2
    split
    · next s' read =>
      have isState := congrArg Prod.snd read
      dsimp only at isState
      rw [← isState]
      exact ⟨none, conVolume_valutato fedele'⟩
    · next inode s' read =>
      have isState := congrArg Prod.snd read
      dsimp only at isState
      rw [← isState]
      obtain ⟨giornale, aperto⟩ := apriGiornale_valutato
        (s := (s.esegui mnt v (leggiInode v.m (le32 (superblocco v.m (s.dischi v.blkdev)) 0xE0))).2)
        mounted fedele'
      exact ⟨giornale, aperto.mnt, aperto.dischi, aperto.resto, aperto.vuoto, aperto.ind⟩
  · refine ⟨none, ?_, fun _ _ => rfl, ⟨rfl, rfl, rfl⟩, by simp, fedele⟩
    intro i
    split
    · next here =>
      rw [here, mounted, ← closed]
    · rfl

omit mounted

theorem Volume.vede_vuoto (vuoto : ∀ g, v.giornale = some g → g.slot = []) :
    v.vede d n = blocco d n := by
  unfold Volume.vede
  cases journal : v.giornale with
  | none => rfl
  | some g =>
    dsimp only
    rw [Gio.giornaleLeggi, vuoto g journal]
    rfl

theorem Driver.valuta_smontato (unmounted : s.mnt mnt = none) : s.valuta mnt = s := by
  unfold valuta
  rw [unmounted]

theorem Driver.valuta_senza (closed : s.ops = false) : s.valuta mnt = s := by
  unfold valuta
  cases s.mnt mnt with
  | none => rfl
  | some v => simp [closed]

theorem Driver.Coerente.valuta (inv : s.Coerente)
    (closed : ∀ v, s.mnt mnt = some v → v.giornale = none) (intatta : s.Intatta mnt) :
    (s.valuta mnt).Coerente ∧ ∀ i, i ≠ mnt → (s.valuta mnt).mnt i = s.mnt i := by
  cases mounted : s.mnt mnt with
  | none =>
    rw [valuta_smontato mounted]
    exact ⟨inv, fun _ _ => rfl⟩
  | some v =>
    obtain ⟨giornale, valutato⟩ := valuta_valutato mounted inv.ind (closed v mounted)
    obtain ⟨sameRis, sameGen, sameOps⟩ := valutato.resto
    obtain ⟨entries, pointers⟩ := intatta v mounted
    have mine : (s.valuta mnt).mnt mnt = some { v with giornale := giornale } := by
      rw [valutato.mnt, if_pos rfl]
    have others : ∀ i, i ≠ mnt → (s.valuta mnt).mnt i = s.mnt i := by
      intro i other
      rw [valutato.mnt, if_neg other]
    have unjournaled : ∀ g, v.giornale = some g → g.slot = [] := by
      intro g journal
      rw [closed v mounted] at journal
      simp at journal
    -- A volume reads as before, mount `mnt` where its blocks stay.
    have follows : ∀ i w, s.mnt i = some w → ∃ w', (s.valuta mnt).mnt i = some w' ∧ w'.m = w.m ∧
        ∀ n, (i = mnt → blocco ((s.valuta mnt).dischi v.blkdev) n = blocco (s.dischi v.blkdev) n) →
          w'.leggi ((s.valuta mnt).dischi w'.blkdev) n = w.leggi (s.dischi w.blkdev) n := by
      intro i w w_mounted
      by_cases here : i = mnt
      · rw [here, mounted] at w_mounted
        rw [← Option.some.inj w_mounted, here]
        refine ⟨_, mine, rfl, ?_⟩
        intro n same
        refine Volume.leggi_congr rfl ?_
        rw [Volume.vede_vuoto valutato.vuoto, Volume.vede_vuoto unjournaled, same rfl]
      · refine ⟨w, (others i here).trans w_mounted, rfl, ?_⟩
        intro n _
        rw [valutato.dischi _ (inv.sola mounted i w here w_mounted)]
    have alone := inv.sola mounted
    refine ⟨inv.cambia valutato.mnt alone sameOps ?_ ?_ ?_ ?_, others⟩
    · intro off
      have same : some { v with giornale := giornale } = some v := by
        rw [← mine, valuta_senza off, mounted]
      rw [Option.some.inj same]
      exact closed v mounted
    · intro g journal
      unfold Gio.Giornale.Semplice
      rw [valutato.vuoto g journal]
      exact nodup_nil
    · intro i k b cached
      obtain ⟨w, w_mounted, read⟩ := valutato.ind i k b cached
      obtain ⟨w', w'_mounted, _, reads⟩ := follows i w w_mounted
      refine ⟨w', w'_mounted, ?_⟩
      rw [reads k (fun here => pointers k b (here ▸ cached)), read]
    · intro e mem viva
      rw [sameRis] at mem
      have viva₀ : s.Viva e := ⟨viva.1, viva.2.trans sameGen⟩
      obtain ⟨w, w_mounted, res⟩ := inv.voci e mem viva₀
      obtain ⟨w', w'_mounted, sameM, reads⟩ := follows e.mnt w w_mounted
      refine ⟨w', w'_mounted, ?_⟩
      rw [← res, sameM]
      apply Query.eval_congr
      intro lettura read
      apply reads
      intro here
      rw [here, mounted] at w_mounted
      rw [← Option.some.inj w_mounted] at read
      exact entries e mem viva₀ here lettura read

/-! ## Mounts and the registration -/

include inv

theorem Driver.Coerente.invecchia (freschi : s.Freschi) : s.invecchia.Coerente := by
  refine { inv with voci := ?_ }
  have stale : ∀ e ∈ s.invecchia.ris, ¬ s.invecchia.Viva e := freschi.nessuna rfl rfl
  intro e mem viva
  exact absurd viva (stale e mem)

theorem Driver.Coerente.montato (freschi : s.Freschi)
    {slot blkdev : Nat} (alone : ∀ i v, s.mnt i = some v → v.blkdev ≠ blkdev) (roChiesto : Bool)
    (m : Ext2Mount) : (s.montato slot blkdev roChiesto m).Coerente := by
  have stale : ∀ e ∈ (s.montato slot blkdev roChiesto m).ris,
      ¬ (s.montato slot blkdev roChiesto m).Viva e :=
    freschi.nessuna rfl rfl
  refine inv.cambia (fun _ => rfl) (fun i w _ => alone i w) rfl (fun _ => rfl) ?_ ?_ ?_
  · intro g journal
    simp at journal
  · intro i k b cached
    simp [Driver.montato, Driver.conVolume] at cached
  · intro e mem viva
    exact absurd viva (stale e mem)

theorem Driver.Coerente.mountCome (freschi : s.Freschi)
    {blkdev : Nat} (alone : ∀ i v, s.mnt i = some v → v.blkdev ≠ blkdev)
    {roChiesto : Bool} {m : Option Ext2Mount}
    (intatta : ∀ slot m', s.libero = some slot → m = some m' →
      (s.montato slot blkdev roChiesto m').Intatta slot) :
    (s.mountCome blkdev roChiesto m).Coerente := by
  unfold Driver.mountCome
  cases place : s.libero with
  | none => exact inv.invecchia freschi
  | some slot =>
    cases m with
    | none => exact inv.invecchia freschi
    | some m =>
      have entered : (s.montato slot blkdev roChiesto m).Coerente :=
        inv.montato freschi alone roChiesto m
      refine (entered.valuta ?_ (intatta slot m place rfl)).1
      intro v mounted
      have isNew : some _ = some v := (if_pos rfl).symm.trans mounted
      rw [← Option.some.inj isNew]

omit inv

theorem Driver.rivalutaDa_smontato (unmounted : ∀ i, s.mnt i = none)
    {restanti i : Nat} : rivalutaDa restanti i s = s := by
  induction restanti generalizing i with
  | zero => rfl
  | succ restanti ih =>
    rw [rivalutaDa, valuta_smontato (unmounted i), ih]

theorem Driver.rivalutaDa_succ {restanti : Nat} : ∀ (i : Nat) (s : Driver),
      rivalutaDa (restanti + 1) i s =
        (rivalutaDa restanti i s).valuta (i + restanti) := by
  induction restanti with
  | zero =>
    intro i s
    rfl
  | succ restanti ih =>
    intro i s
    rw [rivalutaDa, ih, rivalutaDa, Nat.add_assoc, Nat.add_comm 1 restanti]

include inv

theorem Driver.Coerente.rivaluta
    (closed : ∀ i v, s.mnt i = some v → v.giornale = none) {count : Nat} :
    (∀ i, i < count → (rivalutaDa i 0 s).Intatta i) →
      (rivalutaDa count 0 s).Coerente ∧
        ∀ i, count ≤ i → (rivalutaDa count 0 s).mnt i = s.mnt i := by
  induction count with
  | zero =>
    intro _
    exact ⟨inv, fun _ _ => rfl⟩
  | succ count ih =>
    intro intatta
    obtain ⟨good, untouched⟩ := ih fun i small => intatta i (Nat.lt_succ_of_lt small)
    have still : ∀ v, (rivalutaDa count 0 s).mnt count = some v → v.giornale = none := by
      intro v mounted
      rw [untouched count (Nat.le_refl count)] at mounted
      exact closed count v mounted
    obtain ⟨good', others⟩ := good.valuta still (intatta count (Nat.lt_succ_self count))
    rw [rivalutaDa_succ, Nat.zero_add]
    refine ⟨good', ?_⟩
    intro i larger
    rw [others i (by omega), untouched i (by omega)]

theorem Driver.Coerente.registra (intatta : s.ops = false → ∀ i, i < ext2MaxMount →
      (rivalutaDa i 0 { s with ops := true }).Intatta i) :
    s.registra.Coerente := by
  unfold Driver.registra
  split
  · exact inv
  rename_i off
  have closed : s.ops = false := by simpa using off
  have isOpen : { s with ops := true }.Coerente := { inv with chiusi := by simp }
  exact (isOpen.rivaluta (inv.chiusi closed) (intatta closed)).1

omit inv

/-- What the events of a run have to respect. -/
def Evento.Ammesso (s : Driver) : Evento → Prop
  | .legge _ _ => True
  | .risolve _ _ => True
  | .scrive mnt _ _ _ =>
    s.Freschi ∧ ∀ v k b g, s.mnt mnt = some v → s.ind = some (mnt, k, b) →
      v.giornale = some g → Gio.Libero g k
  | .punta mnt n b ora =>
    s.Freschi ∧ ∀ v, s.mnt mnt = some v → (s.indRiversa mnt v n b ora).1 = true
  | .monta blkdev roChiesto m =>
    s.Freschi ∧ (∀ i v, s.mnt i = some v → v.blkdev ≠ blkdev) ∧
      ∀ slot m', s.libero = some slot → m = some m' →
        (s.montato slot blkdev roChiesto m').Intatta slot
  | .registra =>
    s.ops = false → ∀ i, i < ext2MaxMount → (rivalutaDa i 0 { s with ops := true }).Intatta i

theorem Driver.Coerente.passa (inv : s.Coerente) {e : Evento}
    (ammesso : e.Ammesso s) : (s.passa e).Coerente := by
  cases e with
  | legge mnt programma =>
    cases mounted : s.mnt mnt with
    | none => simpa only [Driver.passa, mounted] using inv
    | some v =>
      simpa only [Driver.passa, mounted] using inv.esegui mounted programma
  | risolve mnt percorso =>
    cases mounted : s.mnt mnt with
    | none => simpa only [Driver.passa, mounted] using inv
    | some v =>
      simpa only [Driver.passa, mounted] using inv.risolvi mounted percorso
  | scrive mnt n src ora =>
    cases mounted : s.mnt mnt with
    | none => simpa only [Driver.passa, mounted] using inv
    | some v =>
      simpa only [Driver.passa, mounted] using inv.scriviBlocco mounted ammesso.1
          (fun k b g cached journal =>
            ammesso.2 v k b g mounted cached journal)
          n src ora
  | punta mnt n b ora =>
    cases mounted : s.mnt mnt with
    | none => simpa only [Driver.passa, mounted] using inv
    | some v =>
      cases cached : s.ind with
      | none => simpa only [Driver.passa, mounted, cached] using inv
      | some block =>
        obtain ⟨altro, numero, b₀⟩ := block
        simp only [Driver.passa, mounted, cached]
        split
        · next here =>
          rw [here.1, here.2] at cached
          exact inv.indRiversa mounted ammesso.1 cached (ammesso.2 v mounted)
        · exact inv
  | monta blkdev roChiesto m =>
    exact inv.mountCome ammesso.1 ammesso.2.1 ammesso.2.2
  | registra => exact inv.registra ammesso

theorem Driver.Vuoto.coerente (vuoto : s.Vuoto) : s.Coerente := by
  have unmounted : ∀ i v, s.mnt i ≠ some v := by
    intro i v mounted
    rw [vuoto.mnt] at mounted
    simp at mounted
  refine ⟨?_, ?_, ?_, ?_, ?_⟩
  · intro i k b cached
    rw [vuoto.ind] at cached
    simp at cached
  · intro e mem viva
    exact absurd (vuoto.ris e mem) viva.1
  · intro i _ v _ mounted
    exact absurd mounted (unmounted i v)
  · intro _ i v mounted
    exact absurd mounted (unmounted i v)
  · intro i v _ mounted
    exact absurd mounted (unmounted i v)

/-- In every state that a run of admitted events reaches, the cache of paths
does not show. -/
theorem risolvi_trasparente (s : Driver) (reached : Reached Driver.Vuoto
      (fun s e s' => s' = s.passa e ∧ Evento.Ammesso s e) s) :
    s.Trasparente := by
  apply Driver.Coerente.trasparente
  apply Reached.invariant Driver.Coerente _ _ reached
  · intro s vuoto
    exact vuoto.coerente
  · intro pre event after coerente step
    rw [step.1]
    exact coerente.passa step.2

/-! ### A volume mounted before the module is there -/

/-- 1000 blocks of 1024 bytes; inodes at block 5, the journal is inode 8. -/
def volumeSporco : Ext2Mount :=
  { Gio.volumeDiProva with
    nInode := 32, inodePerGruppo := 32, incompat := 0x46 }

def superSporco : Buffer :=
  putLe32 (putLe32 (putLe32 (putLe32 (putLe32 (putLe32 (putLe32 (putLe32
    (putLe32 (putLe32 (fun _ => 0) 0 32) 4 1000) 20 1) 32 8192) 40 32)
      56 0xEF53) 76 1) 88 128) 92 compatHasJournal) 96 0x46

/-- The root directory, inode 2, is block 10; the journal's extent is blocks
100 to 163; inode 12 is in the next block. -/
def inodeSporchi : Buffer :=
  let radice := putLe32 (putLe32 (putLe32 (fun _ => 0) 128 0x41ED) 132 1024) 168 10
  let estesa := putLe32 (putLe32 (putLe32 (putLe32 radice 900 65536)
    928 inodeFlExtents) 936 0x1F30A) 940 4
  putLe32 (putLe32 (putLe32 estesa 948 0) 952 64) 956 100

/-- One entry, "a", inode 12, as long as the block. -/
def radiceSporca : Buffer := putLe32 (putLe32 (putLe32 (fun _ => 0) 0 12) 4 0x01010400) 8 97

/-- In the journal there is a transaction that empties block 10. -/
def discoSporco : Disco :=
  Write.applyAll
    [scriviTutto 1 (putLe32 superSporco 0xE0 8),
      scriviTutto 2 (putLe32 (fun _ => 0) 8 5), scriviTutto 5 inodeSporchi,
      scriviTutto 10 radiceSporca, scriviTutto 100 (Gio.conInizio Gio.jsbDiProva 7 1),
      scriviTutto 101 (putBe32 (putBe32 (Gio.intestazione Gio.gioDescrittore 7) 12 10) 16 8),
      scriviTutto 103 (Gio.intestazione Gio.gioCommit 7)]
    fun _ => 0

def spento (d : Disco) : Driver :=
  { dischi := fun _ => d, mnt := fun _ => none, ops := false, ind := none
    ris := List.replicate risVoci { mnt := 0, gen := 0, ino := 0, inode := fun _ => 0, nome := [] }
    prossima := 0, gen := 0 }

theorem spento_vuoto : (spento d).Vuoto := by
  refine ⟨fun _ => rfl, rfl, rfl, ?_⟩
  intro e mem
  rw [eq_of_mem_replicate mem]

/-- The module registered first, then the volume mounted and "/" resolved. -/
def registrato : Driver := (spento discoSporco).passa .registra

def montatoPoi : Driver := registrato.passa (.monta 0 false (some volumeSporco))

theorem registrato_mnt {i : Nat} : registrato.mnt i = none := by
  rfl

theorem risolvi_trasparente_montato : (montatoPoi.passa (.risolve 0 (some [47]))).Trasparente ∧
      ((montatoPoi.passa (.risolve 0 (some [47]))).ris.map VoceRisolvi.ino).head? = some 2 := by
  refine ⟨?_, by decide +kernel⟩
  have fst : Evento.Ammesso (spento discoSporco) .registra := by
    intro _ i _ v mounted
    rw [rivalutaDa_smontato (fun _ => rfl)] at mounted
    simp [spento] at mounted
  have snd : Evento.Ammesso registrato (.monta 0 false (some volumeSporco)) := by
    refine ⟨?_, ?_, ?_⟩
    · intro e mem used
      rw [eq_of_mem_replicate mem] at used
      simp at used
    · intro i v mounted
      rw [registrato_mnt] at mounted
      simp at mounted
    · intro slot m' place isM v mounted
      refine ⟨?_, ?_⟩
      · intro e mem viva
        exact absurd rfl (eq_of_mem_replicate mem ▸ viva.1)
      · intro n b cached
        have isSlot : slot = 0 := by
          have zero : registrato.libero = some 0 := by decide +kernel
          exact Option.some.inj (place.symm.trans zero)
        have empty : ((registrato.montato 0 0 false volumeSporco).valuta 0).ind.isNone := by
          decide +kernel
        rw [isSlot, ← Option.some.inj isM] at cached
        rw [cached] at empty
        simp at empty
  exact risolvi_trasparente _ (.next (.next (.next (.start spento_vuoto) ⟨rfl, fst⟩)
      ⟨rfl, snd⟩) ⟨rfl, trivial⟩)

def risolto : Driver :=
  ((spento discoSporco).passa (.monta 0 false (some volumeSporco))).passa
    (.risolve 0 (some [47, 97]))

/-- The replay takes "/a" away and `risolvi` still finds it. -/
theorem risolvi_dopo_registra : Reached Driver.Vuoto (fun s (e : Evento) s' => s' = s.passa e)
        (risolto.passa .registra) ∧ ¬ (risolto.passa .registra).Trasparente := by
  refine ⟨.next (.next (.next (.start spento_vuoto) rfl) rfl) rfl, ?_⟩
  intro trasparente
  have answers : ((risolto.passa .registra).mnt 0).map (fun v =>
      (((risolto.passa .registra).risolvi 0 v (some [47, 97])).1.map Prod.fst,
        ((risolto.passa .registra).esegui 0 v
          (risolviDalDisco v.m (some [47, 97]))).1.map Prod.fst)) =
        some (some 12, some 0) := by
    decide +kernel
  obtain ⟨v, mounted, both⟩ := Option.map_eq_some_iff.mp answers
  rw [trasparente 0 v mounted, Prod.mk.injEq] at both
  rw [both.2] at both
  simp at both

end ExOs.Fs
