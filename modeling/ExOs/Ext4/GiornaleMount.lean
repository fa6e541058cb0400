import ExOs.Ext4.GiornaleSuper

/-!
# Mounting a journal again

A mount of what a crash left either finds nothing to replay or replays one
transaction, and a crash inside the mount leaves a disk of the same kind.
-/

namespace ExOs.Ext4.Gio

open ExOs.Library ExOs.Library.Buffer ExOs.Fs List Write

variable {m : Ext2Mount} {file : FileGiornale} {g₀ : Giornale} {jsb₀ jsb : Buffer}

/-! ## A journal on a disk at rest -/

/-- What a volume promises about its journal file besides what the checks at
mount ensure: different places, the superblock elsewhere, a first block inside
it. -/
structure Impianto (m : Ext2Mount) (file : FileGiornale) (jsb₀ : Buffer)
    (g₀ : Giornale) : Prop where
  aperto : giornaleApri m file jsb₀ = some g₀
  distinti : Distinti g₀
  primo : g₀.primo < g₀.maxlen
  superFuori : Libero g₀ (superBlocco m)

section Con

-- The passes read of the record only what all records of a journal share.

variable {seq : Nat} {slot : List (Nat × Buffer)} {quale : Passo}

theorem tagDa_con {n : Nat} {b : Buffer} {giri : Nat} :
    ∀ off qui r, tagDa m (con g₀ seq slot jsb) quale n b giri off qui r =
      tagDa m g₀ quale n b giri off qui r := by
  induction giri with
  | zero =>
    intro off qui r
    rfl
  | succ giri ih =>
    intro off qui r
    simp only [tagDa, ih]
    rfl

theorem passo_con {fine giri : Nat} :
    ∀ pos n r, passo m (con g₀ seq slot jsb) quale fine giri pos n r =
      passo m g₀ quale fine giri pos n r := by
  induction giri with
  | zero =>
    intro pos n r
    rfl
  | succ giri ih =>
    intro pos n r
    simp only [passo, ih, tagDa_con]
    rfl

theorem ripristina_con {d : Disco} {inizio n : Nat} :
    ripristina m (con g₀ seq slot jsb) d inizio n = ripristina m g₀ d inizio n := by
  simp only [ripristina, passo_con]
  rfl

end Con

def JsbSu (g₀ : Giornale) (jsb₀ : Buffer) (d : Disco) (seq start : Nat) : Prop :=
  ∃ jsb, gioLeggi g₀ d 0 = some jsb ∧ Stampo g₀ jsb₀ jsb ∧
    be32 jsb 0x18 = seq ∧ be32 jsb 0x1C = start

/-- No journal block is of a transaction after number `seq`, and of that one
there is at most a descriptor in the first place. -/
def Fresco (m : Ext2Mount) (g₀ : Giornale) (d : Disco) (seq : Nat) : Prop :=
  ∀ log b, g₀.primo ≤ log → gioLeggi g₀ d log = some b →
    be32 b 0 = gioMagia →
    be32 b 8 < seq ∨
      be32 b 8 = seq ∧ log = g₀.primo ∧
        ∃ slot, slot ≠ [] ∧ slot.length ≤ g₀.maxSlot ∧ EDescrittore m g₀ seq slot b

/-- The scan from the first block finds nothing committed. -/
def Muto (m : Ext2Mount) (g₀ : Giornale) (d : Disco) (seq : Nat) : Prop :=
  Fresco m g₀ d (seq + 1) ∧ (Estraneo g₀ d g₀.primo seq ∨ Fresco m g₀ d seq)

/-- A block a transaction may hold: outside the journal and, for the one of
the superblock, with `needs_recovery` still set. -/
def Ammissibile (m : Ext2Mount) (g₀ : Giornale) (s : Nat × Buffer) : Prop :=
  FuoriGiornale m g₀ s.1 ∧ (s.1 = superBlocco m → Recover fun pos => s.2 (superInizio m + pos))

/-- Equal outside the journal, up to the mark on the superblock. -/
def Simili (m : Ext2Mount) (g₀ : Giornale) (d c : Disco) : Prop :=
  ∀ n pos, Libero g₀ n → segnato m d (n, pos) = segnato m c (n, pos)

/-- A disk from which a mount comes back to the contents `c`. -/
inductive Riparabile (m : Ext2Mount) (g₀ : Giornale) (jsb₀ : Buffer) (d c : Disco) : Prop where
  | vuoto (seq : Nat) :
      JsbSu g₀ jsb₀ d seq 0 → Fresco m g₀ d seq → Simili m g₀ d c →
      Riparabile m g₀ jsb₀ d c
  | muto (seq : Nat) :
      JsbSu g₀ jsb₀ d seq g₀.primo → Muto m g₀ d seq → Simili m g₀ d c →
      Riparabile m g₀ jsb₀ d c
  | pieno (seq : Nat) (slot : List (Nat × Buffer)) :
      JsbSu g₀ jsb₀ d seq g₀.primo →
      Transazione m g₀ d g₀.primo seq slot →
      slot ≠ [] → slot.length ≤ g₀.maxSlot →
      (∀ s ∈ slot, Ammissibile m g₀ s) →
      Fresco m g₀ d (seq + 1) →
      Simili m g₀ (applyAll (slot.map posto) d) c →
      Riparabile m g₀ jsb₀ d c

variable {seq log : Nat} {d' : Disco} {v : Nat × Buffer} {kept : List Scrittura}
  {slot : List (Nat × Buffer)} {start : Nat}

theorem Fresco.succ {d : Disco} (fresco : Fresco m g₀ d seq) : Fresco m g₀ d (seq + 1) := by
  intro log b lower read magic
  rcases fresco log b lower read magic with older | ⟨same, _⟩
  · exact .inl (by omega)
  · exact .inl (by omega)

theorem Fresco.congr {d : Disco} (fresco : Fresco m g₀ d seq)
    (agree : ∀ log, g₀.primo ≤ log → gioLeggi g₀ d' log = gioLeggi g₀ d log) :
    Fresco m g₀ d' seq := by
  intro log b lower read magic
  rw [agree log lower] at read
  exact fresco log b lower read magic

theorem Simili.refl (d : Disco) : Simili m g₀ d d := by
  intro n pos _
  rfl

theorem Simili.segnato {d c : Disco} (simili : Simili m g₀ d c) : Simili m g₀ (segnato m d) c := by
  intro n pos free
  rw [segnato_segnato]
  exact simili n pos free

theorem gioLeggi_eq (geo : Geometria m file g₀) (short : log < g₀.maxlen) (d : Disco) :
    gioLeggi g₀ d log = some (blocco d (fisico g₀ log)) := by
  unfold gioLeggi
  rw [if_neg]
  rw [geo.dentro log short]
  exact geo.mappati log short

theorem gioLeggi_scritto (geo : Geometria m file g₀) (short : v.1 < g₀.maxlen) (d : Disco) :
    gioLeggi g₀ ((scritturaLog g₀ v).apply d) v.1 = some (sommato g₀ v.1 v.2) := by
  rw [gioLeggi_eq geo short]
  unfold scritturaLog
  rw [blocco_scriviTutto]

theorem gioLeggi_fuori {ws : List Scrittura} (out : ∀ w ∈ ws, ∀ log, fisico g₀ log ≠ 0 →
      ∀ pos, w (fisico g₀ log, pos) = none) {d : Disco} :
    gioLeggi g₀ (applyAll ws d) log = gioLeggi g₀ d log := by
  apply gioLeggi_congr
  intro mapped
  exact blocco_applyAll_of_untouched (fun w mem => out w mem log mapped)

theorem Fresco.estraneo (geo : Geometria m file g₀) {d : Disco}
    {numero : Nat} (fresco : Fresco m g₀ d seq) (after : g₀.primo < log)
    (short : log < g₀.maxlen) (later : seq ≤ numero) :
    Estraneo g₀ d log numero := by
  have read := gioLeggi_eq geo short d
  refine ⟨_, read, ?_⟩
  by_cases magic : be32 (blocco d (fisico g₀ log)) 0 = gioMagia
  · rcases fresco log _ (by omega) read magic with older | ⟨_, isFirst, _⟩
    · omega
    · omega
  · exact .inl magic

theorem gioLeggi_posti (out : ∀ s ∈ slot, Ammissibile m g₀ s)
    (given : ∀ w ∈ kept, w ∈ slot.map posto) (d : Disco) (log : Nat) :
    gioLeggi g₀ (applyAll kept d) log = gioLeggi g₀ d log := by
  apply gioLeggi_fuori
  intro w mem other mapped
  obtain ⟨s, sMember, shape⟩ := mem_map.mp (given w mem)
  rw [← shape]
  exact posto_untouched ((out s sMember).1.2 other mapped)

theorem Ammissibile.recover {s : Nat × Buffer} (ammissibile : Ammissibile m g₀ s) {d : Disco}
    (recover : Recover (superblocco m d)) :
    Recover (superblocco m ((posto s).apply d)) := by
  by_cases isSuper : s.1 = superBlocco m
  · have written : superblocco m ((posto s).apply d) = fun pos => s.2 (superInizio m + pos) := by
      rw [superblocco_eq]
      funext pos
      unfold apply posto
      rw [if_pos]
      · rfl
      · refine ⟨isSuper.symm, ?_⟩
        intro zero
        rw [isSuper] at zero
        unfold superBlocco at zero
        unfold superInizio
        split
        · next small => simp [small] at zero
        · exact Nat.le_add_right ..
    rw [written]
    exact ammissibile.2 isSuper
  · have kept : superblocco m ((posto s).apply d) = superblocco m d := by
      rw [superblocco_eq, superblocco_eq]
      funext pos
      exact apply_outside (posto_untouched (fun same => isSuper same.symm) _)
    rw [kept]
    exact recover

theorem recover_posti (out : ∀ s ∈ slot, Ammissibile m g₀ s) :
    ∀ {d : Disco}, (∀ w ∈ kept, w ∈ slot.map posto) → Recover (superblocco m d) →
      Recover (superblocco m (applyAll kept d)) := by
  induction kept with
  | nil =>
    intro d _ recover
    exact recover
  | cons w kept ih =>
    intro d given recover
    obtain ⟨s, mem, shape⟩ := mem_map.mp (given w mem_cons_self)
    rw [← shape]
    exact ih (fun other later => given other (mem_cons_of_mem w later))
      ((out s mem).recover recover)

theorem JsbSu.congr {d : Disco} (jsbSu : JsbSu g₀ jsb₀ d seq start)
    (agree : gioLeggi g₀ d' 0 = gioLeggi g₀ d 0) :
    JsbSu g₀ jsb₀ d' seq start := by
  obtain ⟨jsb, read, fields⟩ := jsbSu
  exact ⟨jsb, agree.trans read, fields⟩

theorem JsbSu.conInizio {d : Disco}
    (read : gioLeggi g₀ d 0 = some (sommato g₀ 0 (conInizio jsb seq start)))
    (stampo : Stampo g₀ jsb₀ jsb) (word : seq < 2 ^ 32) (small : start < 2 ^ 32) :
    JsbSu g₀ jsb₀ d seq start := by
  have fields := sommato_conInizio_fields g₀ jsb seq start
  rw [Nat.mod_eq_of_lt word, Nat.mod_eq_of_lt small] at fields
  exact ⟨_, read, stampo.conInizio seq start, fields⟩

theorem Copie.congr_letti {d : Disco} :
    ∀ {log : Nat}, Copie g₀ d slot log → (∀ log, gioLeggi g₀ d' log = gioLeggi g₀ d log) →
      Copie g₀ d' slot log := by
  induction slot with
  | nil =>
    intro log _ _
    trivial
  | cons s resto ih =>
    intro log copie agree
    exact ⟨(agree log).trans copie.1, ih copie.2 agree⟩

theorem Transazione.congr {d : Disco} {pos : Nat} (transazione : Transazione m g₀ d pos seq slot)
    (agree : ∀ log, gioLeggi g₀ d' log = gioLeggi g₀ d log) :
    Transazione m g₀ d' pos seq slot := by
  obtain ⟨⟨b, read, descritta⟩, copiata, c, closing, chiusa⟩ := transazione
  exact ⟨⟨b, (agree pos).trans read, descritta⟩, copiata.congr_letti agree,
    c, (agree _).trans closing, chiusa⟩

/-- A disk that a crash may leave: the volume is marked and a mount comes back
to the contents `c`. -/
def Salvo (m : Ext2Mount) (g₀ : Giornale) (jsb₀ : Buffer) (c d : Disco) : Prop :=
  Recover (superblocco m d) ∧ Riparabile m g₀ jsb₀ d c

/-- Some blocks of a whole transaction put in their places: the replay is
still to be done, and does the same. -/
theorem Salvo.posti {d c : Disco} (recover : Recover (superblocco m d))
    (jsbSu : JsbSu g₀ jsb₀ d seq g₀.primo)
    (transazione : Transazione m g₀ d g₀.primo seq slot) (ne : slot ≠ [])
    (fits : slot.length ≤ g₀.maxSlot) (out : ∀ s ∈ slot, Ammissibile m g₀ s)
    (fresco : Fresco m g₀ d (seq + 1)) (simili : Simili m g₀ (applyAll (slot.map posto) d) c)
    (given : ∀ w ∈ kept, w ∈ slot.map posto) :
    Salvo m g₀ jsb₀ c (applyAll kept d) := by
  have agree := gioLeggi_posti out given d
  refine ⟨recover_posti out given recover, ?_⟩
  apply Riparabile.pieno seq slot (jsbSu.congr (agree 0))
    (transazione.congr agree) ne fits out
    (fresco.congr fun log _ => agree log)
  rw [applyAll_again given]
  exact simili

/-- The commands with which `giornale_monta` leaves an empty journal. -/
def chiude (m : Ext2Mount) (g₀ : Giornale) (jsb : Buffer) (next : Nat) (d : Disco) : List Comando :=
  ([(0, conInizio jsb next 0)].map fun v => .write (scritturaLog g₀ v)) ++
    [.flush] ++
    (([(scritturaLog g₀ (0, conInizio jsb next 0)).apply d].map
      fun d => .write (segnaRecover m d)) ++ [.flush])

theorem giornaleVuoto_con (geo : Geometria m file g₀) (next : Nat) (d : Disco) :
    giornaleVuoto m (con g₀ next [] jsb) d = (chiude m g₀ jsb next d,
        some (con g₀ next [] (sommato g₀ 0 (conInizio jsb next 0)))) := by
  have short : 0 < g₀.maxlen := by
    have slots := geo.posti
    have enough := geo.abbastanza
    have order := geo.ordine
    omega
  have written : gioScrivi (con g₀ next [] jsb) 0 (conInizio jsb next 0) =
      some (scritturaLog g₀ (0, conInizio jsb next 0)) :=
    gioScrivi_eq geo short (conInizio jsb next 0)
  unfold giornaleVuoto
  dsimp only [con] at written ⊢
  rw [written]
  rfl

/-- What a mount does: blocks `ws` put in their places, then an empty journal
with number `next`. -/
structure Montaggio (m : Ext2Mount) (file : FileGiornale) (g₀ : Giornale)
    (jsb₀ : Buffer) (c d : Disco) (jsb : Buffer) (ws : List Scrittura) (next : Nat) : Prop where
  stampo : Stampo g₀ jsb₀ jsb
  parola : next < 2 ^ 32
  esito : rimonta m file d =
    (ws.map .write ++ (if ws = [] then [] else [.flush]) ++
        chiude m g₀ jsb next (applyAll ws d),
      some (con g₀ next [] (sommato g₀ 0 (conInizio jsb next 0))))
  fresco : Fresco m g₀ (applyAll ws d) next
  simili : Simili m g₀ (applyAll ws d) c
  salvo : ∀ kept, (∀ w ∈ kept, w ∈ ws) → Salvo m g₀ jsb₀ c (applyAll kept d)

/-- A disk with an empty journal. -/
structure Fermo (m : Ext2Mount) (g₀ : Giornale) (jsb₀ : Buffer) (c : Disco)
    (seq : Nat) (d : Disco) : Prop where
  jsbSu : JsbSu g₀ jsb₀ d seq 0
  fresco : Fresco m g₀ d seq
  recover : Recover (superblocco m d)
  simili : Simili m g₀ d c

variable {c d : Disco} {next : Nat}

theorem Fermo.salvo (fermo : Fermo m g₀ jsb₀ c next d) : Salvo m g₀ jsb₀ c d :=
  ⟨fermo.recover, .vuoto next fermo.jsbSu fermo.fresco fermo.simili⟩

theorem scritturaLog_libero (geo : Geometria m file g₀) (short : v.1 < g₀.maxlen)
    (d : Disco) {n : Nat} (free : Libero g₀ n) (pos : Nat) :
    (scritturaLog g₀ v).apply d (n, pos) = d (n, pos) := by
  apply apply_outside
  apply scriviTutto_untouched
  intro same
  apply free v.1 _ same.symm
  rw [geo.dentro v.1 short]
  exact geo.mappati v.1 short

theorem superblocco_congr (agree : ∀ pos, d' (superBlocco m, pos) = d (superBlocco m, pos)) :
    superblocco m d' = superblocco m d := by
  rw [superblocco_eq, superblocco_eq]
  funext pos
  exact agree (superInizio m + pos)

theorem run_ripristino (ws : List Scrittura) : Cached.run { stable := d, pending := [] }
        (ws.map .write ++ if ws = [] then [] else [.flush]) =
      { stable := applyAll ws d, pending := [] } := by
  split
  · next nothing =>
    rw [nothing]
    rfl
  · have epoch := Cached.run_epoch { stable := d, pending := [] } id ws
    rw [map_id] at epoch
    exact epoch

theorem run_chiude {x : Disco} {disk : Cached (Nat × Nat) UInt8} :
    disk.run (chiude m g₀ jsb next x) =
      { stable := (segnaRecover m ((scritturaLog g₀ (0, conInizio jsb next 0)).apply x)).apply
            ((scritturaLog g₀ (0, conInizio jsb next 0)).apply disk.view)
        pending := [] } := by
  unfold chiude
  rw [Cached.run_append, Cached.run_epoch disk, applyAll_append]
  rfl

variable {guard : Cached (Nat × Nat) UInt8 → List Scrittura → Prop} {ws : List Scrittura}

section

variable (imp : Impianto m file jsb₀ g₀)

include imp

theorem Simili.of_uguali (agree : ∀ n pos, Libero g₀ n → d' (n, pos) = d (n, pos))
    (simili : Simili m g₀ d c) : Simili m g₀ d' c := by
  intro n pos free
  rw [← simili n pos free]
  by_cases isSuper : n = superBlocco m
  · rw [isSuper]
    exact segnato_congr (fun pos => agree _ pos imp.superFuori)
  · rw [segnato_outside _ isSuper, segnato_outside _ isSuper]
    exact agree n pos free

/-! ## Reading the journal -/

theorem Impianto.geometria : Geometria m file g₀ := giornaleApri_geometria imp.aperto

theorem Impianto.room : 0 < g₀.primo ∧ g₀.primo + g₀.maxSlot + 2 ≤ g₀.maxlen ∧ 40 ≤ g₀.maxSlot := by
  have pos := imp.geometria.positivo
  exact ⟨by omega, imp.geometria.room imp.primo, imp.geometria.abbastanza⟩

theorem gioLeggi_altro (short : v.1 < g₀.maxlen) (other : log ≠ v.1) :
    gioLeggi g₀ ((scritturaLog g₀ v).apply d) log = gioLeggi g₀ d log := by
  apply gioLeggi_congr
  intro mapped
  apply blocco_apply_of_untouched
  apply scriviTutto_untouched
  by_cases lt : log < g₀.maxlen
  · intro same
    exact other (imp.distinti log v.1 lt short same)
  · exact absurd (imp.geometria.fuori log (by omega)) mapped

theorem Impianto.segnato_leggi : gioLeggi g₀ (segnato m d) log = gioLeggi g₀ d log := by
  apply gioLeggi_congr
  intro mapped
  funext pos
  exact segnato_outside d (imp.superFuori log mapped)

theorem Muto.ripristina (muto : Muto m g₀ d seq) : ripristina m g₀ d g₀.primo seq =
      .ok (seq, { disco := d, traccia := [], revoche := [], pieno := false }) := by
  obtain ⟨_, room, _⟩ := imp.room
  obtain ⟨giri, rounds⟩ := Nat.exists_eq_add_of_le' (show 2 ≤ g₀.maxlen by omega)
  have scan : passo m g₀ .scan seq g₀.maxlen g₀.primo seq
      { disco := d, traccia := [], revoche := [], pieno := false } = .ok (seq,
          { disco := d, traccia := [], revoche := [], pieno := false }) := by
    rw [rounds]
    rcases muto.2 with ⟨b, read, other⟩ | fresco
    · exact passo_ferma read other
    have read := gioLeggi_eq imp.geometria imp.primo d
    by_cases header : be32 (blocco d (fisico g₀ g₀.primo)) 0 = gioMagia ∧
        be32 (blocco d (fisico g₀ g₀.primo)) 8 = seq
    · rcases fresco g₀.primo _ (Nat.le_refl _) read header.1 with
        older | ⟨_, _, slot, ne, fits, descrittore⟩
      · omega
      · have place : ultimaCopia g₀ slot (avanti g₀ g₀.primo) = g₀.primo + 1 + slot.length := by
          rw [avanti_eq (by omega), ultimaCopia_eq (by omega)]
        obtain ⟨b, next, other⟩ := fresco.estraneo imp.geometria
          (show g₀.primo < g₀.primo + 1 + slot.length by omega) (by omega)
          (Nat.le_refl seq)
        rw [passo_descrittore (by simp) read descrittore
          (descrittore.tag.conta imp.geometria (by simp) ne
            (descrittore.tag.rounds imp.geometria)), place]
        exact passo_ferma next other
    · apply passo_ferma read
      by_cases magic : be32 (blocco d (fisico g₀ g₀.primo)) 0 = gioMagia
      · exact .inr fun same => header ⟨magic, same⟩
      · exact .inl magic
  unfold Gio.ripristina
  dsimp only
  rw [scan]
  dsimp only
  rw [if_pos rfl]

theorem Transazione.dopo (transazione : Transazione m g₀ d g₀.primo seq slot)
    (fits : slot.length ≤ g₀.maxSlot) (word : seq + 1 < 2 ^ 32) (fresco : Fresco m g₀ d (seq + 1)) :
    Estraneo g₀ d (avanti g₀ (ultimaCopia g₀ slot (avanti g₀ g₀.primo))) ((seq + 1) % 2 ^ 32) := by
  obtain ⟨pos, room, _⟩ := imp.room
  have firstCopy : avanti g₀ g₀.primo = g₀.primo + 1 := avanti_eq (by omega)
  rw [Nat.mod_eq_of_lt word, firstCopy, ultimaCopia_eq (by omega)]
  by_cases full : g₀.primo + 1 + slot.length + 1 < g₀.maxlen
  · rw [avanti_eq full]
    exact fresco.estraneo imp.geometria (by omega) full (Nat.le_refl _)
  have wraps : avanti g₀ (g₀.primo + 1 + slot.length) = g₀.primo := by
    unfold avanti
    rw [if_pos (by omega)]
  obtain ⟨b, read, descrittore⟩ := transazione.descritta
  rw [wraps]
  refine ⟨b, read, .inr ?_⟩
  rw [descrittore.numero]
  omega

theorem rimonta_eq
    (recover : Recover (superblocco m d))
    (read : gioLeggi g₀ d 0 = some jsb) (stampo : Stampo g₀ jsb₀ jsb) :
    rimonta m file d = if be32 jsb 0x1C = 0 then giornaleVuoto m (con g₀ (be32 jsb 0x18) [] jsb) d
      else if be32 jsb 0x1C < g₀.primo ∨ g₀.maxlen ≤ be32 jsb 0x1C then ([], none)
      else
        match ripristina m g₀ d (be32 jsb 0x1C) (be32 jsb 0x18) with
        | .error r => (r.traccia.map .write, none)
        | .ok (fine, r) =>
          let resto := giornaleVuoto m (con g₀ ((fine + 1) % 2 ^ 32) [] jsb) r.disco
          (r.traccia.map .write ++ (if fine = be32 jsb 0x18 then [] else [.flush]) ++ resto.1,
            resto.2) := by
  obtain ⟨pos, room, _⟩ := imp.room
  have mapped := imp.geometria.mappati 0 (by omega)
  have place := imp.geometria.dentro 0 (by omega)
  have isJsb : blocco d (file.mappa 0) = jsb := by
    rw [gioLeggi_eq imp.geometria (by omega), place] at read
    exact Option.some.inj read
  unfold rimonta giornaleMonta
  rw [if_neg mapped, isJsb, giornaleApri_stampo imp.aperto stampo]
  dsimp only
  rw [ripristina_con]
  by_cases empty : be32 jsb 0x1C = 0
  · rw [if_pos empty, if_neg]
    intro both
    exact both.2 empty
  · rw [if_neg empty, if_pos ⟨bne_iff_ne.mpr recover, empty⟩]
    rfl

theorem Salvo.monta (salvo : Salvo m g₀ jsb₀ c d)
    (word : be32 (blocco d (fisico g₀ 0)) 0x18 + 2 < 2 ^ 32) :
    ∃ jsb ws next, Montaggio m file g₀ jsb₀ c d jsb ws next := by
  obtain ⟨pos, room, _⟩ := imp.room
  have place := gioLeggi_eq imp.geometria (show 0 < g₀.maxlen by omega) d
  have nz : g₀.primo ≠ 0 := by omega
  have noWrites : ∀ kept : List Scrittura, (∀ w ∈ kept, w ∈ []) →
      Salvo m g₀ jsb₀ c (applyAll kept d) := by
    intro kept given
    rw [eq_nil_iff_forall_not_mem.mpr fun w mem =>
      not_mem_nil (given w mem)]
    exact salvo
  obtain ⟨recover, riparabile⟩ := salvo
  cases riparabile with
  | vuoto seq jsbSu fresco simili =>
    obtain ⟨jsb, read, stampo, number, start⟩ := jsbSu
    have isJsb := Option.some.inj (place.symm.trans read)
    rw [isJsb] at word
    refine ⟨jsb, [], seq, stampo, by omega, ?_, fresco, simili, noWrites⟩
    rw [rimonta_eq imp recover read stampo, if_pos start, number, giornaleVuoto_con imp.geometria]
    rfl
  | muto seq jsbSu muto simili =>
    obtain ⟨jsb, read, stampo, number, start⟩ := jsbSu
    have isJsb := Option.some.inj (place.symm.trans read)
    rw [isJsb] at word
    refine ⟨jsb, [], seq + 1, stampo, by omega, ?_, muto.1, simili, noWrites⟩
    rw [rimonta_eq imp recover read stampo, start, if_neg nz,
      if_neg (by omega), number, muto.ripristina imp]
    dsimp only
    rw [Nat.mod_eq_of_lt (show seq + 1 < 2 ^ 32 by omega),
      giornaleVuoto_con imp.geometria, if_pos rfl]
    rfl
  | pieno seq slot jsbSu transazione ne fits out fresco simili =>
    obtain ⟨jsb, read, stampo, number, start⟩ := jsbSu
    have isJsb := Option.some.inj (place.symm.trans read)
    rw [isJsb] at word
    have next : (seq + 1) % 2 ^ 32 = seq + 1 := Nat.mod_eq_of_lt (by omega)
    have ended := transazione.dopo imp fits (by omega) fresco
    have written : slot.map posto ≠ [] := by simpa using ne
    refine ⟨jsb, slot.map posto, seq + 2, stampo, by omega, ?_, ?_, simili, ?_⟩
    · rw [rimonta_eq imp recover read stampo, start, if_neg nz, if_neg (by omega), number,
        (transazione.ripristina imp.geometria ne (fun s mem => (out s mem).1) (by omega) ended).2]
      dsimp only
      rw [next, Nat.mod_eq_of_lt (show seq + 1 + 1 < 2 ^ 32 by omega),
        giornaleVuoto_con imp.geometria, if_neg (by omega),
        if_neg written]
      rfl
    · exact (fresco.congr fun log _ =>
        gioLeggi_posti out (fun w mem => mem) d log).succ
    · intro kept given
      exact Salvo.posti recover ⟨jsb, read, stampo, number, start⟩ transazione
        ne fits out fresco simili given

/-! ## Crashes inside a mount -/

theorem Fermo.of_scritto (stampo : Stampo g₀ jsb₀ jsb) (word : next < 2 ^ 32)
    (fresco : Fresco m g₀ d next) (recover : Recover (superblocco m d)) (simili : Simili m g₀ d c) :
    Fermo m g₀ jsb₀ c next ((scritturaLog g₀ (0, conInizio jsb next 0)).apply d) := by
  obtain ⟨positive, room, _⟩ := imp.room
  have short : 0 < g₀.maxlen := by omega
  have free {n : Nat} := scritturaLog_libero imp.geometria (n := n)
    (v := (0, conInizio jsb next 0)) short d
  refine ⟨.conInizio (gioLeggi_scritto imp.geometria short d) stampo word (by decide), ?_, ?_, ?_⟩
  · apply fresco.congr
    intro log lower
    exact gioLeggi_altro imp short (by omega)
  · rw [superblocco_congr fun pos => free imp.superFuori pos]
    exact recover
  · exact simili.of_uguali imp fun n pos out => free out pos

theorem Fermo.segnato (fermo : Fermo m g₀ jsb₀ c next d) : Fermo m g₀ jsb₀ c next (segnato m d) :=
  ⟨fermo.jsbSu.congr imp.segnato_leggi, fermo.fresco.congr fun _ _ => imp.segnato_leggi,
    recover_segnaRecover d d, fermo.simili.segnato⟩

theorem chiude_sicura (stampo : Stampo g₀ jsb₀ jsb) (word : next < 2 ^ 32)
    (fresco : Fresco m g₀ d next) (simili : Simili m g₀ d c) (salvo : Salvo m g₀ jsb₀ c d) :
    Cached.CrashSafe guard (Salvo m g₀ jsb₀ c) { stable := d, pending := [] }
      (chiude m g₀ jsb next d) := by
  have fermo := Fermo.of_scritto imp stampo word fresco salvo.1 simili
  apply Cached.CrashSafe.append
  · apply Cached.CrashSafe.freshEpoch
    intro kept sublist
    rcases sublist_singleton.mp sublist with nothing | whole
    · rw [nothing]
      exact salvo
    · rw [whole]
      exact fermo.salvo
  · apply Cached.CrashSafe.freshEpoch
    intro kept sublist
    rcases sublist_singleton.mp sublist with nothing | whole
    · rw [nothing]
      exact fermo.salvo
    · rw [whole]
      exact (fermo.segnato imp).salvo

variable (montaggio : Montaggio m file g₀ jsb₀ c d jsb ws next)

include montaggio

theorem Montaggio.sicuro : Cached.CrashSafe guard (Salvo m g₀ jsb₀ c) { stable := d, pending := [] }
      (rimonta m file d).1 := by
  rw [montaggio.esito]
  apply Cached.CrashSafe.append
  · by_cases nothing : ws = []
    · intro count kept sublist _
      rw [nothing] at sublist ⊢
      simp only [map_nil, if_true, append_nil, take_nil, Cached.run_nil] at sublist ⊢
      rw [sublist_nil.mp sublist]
      exact montaggio.salvo [] (by simp)
    · rw [if_neg nothing]
      have given : ∀ kept, kept.Sublist (ws.map id) →
          Salvo m g₀ jsb₀ c (applyAll kept d) := by
        intro kept sublist
        rw [map_id] at sublist
        exact montaggio.salvo kept fun w mem => sublist.subset mem
      exact Cached.CrashSafe.freshEpoch given
  · rw [run_ripristino]
    exact chiude_sicura imp montaggio.stampo montaggio.parola montaggio.fresco montaggio.simili
      (montaggio.salvo ws fun w mem => mem)

theorem Montaggio.fine : ∃ d', Cached.run { stable := d, pending := [] } (rimonta m file d).1 =
        { stable := d', pending := [] } ∧
      Fermo m g₀ jsb₀ c next d' ∧
      ∀ n pos, Libero g₀ n → d' (n, pos) = segnato m c (n, pos) := by
  have fermo := Fermo.of_scritto imp montaggio.stampo montaggio.parola
    montaggio.fresco (montaggio.salvo ws fun w mem => mem).1
    montaggio.simili
  refine ⟨_, ?_, fermo.segnato imp, ?_⟩
  · rw [montaggio.esito]
    rw [Cached.run_append, run_ripristino]
    rfl
  · intro n pos free
    exact fermo.simili n pos free

end

theorem giornaleMonta_some {recover : Bool} {comandi : List Comando} {g : Giornale}
    (found : giornaleMonta m recover file d = (comandi, some g)) :
    ∃ g₀ jsb next prima x, giornaleApri m file jsb = some g₀ ∧
      next < 2 ^ 32 ∧ comandi = prima ++ chiude m g₀ jsb next x ∧
      g = con g₀ next [] (sommato g₀ 0 (conInizio jsb next 0)) := by
  unfold giornaleMonta at found
  split at found
  · simp at found
  · cases aperto : giornaleApri m file (blocco d (file.mappa 0)) with
    | none =>
      rw [aperto] at found
      simp at found
    | some g₀ =>
      have shape := giornaleApri_con aperto
      have geo := giornaleApri_geometria aperto
      rw [aperto] at found
      dsimp only at found
      split at found
      · split at found
        · simp at found
        · cases replayed : ripristina m g₀ d (be32 g₀.jsb 0x1C) g₀.seq with
          | error r =>
            rw [replayed] at found
            simp at found
          | ok esito =>
            obtain ⟨fine, r⟩ := esito
            have record : { g₀ with seq := (fine + 1) % 2 ^ 32 } =
                con g₀ ((fine + 1) % 2 ^ 32) [] (blocco d (file.mappa 0)) := by
              rw [shape]
              rfl
            rw [replayed] at found
            dsimp only at found
            rw [record, giornaleVuoto_con geo] at found
            obtain ⟨isCommands, isRecord⟩ := Prod.mk.inj found
            exact ⟨g₀, _, _, _, r.disco, aperto, Nat.mod_lt _ (Nat.two_pow_pos 32), isCommands.symm,
              (Option.some.inj isRecord).symm⟩
      · rw [shape, giornaleVuoto_con geo] at found
        obtain ⟨isCommands, isRecord⟩ := Prod.mk.inj found
        exact ⟨g₀, _, _, [], d, aperto, be32_lt .., isCommands.symm,
          (Option.some.inj isRecord).symm⟩

end ExOs.Ext4.Gio
