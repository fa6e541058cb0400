import ExOs.Ipc.PtyRuns

/-!
# The output of a terminal

With the echo off only the writes of the slave fill the ring towards the
master.
-/

namespace ExOs.Ipc

open ExOs.Library List

namespace Anello

variable {a : Anello} {c : UInt8}

theorem contenuto_metti (room : a.quanti < ptyDim) :
    (a.metti c).contenuto = a.contenuto ++ [c] := by
  rw [metti, if_neg (Nat.not_le_of_lt room)]
  exact ring_push room

theorem quanti_metti_room (room : a.quanti < ptyDim) (c : UInt8) :
    (a.metti c).quanti = a.quanti + 1 := by
  rw [metti, if_neg (Nat.not_le_of_lt room)]

theorem metti_entro (bounded : a.quanti ≤ ptyDim) : (a.metti c).quanti ≤ ptyDim := by
  rw [metti]
  split
  · exact bounded
  · next room => exact Nat.lt_of_not_le room

theorem contenuto_prendi {n : Nat} : (a.prendi n).2 ++ (a.prendi n).1.contenuto = a.contenuto :=
  ring_take_append (Nat.min_le_right n a.quanti)

end Anello

/-- The bytes that a byte becomes on its way to the master. -/
def espandi (onlcr : Bool) (c : UInt8) : List UInt8 := if c = 10 ∧ onlcr then [13, 10] else [c]

namespace Pty

variable {dati : List UInt8} {lato : LatoPty}

theorem versa_contenuto {onlcr : Bool} : ∀ a : Anello, a.quanti ≤ ptyDim →
      ∃ presi, dati = presi ++ (versa onlcr a dati).2 ∧
        (versa onlcr a dati).1.contenuto = a.contenuto ++ presi.flatMap (espandi onlcr) ∧
        (versa onlcr a dati).1.quanti ≤ ptyDim := by
  induction dati with
  | nil => exact fun a bounded => ⟨[], rfl, (append_nil _).symm, bounded⟩
  | cons c dati ih =>
    intro a bounded
    have stops : ∃ presi, c :: dati = presi ++ (a, c :: dati).2 ∧
        (a, c :: dati).1.contenuto = a.contenuto ++ presi.flatMap (espandi onlcr) ∧
        (a, c :: dati).1.quanti ≤ ptyDim :=
      ⟨[], rfl, (append_nil _).symm, bounded⟩
    rw [versa]
    split
    · exact stops
    rename_i notFull
    have room : a.quanti < ptyDim := Nat.lt_of_not_le notFull
    split
    · next newline =>
      split
      · exact stops
      rename_i loose
      have more : (a.metti 13).quanti < ptyDim := by
        rw [Anello.quanti_metti_room room]
        rw [ptyDim] at loose ⊢
        omega
      obtain ⟨presi, isDati, isContenuto, fits⟩ := ih ((a.metti 13).metti c)
          (Anello.metti_entro (Nat.le_of_lt more))
      refine ⟨c :: presi, by rw [cons_append, ← isDati], ?_, fits⟩
      rw [isContenuto, Anello.contenuto_metti more, Anello.contenuto_metti room,
        flatMap_cons, espandi, if_pos newline, newline.1, append_assoc, append_assoc]
      rfl
    · next plain =>
      obtain ⟨presi, isDati, isContenuto, fits⟩ := ih (a.metti c) (Anello.metti_entro bounded)
      refine ⟨c :: presi, by rw [cons_append, ← isDati], ?_, fits⟩
      rw [isContenuto, Anello.contenuto_metti room, flatMap_cons, espandi,
        if_neg plain, append_assoc]

/-! ## Without the echo -/

/-- A section that leaves the ring towards the master and the modes alone. -/
def Zitta (p p' : Pty) : Prop := p'.uscita = p.uscita ∧ p'.t = p.t

variable {p p' : Pty}

theorem Zitta.eco (pre : Zitta p p') (mute : p.t.echo = false) (c : UInt8) :
    Zitta p (p'.eco c) := by
  rw [Pty.eco, pre.2, if_neg (by simp [mute])]
  exact pre

theorem Zitta.stabile (mute : p.t.echo = false) : Stabile fun p' _ => Zitta p p' where
  eco := fun pre => pre.eco mute
  riga := fun pre _ => pre
  metti := fun pre _ => pre
  svuota := fun pre => pre
  fine := fun pre => pre

theorem conAtt_byte {a : Attese} :
    (p.conAtt lato a).uscita = p.uscita ∧ (p.conAtt lato a).ingresso = p.ingresso ∧
      (p.conAtt lato a).riga = p.riga ∧ (p.conAtt lato a).usata = p.usata := by
  cases lato <;> exact ⟨rfl, rfl, rfl, rfl⟩

theorem aspetta_byte (p : Pty) (lato : LatoPty) (pid : Nat) (svegliati : List Nat)
    (io : ChiamataPty) {u : Turno} (isTurno : u = p.aspetta lato pid svegliati io) :
    u.pty.uscita = p.uscita ∧ u.pty.ingresso = p.ingresso ∧ u.pty.riga = p.riga ∧
      u.pty.usata = p.usata ∧ u.chiamata = io ∧ ∀ r, u.esito ≠ .torna r := by
  rw [isTurno, aspetta]
  split
  · obtain ⟨sameOut, sameIn, sameLine, sameUse⟩ := conAtt_byte
    exact ⟨sameOut, sameIn, sameLine, sameUse, rfl, fun r => by simp⟩
  · exact ⟨rfl, rfl, rfl, rfl, rfl, fun r => by simp⟩

theorem svegliaSe_byte {quando : Bool} {e : Effetto} :
    (svegliaSe quando lato e).pty.uscita = e.pty.uscita ∧
      (svegliaSe quando lato e).pty.ingresso = e.pty.ingresso ∧
      (svegliaSe quando lato e).pty.riga = e.pty.riga ∧
      (svegliaSe quando lato e).pty.usata = e.pty.usata := by
  rw [svegliaSe]
  split
  · exact conAtt_byte
  · exact ⟨rfl, rfl, rfl, rfl⟩

theorem scriviMaster_uscita (mute : p.t.echo = false) :
    (p.scriviMaster dati).pty.uscita = p.uscita := by
  rw [scriviMaster, svegliaSe_byte.1, svegliaSe_byte.1]
  exact ((Zitta.stabile mute).batti dati ⟨p, [], []⟩ ⟨rfl, rfl⟩).1

theorem scriviMaster_usata : (p.scriviMaster dati).pty.usata = p.usata := by
  rw [scriviMaster, svegliaSe_byte.2.2.2, svegliaSe_byte.2.2.2]
  exact ((Battuta.stabile p).batti dati ⟨p, [], []⟩ (Battuta.refl p [])).usata

theorem tcsets_uscita {t : PtyTermios} :
    (p.tcsets t).pty.uscita = p.uscita ∧ (p.tcsets t).pty.usata = p.usata := by
  rw [tcsets, svegliaSe_byte.1, svegliaSe_byte.2.2.2]
  split <;> exact ⟨rfl, rfl⟩

theorem ioctl_uscita (p : Pty) {richiesta : Richiesta}
    (kept : ∀ arg, richiesta = .tcflsh arg → arg ≠ 1 ∧ arg ≠ 2) :
    (p.ioctl richiesta).pty.uscita = p.uscita ∧ (p.ioctl richiesta).pty.usata = p.usata := by
  cases richiesta with
  | tcsets t | tcsetsf t => exact tcsets_uscita
  | tiocsptlck blocca => exact ⟨rfl, rfl⟩
  | tcflsh arg =>
    obtain ⟨notOne, notTwo⟩ := kept arg rfl
    rw [ioctl]
    rw [if_neg (by rintro (one | two) <;> contradiction)]
    split <;> exact ⟨rfl, rfl⟩

/-! ## Reads -/

/-- A section that reads a ring takes what it returns off its front. -/
def Preso (a a' : Anello) (esito : EsitoPty) : Prop :=
  a'.quanti ≤ a.quanti ∧
    ((∃ byte, esito = .torna (.letti byte) ∧ byte ++ a'.contenuto = a.contenuto) ∨
      (∀ byte, esito ≠ .torna (.letti byte)) ∧ a'.contenuto = a.contenuto)

theorem Preso.nulla (a : Anello) : Preso a a (.torna (.letti [])) :=
  ⟨Nat.le_refl _, .inl ⟨[], rfl, rfl⟩⟩

theorem Preso.niente (a : Anello) {esito : EsitoPty}
    (noReturn : ∀ byte, esito ≠ .torna (.letti byte)) : Preso a a esito :=
  ⟨Nat.le_refl _, .inr ⟨noReturn, rfl⟩⟩

theorem Preso.prendi (a : Anello) (n : Nat) :
    Preso a (a.prendi n).1 (.torna (.letti (a.prendi n).2)) :=
  ⟨Nat.sub_le _ _, .inl ⟨_, rfl, Anello.contenuto_prendi⟩⟩

variable (p) (pid : Nat) (ticks : UInt32) (scaduto : Bool) {u : Turno}

theorem leggiMaster_turno {n : Nat} (isTurno : u = p.turno pid ticks scaduto (.leggiMaster n)) :
    u.chiamata = .leggiMaster n ∧ u.pty.usata = p.usata ∧ Preso p.uscita u.pty.uscita u.esito ∧
      u.pty.ingresso = p.ingresso ∧ u.pty.riga = p.riga := by
  rw [turno] at isTurno
  split at isTurno
  · rw [isTurno]
    exact ⟨rfl, rfl, Preso.nulla _, rfl, rfl⟩
  rw [leggiMaster] at isTurno
  split at isTurno
  · rw [isTurno]
    exact ⟨rfl, rfl, Preso.niente _ (by simp), rfl, rfl⟩
  split at isTurno
  · rw [isTurno]
    exact ⟨rfl, rfl, Preso.prendi _ _, rfl, rfl⟩
  split at isTurno
  · rw [isTurno]
    exact ⟨rfl, rfl, Preso.nulla _, rfl, rfl⟩
  obtain ⟨sameOut, sameIn, sameLine, sameUse, isIo, noReturn⟩ := aspetta_byte _ _ _ _ _ isTurno
  rw [sameOut]
  exact ⟨isIo, sameUse, Preso.niente _ fun _ => noReturn _, sameIn, sameLine⟩

theorem leggiSlave_turno {n : Nat} {l : Option Lettura}
    (isTurno : u = p.turno pid ticks scaduto (.leggiSlave n l)) :
    (∃ n l, u.chiamata = .leggiSlave n l) ∧ u.pty.usata = p.usata ∧
      Preso p.ingresso u.pty.ingresso u.esito ∧ u.pty.uscita = p.uscita ∧ u.pty.riga = p.riga := by
  rw [isTurno]
  cases l with
  | none =>
    rw [turno]
    split
    · exact ⟨⟨n, _, rfl⟩, rfl, Preso.nulla _, rfl, rfl⟩
    rw [prepara]
    split <;> exact ⟨⟨n, _, rfl⟩, rfl, Preso.niente _ (by simp), rfl, rfl⟩
  | some l =>
    rw [turno, leggiSlave]
    split
    · exact ⟨⟨n, _, rfl⟩, rfl, Preso.niente _ (by simp), rfl, rfl⟩
    split
    · exact ⟨⟨n, _, rfl⟩, rfl, Preso.prendi _ _, rfl, rfl⟩
    split
    · exact ⟨⟨n, _, rfl⟩, rfl, Preso.nulla _, rfl, rfl⟩
    split
    · exact ⟨⟨n, _, rfl⟩, rfl, Preso.prendi _ _, rfl, rfl⟩
    split
    · exact ⟨⟨n, _, rfl⟩, rfl, Preso.niente _ (by simp), rfl, rfl⟩
    obtain ⟨sameOut, sameIn, sameLine, sameUse, isIo, noReturn⟩ := aspetta_byte p .ingresso pid []
      (.leggiSlave n (some (l.guarda p.ingresso.quanti ticks).1)) rfl
    rw [sameIn]
    exact ⟨⟨n, _, isIo⟩, sameUse, Preso.niente _ fun _ => noReturn _, sameOut, sameLine⟩

theorem poll_turno {master : Bool} (isTurno : u = p.turno pid ticks scaduto (.poll master)) :
    u.chiamata = .poll master ∧ u.pty.usata = p.usata ∧ u.pty.uscita = p.uscita ∧
      u.pty.ingresso = p.ingresso ∧ u.pty.riga = p.riga := by
  rw [isTurno, turno, poll]
  by_cases ready :
      (!p.usata || (if master then p.prontoMaster else p.prontoSlave) || scaduto) = true
  · rw [if_pos ready]
    exact ⟨rfl, rfl, rfl, rfl, rfl⟩
  rw [if_neg ready]
  split
  · obtain ⟨sameOut, sameIn, sameLine, sameUse⟩ := conAtt_byte
    exact ⟨rfl, sameUse, sameOut, sameIn, sameLine⟩
  · exact ⟨rfl, rfl, rfl, rfl, rfl⟩

end Pty

/-! ## What is taken from the writes -/

namespace Terminale

open Pty

/-- The bytes taken from the write of number `id`. -/
def preseDi (c : Terminale) (id : Nat) : List UInt8 :=
  (c.prese.filter fun presa => presa.id = id).map Presa.byte

/-- A write in progress has been relieved of as many bytes as it counts, each of a
prefix of its data. -/
structure Contate (c : Terminale) : Prop where
  presi : ∀ id, c.preseDi id <+: c.scritture.getD id []
  contati : ∀ pid id dati scritti, (c.proc pid).chiamata = .scriviSlave id dati scritti →
    c.scritture[id]? = some dati ∧ scritti ≤ dati.length ∧ c.preseDi id = dati.take scritti
  distinti : ∀ pid pid' id dati dati' scritti scritti',
    (c.proc pid).chiamata = .scriviSlave id dati scritti →
    (c.proc pid').chiamata = .scriviSlave id dati' scritti' → pid = pid'

/-- The bytes read by the master and those in the ring are the bytes taken since
the pair was opened. -/
structure Flusso (c : Terminale) : Prop where
  entro : c.pty.usata = true → c.pty.uscita.quanti ≤ ptyDim
  inizio : c.inizio ≤ c.prese.length
  flusso : c.pty.usata = true →
    c.lettiMaster ++ c.pty.uscita.contenuto = (c.prese.drop c.inizio).flatMap Presa.uscita
  contate : c.Contate

variable {c c' : Terminale} {p : Pty} {proc : Nat → ProcessoPty} {evento : EventoPty}
  {onlcr : Bool} {dopo : Nat}

theorem Contate.stesse (pre : c.Contate) (prese : c'.prese = c.prese)
    (scritture : c'.scritture = c.scritture)
    (calls : ∀ q id dati scritti, (c'.proc q).chiamata = .scriviSlave id dati scritti →
      (c.proc q).chiamata = .scriviSlave id dati scritti) : c'.Contate := by
  have samePresi : ∀ id, c'.preseDi id = c.preseDi id := by
    intro id
    rw [preseDi, preseDi, prese]
  refine ⟨?_, ?_, ?_⟩
  · intro id
    rw [samePresi, scritture]
    exact pre.presi id
  · intro pid id dati scritti writes
    rw [samePresi, scritture]
    exact pre.contati pid id dati scritti (calls _ _ _ _ writes)
  · intro pid pid' id dati dati' scritti scritti' one other
    exact pre.distinti pid pid' id dati dati' scritti scritti' (calls _ _ _ _ one)
      (calls _ _ _ _ other)

/-- A step that takes nothing from the writes and leaves the ring towards the
master alone. -/
structure Estranea (c c' : Terminale) : Prop where
  pty : c'.pty.usata = true → c.pty.usata = true ∧ c'.pty.uscita = c.pty.uscita
  letti : c'.lettiMaster = c.lettiMaster
  prese : c'.prese = c.prese
  inizio : c'.inizio = c.inizio
  scritture : c'.scritture = c.scritture
  chiamate : ∀ q id dati scritti, (c'.proc q).chiamata = .scriviSlave id dati scritti →
    (c.proc q).chiamata = .scriviSlave id dati scritti

theorem Flusso.estranea (pre : c.Flusso) (out : Estranea c c') : c'.Flusso := by
  refine ⟨?_, ?_, ?_, pre.contate.stesse out.prese out.scritture out.chiamate⟩
  · intro used
    obtain ⟨usedBefore, same⟩ := out.pty used
    rw [same]
    exact pre.entro usedBefore
  · rw [out.inizio, out.prese]
    exact pre.inizio
  · intro used
    obtain ⟨usedBefore, same⟩ := out.pty used
    rw [same, out.letti, out.prese, out.inizio]
    exact pre.flusso usedBefore

/-- A step that leaves the bytes of a pair in use and what has been read and
typed alone. -/
structure Ferma (c c' : Terminale) : Prop where
  pty : c'.pty.usata = true → c.pty.usata = true ∧ c'.pty.uscita = c.pty.uscita ∧
    c'.pty.ingresso = c.pty.ingresso ∧ c'.pty.riga = c.pty.riga
  lettiMaster : c'.lettiMaster = c.lettiMaster
  lettiSlave : c'.lettiSlave = c.lettiSlave
  battuti : c'.battuti = c.battuti

/-- It leaves the writes alone too. -/
structure Quieta (c c' : Terminale) : Prop extends Ferma c c' where
  prese : c'.prese = c.prese
  inizio : c'.inizio = c.inizio
  scritture : c'.scritture = c.scritture
  chiamate : ∀ q id dati scritti, (c'.proc q).chiamata = .scriviSlave id dati scritti →
    (c.proc q).chiamata = .scriviSlave id dati scritti

theorem Quieta.estranea (quiet : Quieta c c') : Estranea c c' where
  pty := fun used => ⟨(quiet.pty used).1, (quiet.pty used).2.1⟩
  letti := quiet.lettiMaster
  prese := quiet.prese
  inizio := quiet.inizio
  scritture := quiet.scritture
  chiamate := quiet.chiamate

theorem Quieta.refl (c : Terminale) : Quieta c c :=
  ⟨⟨fun used => ⟨used, rfl, rfl, rfl⟩, rfl, rfl, rfl⟩, rfl, rfl, rfl, fun _ _ _ _ writes => writes⟩

theorem Quieta.conPty {ticks : UInt32}
    (pty : p.usata = true → c.pty.usata = true ∧ p.uscita = c.pty.uscita ∧
      p.ingresso = c.pty.ingresso ∧ p.riga = c.pty.riga)
    (same : ∀ q, (proc q).chiamata = (c.proc q).chiamata) :
    Quieta c { c with pty := p, proc := proc, ticks := ticks } :=
  ⟨⟨pty, rfl, rfl, rfl⟩, rfl, rfl, rfl, fun q _ _ _ calls => (same q).symm.trans calls⟩

theorem svegliato_chiamata {p : ProcessoPty} : p.svegliato.chiamata = p.chiamata := by
  rw [ProcessoPty.svegliato]
  split <;> rfl

theorem sveglia_chiamata (c : Terminale) (svegliati : List Nat) (q : Nat) :
    ((c.sveglia svegliati).proc q).chiamata = (c.proc q).chiamata := by
  show (if q ∈ svegliati then (c.proc q).svegliato else c.proc q).chiamata = _
  split
  · exact svegliato_chiamata
  · rfl

theorem interrompi_chiamata (c : Terminale) (interrotti : List Nat) (q : Nat) :
    ((c.interrompi interrotti).proc q).chiamata = (c.proc q).chiamata := by
  show (if q ∈ interrotti then { (c.proc q).svegliato with interrotto := true }
    else c.proc q : ProcessoPty).chiamata = _
  split
  · exact svegliato_chiamata
  · rfl

variable {io : ProcessoPty} {pid prima id : Nat} {d : Terminale} {dati : List UInt8} {u : Turno}
  {memoria scaduto : Bool} {presi : List UInt8}

theorem chiamate_conProc (same : ∀ q, (d.proc q).chiamata = (c.proc q).chiamata)
    (kept : ∀ id dati scritti, io.chiamata = .scriviSlave id dati scritti →
      (c.proc pid).chiamata = .scriviSlave id dati scritti)
    (q id : Nat) (dati : List UInt8) (scritti : Nat)
    (writes : ((d.conProc pid io).proc q).chiamata = .scriviSlave id dati scritti) :
    (c.proc q).chiamata = .scriviSlave id dati scritti := by
  by_cases mine : q = pid
  · rw [mine, conProc_self] at writes
    rw [mine]
    exact kept id dati scritti writes
  · rw [conProc_other d mine, same] at writes
    exact writes

theorem libero_chiamata {scritti : Nat}
    {wrote : Prop} (writes : io.libero.chiamata = .scriviSlave id dati scritti) : wrote := by
  simp [ProcessoPty.libero] at writes

theorem uscita_map : (presi.map fun byte => (⟨id, byte, onlcr⟩ : Presa)).flatMap Presa.uscita =
      presi.flatMap (espandi onlcr) := by
  rw [flatMap_map]
  rfl

theorem filter_map_presa {id other : Nat} :
    ((presi.map fun byte => (⟨id, byte, onlcr⟩ : Presa)).filter
      fun presa => presa.id = other).map Presa.byte = if other = id then presi else [] := by
  rw [filter_map, map_map]
  split
  · next same =>
    rw [filter_eq_self.mpr (by simp [same])]
    exact map_id presi
  · next ne =>
    rw [filter_eq_nil_iff.mpr (by simp [Ne.symm ne])]
    rfl

theorem Contate.preseDi_dopo (pre : c.Contate)
    (writes : (c.proc pid).chiamata = .scriviSlave id dati prima) (more : prima ≤ dopo)
    (prese : c'.prese = c.prese ++
      ((dati.drop prima).take (dopo - prima)).map fun byte => ⟨id, byte, onlcr⟩) (other : Nat) :
    c'.preseDi other = if other = id then dati.take dopo else c.preseDi other := by
  rw [preseDi, prese, filter_append, map_append, filter_map_presa]
  split
  · next same =>
    have joined := take_add (i := prima) (j := dopo - prima) (l := dati)
    rw [Nat.add_sub_cancel' more] at joined
    rw [joined, ← (pre.contati pid id dati prima writes).2.2, same]
    rfl
  · exact append_nil _

/-- Process `pid` is at byte `n` of call `id`, and nothing else has changed. -/
theorem Contate.rinnova (pid : Nat) (pre : c.Contate) {n : Nat}
    (mine : ∀ other data count, (c'.proc pid).chiamata = .scriviSlave other data count →
      other = id ∧ data = dati ∧ count = n) (others : ∀ q, q ≠ pid → ∀ other data count,
      (c'.proc q).chiamata = .scriviSlave other data count →
        other ≠ id ∧ (c.proc q).chiamata = .scriviSlave other data count)
    (kept : ∀ other, other ≠ id →
      c'.preseDi other = c.preseDi other ∧ c'.scritture[other]? = c.scritture[other]?)
    (isDati : c'.scritture[id]? = some dati) (within : n ≤ dati.length)
    (isPresi : c'.preseDi id = dati.take n) : c'.Contate := by
  refine ⟨fun other => ?_, fun q other data count calls => ?_,
    fun q q' other data data' count count' one two => ?_⟩
  · rw [getD_eq_getElem?_getD]
    by_cases same : other = id
    · rw [same, isPresi, isDati]
      exact take_prefix _ _
    · rw [(kept other same).1, (kept other same).2]
      exact pre.presi other
  · by_cases own : q = pid
    · obtain ⟨isId, isData, isCount⟩ := mine other data count (own ▸ calls)
      rw [isId, isData, isCount]
      exact ⟨isDati, within, isPresi⟩
    · obtain ⟨notId, old⟩ := others q own other data count calls
      rw [(kept other notId).1, (kept other notId).2]
      exact pre.contati q other data count old
  · by_cases own : q = pid <;> by_cases own' : q' = pid
    · rw [own, own']
    · exact absurd (mine other data count (own ▸ one)).1 (others q' own' other data' count' two).1
    · exact absurd (mine other data' count' (own' ▸ two)).1 (others q own other data count one).1
    · exact pre.distinti q q' other data data' count count' (others q own other data count one).2
        (others q' own' other data' count' two).2

theorem Contate.prende (pre : c.Contate)
    (writes : (c.proc pid).chiamata = .scriviSlave id dati prima)
    (more : prima ≤ dopo) (within : dopo ≤ dati.length) (scritture : c'.scritture = c.scritture)
    (prese : c'.prese = c.prese ++
      ((dati.drop prima).take (dopo - prima)).map fun byte => ⟨id, byte, onlcr⟩)
    (mine : (c'.proc pid).chiamata = .scriviSlave id dati dopo ∨
      ∀ id dati scritti, (c'.proc pid).chiamata ≠ .scriviSlave id dati scritti)
    (others : ∀ q, q ≠ pid → (c'.proc q).chiamata = (c.proc q).chiamata) : c'.Contate := by
  have isPresi := pre.preseDi_dopo writes more prese
  refine pre.rinnova pid (fun other data count calls => ?_) (fun q own other data count calls => ?_)
    (fun other notId => ⟨?_, by rw [scritture]⟩)
    (scritture.symm ▸ (pre.contati pid id dati prima writes).1) within ?_
  · rcases mine with same | ne
    · rw [same] at calls
      injection calls with isId isData isCount
      exact ⟨isId.symm, isData.symm, isCount.symm⟩
    · exact absurd calls (ne other data count)
  · rw [others q own] at calls
    refine ⟨fun isId => own ?_, calls⟩
    rw [isId] at calls
    exact pre.distinti q pid id data dati count prima calls writes
  · rw [isPresi, if_neg notId]
  · rw [isPresi, if_pos rfl]

/-- One section of the write `id`, relieved of `prima` bytes before it: what it
takes goes to the ring, and what it reports is what was taken. -/
def Scritta (p : Pty) (id : Nat) (dati : List UInt8) (prima : Nat) (u : Turno) : Prop :=
  ∃ dopo, u.chiamata = .scriviSlave id dati dopo ∧ prima ≤ dopo ∧ dopo ≤ dati.length ∧
    u.pty.usata = p.usata ∧
    (p.usata = true → u.pty.uscita.quanti ≤ ptyDim ∧ u.pty.uscita.contenuto = p.uscita.contenuto ++
        ((dati.drop prima).take (dopo - prima)).flatMap (espandi p.t.onlcr)) ∧
    ∀ r, u.esito = .torna (.scritti r) → r = dopo

theorem Scritta.nulla (within : prima ≤ dati.length)
    (bounded : p.usata = true → p.uscita.quanti ≤ ptyDim) {esito : EsitoPty}
    (reports : ∀ r, esito = .torna (.scritti r) → r = prima) :
    Scritta p id dati prima ⟨p, [], .scriviSlave id dati prima, esito⟩ := by
  refine ⟨prima, rfl, Nat.le_refl _, within, rfl, ?_, reports⟩
  intro used
  refine ⟨bounded used, ?_⟩
  rw [Nat.sub_self]
  exact (append_nil _).symm

theorem scriviSlave_scritta (pid : Nat) (ticks : UInt32) (scaduto : Bool) (id : Nat)
    (within : prima ≤ dati.length)
    (bounded : p.usata = true → p.uscita.quanti ≤ ptyDim) :
    Scritta p id dati prima (p.turno pid ticks scaduto (.scriviSlave id dati prima)) := by
  rw [turno]
  split
  · next nothing =>
    apply Scritta.nulla within bounded
    intro r zero
    rw [nothing] at within
    injection zero with isScritti
    injection isScritti with isR
    rw [← isR]
    exact (Nat.le_zero.mp within).symm
  · rw [scriviSlave]
    split
    · exact Scritta.nulla within bounded fun r wrong => by simp at wrong
    rename_i used
    split
    · apply Scritta.nulla within bounded
      intro r isR
      split at isR
      · simp at isR
      · injection isR with isScritti
        injection isScritti with same
        exact same.symm
    · obtain ⟨presi, isDati, isContenuto, fits⟩ :=
        versa_contenuto p.uscita (bounded (usata_of_not used))
      generalize versa p.t.onlcr p.uscita (dati.drop prima) = r at isDati isContenuto fits ⊢
      have lengths := congrArg List.length isDati
      rw [length_drop, length_append] at lengths
      have isPresi : (dati.drop prima).take (dati.length - r.2.length - prima) = presi := by
        rw [isDati]
        apply take_left'
        omega
      dsimp only
      split
      · refine ⟨dati.length - r.2.length, rfl, by omega, Nat.sub_le _ _, rfl, fun _ => ?_, ?_⟩
        · rw [isPresi]
          exact ⟨fits, isContenuto⟩
        · intro n isN
          injection isN with isScritti
          injection isScritti with same
          exact same.symm
      · obtain ⟨sameRing, _, _, sameUse, isIo, noReturn⟩ := aspetta_byte
          { p with uscita := r.1, attOut := p.attOut.sveglia } .spazio pid p.attOut.pid
          (.scriviSlave id dati (dati.length - r.2.length)) rfl
        refine ⟨dati.length - r.2.length, isIo, by omega, Nat.sub_le _ _, sameUse,
          fun _ => ?_, fun n isN => absurd isN (noReturn _)⟩
        rw [isPresi, sameRing]
        exact ⟨fits, isContenuto⟩

/-! ## Steps of a call -/

theorem annota_resto {chiamata : ChiamataPty} {r : Ritorno} :
    (c.annota chiamata r).prese = c.prese ∧ (c.annota chiamata r).inizio = c.inizio ∧
      (c.annota chiamata r).scritture = c.scritture ∧
      ((∀ n, chiamata ≠ .leggiMaster n) → (c.annota chiamata r).lettiMaster = c.lettiMaster) := by
  cases chiamata <;> cases r <;> first
    | exact ⟨rfl, rfl, rfl, fun _ => rfl⟩
    | exact ⟨rfl, rfl, rfl, fun other => absurd rfl (other _)⟩

theorem dopo_resto (c : Terminale) (pid : Nat) (u : Turno) :
    (c.dopo pid u).prese = c.prese ++ preseDa c.pty (c.proc pid).chiamata u.chiamata ∧
      (c.dopo pid u).inizio = c.inizio ∧ (c.dopo pid u).scritture = c.scritture ∧
      ((∀ n, u.chiamata ≠ .leggiMaster n) → (c.dopo pid u).lettiMaster = c.lettiMaster) := by
  rw [Terminale.dopo]
  split
  · exact annota_resto
  · exact ⟨rfl, rfl, rfl, fun _ => rfl⟩

theorem processo_chiamata (u : Turno) (io : ProcessoPty) :
    (u.processo io).chiamata = u.chiamata ∨ (u.processo io).chiamata = .nessuna := by
  rw [Turno.processo]
  split
  · exact .inl rfl
  · exact .inl rfl
  · exact .inl rfl
  · exact .inl rfl
  · exact .inl rfl
  · exact .inr rfl

theorem dopo_altri (c : Terminale) {q : Nat} (other : q ≠ pid) (u : Turno) :
    ((c.dopo pid u).proc q).chiamata = (c.proc q).chiamata := by
  rw [dopo_proc, if_neg other]
  split
  · exact svegliato_chiamata
  · rfl

theorem Flusso.scrive (pre : c.Flusso)
    (writes : (c.proc pid).chiamata = .scriviSlave id dati prima) (scaduto : Bool) :
    (c.dopo pid (c.pty.turno pid c.ticks scaduto (.scriviSlave id dati prima))).Flusso := by
  obtain ⟨_, within, _⟩ := pre.contate.contati pid id dati prima writes
  have inside := scriviSlave_scritta pid c.ticks scaduto id within pre.entro
  generalize c.pty.turno pid c.ticks scaduto (.scriviSlave id dati prima) = u at inside ⊢
  obtain ⟨dopo, isChiamata, more, le, sameUse, flows, _⟩ := inside
  obtain ⟨isPrese, isInizio, isScritture, isLetti⟩ := dopo_resto c pid u
  rw [writes, isChiamata] at isPrese
  have isPty := dopo_pty c pid u
  refine ⟨?_, ?_, ?_, pre.contate.prende writes more le isScritture isPrese ?_
    fun q other => dopo_altri c other u⟩
  · rw [isPty, sameUse]
    exact fun used => (flows used).1
  · rw [isInizio, isPrese, length_append]
    exact Nat.le_trans pre.inizio (Nat.le_add_right _ _)
  · rw [isPty, sameUse]
    intro used
    rw [isLetti (by rw [isChiamata]; simp), (flows used).2, ← append_assoc,
      pre.flusso used, isPrese, isInizio, drop_append_of_le_length pre.inizio,
      flatMap_append]
    exact congrArg _ uscita_map.symm
  · rw [dopo_proc, if_pos rfl]
    rcases processo_chiamata u (c.proc pid) with same | free
    · rw [same]
      exact .inl isChiamata
    · rw [free]
      exact .inr fun _ _ _ => by simp

theorem dopo_lettiMaster {n : Nat} {a : Anello}
    (isChiamata : u.chiamata = .leggiMaster n) (taken : Preso a u.pty.uscita u.esito) :
    (c.dopo pid u).lettiMaster ++ u.pty.uscita.contenuto = c.lettiMaster ++ a.contenuto := by
  obtain ⟨p', svegliati, chiamata, esito⟩ := u
  dsimp only at isChiamata taken ⊢
  rw [isChiamata]
  rcases taken.2 with ⟨byte, ret, joined⟩ | ⟨noReturn, same⟩
  · rw [ret, ← joined, ← append_assoc]
    rfl
  rw [same]
  cases esito with
  | torna r =>
    cases r with
    | letti byte => exact absurd rfl (noReturn byte)
    | _ => rfl
  | _ => rfl

theorem preseDa_nil (p : Pty) (prima dopo : ChiamataPty)
    (other : ∀ id dati scritti, dopo ≠ .scriviSlave id dati scritti) :
    preseDa p prima dopo = [] := by
  cases prima <;> cases dopo <;> first | rfl | exact absurd rfl (other _ _ _)

theorem dopo_chiamate (noWrite : ∀ id dati scritti, u.chiamata ≠ .scriviSlave id dati scritti)
    (q id : Nat) (dati : List UInt8) (scritti : Nat)
    (writes : ((c.dopo pid u).proc q).chiamata = .scriviSlave id dati scritti) :
    (c.proc q).chiamata = .scriviSlave id dati scritti := by
  by_cases mine : q = pid
  · rw [mine, dopo_proc, if_pos rfl] at writes
    rcases processo_chiamata u (c.proc pid) with same | free
    · exact absurd (same.symm.trans writes) (noWrite id dati scritti)
    · rw [free] at writes
      simp at writes
  · rw [dopo_altri c mine] at writes
    exact writes

theorem Flusso.legge (pre : c.Flusso) (pid n : Nat) (scaduto : Bool) :
    (c.dopo pid (c.pty.turno pid c.ticks scaduto (.leggiMaster n))).Flusso := by
  generalize isTurno : c.pty.turno pid c.ticks scaduto (.leggiMaster n) = u
  obtain ⟨isChiamata, sameUse, taken, _⟩ := leggiMaster_turno c.pty pid c.ticks scaduto isTurno.symm
  obtain ⟨isPrese, isInizio, isScritture, _⟩ := dopo_resto c pid u
  have noWrite : ∀ id dati scritti, u.chiamata ≠ .scriviSlave id dati scritti := by
    rw [isChiamata]
    simp
  rw [preseDa_nil _ _ _ noWrite, append_nil] at isPrese
  have isPty := dopo_pty c pid u
  refine ⟨?_, ?_, ?_, pre.contate.stesse isPrese isScritture (dopo_chiamate noWrite)⟩
  · rw [isPty, sameUse]
    exact fun used => Nat.le_trans taken.1 (pre.entro used)
  · rw [isInizio, isPrese]
    exact pre.inizio
  · rw [isPty, sameUse, isInizio, isPrese]
    intro used
    rw [← pre.flusso used]
    exact dopo_lettiMaster isChiamata taken

theorem Flusso.guarda (pre : c.Flusso) (pid : Nat) (sameRing : u.pty.uscita = c.pty.uscita)
    (sameUse : u.pty.usata = c.pty.usata)
    (noWrite : ∀ id dati scritti, u.chiamata ≠ .scriviSlave id dati scritti)
    (noMaster : ∀ n, u.chiamata ≠ .leggiMaster n) : (c.dopo pid u).Flusso := by
  obtain ⟨isPrese, isInizio, isScritture, isLetti⟩ := dopo_resto c pid u
  rw [preseDa_nil _ _ _ noWrite, append_nil] at isPrese
  apply pre.estranea
  refine ⟨?_, isLetti noMaster, isPrese, isInizio, isScritture, dopo_chiamate noWrite⟩
  rw [dopo_pty, sameUse, sameRing]
  exact fun used => ⟨used, rfl⟩

section

variable (quiet : Quieta c d) (same : ∀ q, (d.proc q).chiamata = (c.proc q).chiamata)

include quiet same

theorem Quieta.conProc (kept : ∀ id dati scritti, io.chiamata = .scriviSlave id dati scritti →
      (c.proc pid).chiamata = .scriviSlave id dati scritti) : Quieta c (d.conProc pid io) :=
  { quiet with chiamate := chiamate_conProc same kept }

theorem Quieta.libera (pid : Nat) : Quieta c (d.libera pid) :=
  quiet.conProc same fun _ _ _ => libero_chiamata

theorem Quieta.conFase (pid : Nat) (fase : FasePty) : Quieta c (d.conFase pid fase) :=
  quiet.conProc same fun _ _ _ writes => (same pid).symm.trans writes

end

def riaperta (c : Terminale) (pid : Nat) : Terminale :=
  { c with
    pty := { c.pty.azzera with usata := true }
    lettiMaster := []
    lettiSlave := []
    battuti := []
    inizio := c.prese.length }.conFase pid .apre

theorem Flusso.riapre (pre : c.Flusso) (pid : Nat) : (c.riaperta pid).Flusso := by
  refine ⟨fun _ => Nat.zero_le _, Nat.le_refl _, ?_, ?_⟩
  · intro _
    show [] ++ ring ptyDim _ 0 0 = (c.prese.drop c.prese.length).flatMap Presa.uscita
    rw [drop_length]
    rfl
  · exact pre.contate.stesse rfl rfl (chiamate_conProc (fun _ => rfl) fun _ _ _ same => same)

theorem azzeraSeOrfana_usata (used : p.azzeraSeOrfana.usata = true) : p.azzeraSeOrfana = p := by
  rw [azzeraSeOrfana] at used ⊢
  split at used
  · simp [azzera] at used
  · next others => rw [if_neg others]

theorem lascia_byte {master : Bool} :
    (p.lascia master).usata = p.usata ∧ (p.lascia master).uscita = p.uscita ∧
      (p.lascia master).ingresso = p.ingresso ∧ (p.lascia master).riga = p.riga := by
  rw [lascia]
  split <;> exact ⟨rfl, rfl, rfl, rfl⟩

theorem Quieta.conAtt (c : Terminale) (lato : LatoPty) (a : Attese) :
    Quieta c { c with pty := c.pty.conAtt lato a } := by
  obtain ⟨sameOut, sameIn, sameLine, sameUse⟩ := conAtt_byte
  exact Quieta.conPty (fun used => ⟨sameUse.symm.trans used, sameOut, sameIn, sameLine⟩)
    fun _ => rfl

theorem disregistra_quieta (c : Terminale) (pid : Nat) : Quieta c (c.disregistra pid) := by
  rw [disregistra]
  split
  · exact Quieta.conAtt c _ _
  · exact Quieta.refl c

/-- What a step of a call can do: leave the bytes alone, go through a section of a
read, a write or a poll, or take the pair for a new terminal. -/
theorem avanza_casi :
    Quieta c (c.avanza pid memoria scaduto).1 ∨ (∃ side, lato (c.proc pid).chiamata = some side ∧
        (c.avanza pid memoria scaduto).1 =
          c.dopo pid (c.pty.turno pid c.ticks scaduto (c.proc pid).chiamata)) ∨
      (c.avanza pid memoria scaduto).1 = c.riaperta pid := by
  have still := Quieta.refl c
  have sameCalls : ∀ q, (c.proc q).chiamata = (c.proc q).chiamata := fun _ => rfl
  rw [Terminale.avanza]
  cases isFase : (c.proc pid).fase with
  | sezione =>
    cases isChiamata : (c.proc pid).chiamata with
    | nessuna => exact .inl still
    | leggiMaster n => exact .inr (.inl ⟨_, rfl, rfl⟩)
    | leggiSlave n l | scriviSlave id dati scritti | poll master => exact .inr (.inl ⟨_, rfl, rfl⟩)
    | chiudi master =>
      left
      dsimp only
      split
      · obtain ⟨sameUse, sameBytes⟩ := lascia_byte
        have leaves : Quieta c { c with pty := c.pty.lascia master } :=
          Quieta.conPty (fun used => ⟨sameUse.symm.trans used, sameBytes⟩) sameCalls
        exact leaves.conFase sameCalls pid .chiude
      · exact still.libera sameCalls pid
    | apri ptmx =>
      dsimp only
      split
      · exact .inl still
      · exact .inr (.inr rfl)
  | sveglio =>
    left
    have unlisted := disregistra_quieta c pid
    have same : ∀ q, ((c.disregistra pid).proc q).chiamata = (c.proc q).chiamata :=
      fun q => by rw [disregistra_proc]
    dsimp only
    split
    · exact unlisted.libera same pid
    · exact unlisted.conFase same pid .sezione
  | misura =>
    left
    dsimp only
    split
    · exact still
    · exact still.conFase sameCalls pid _
  | alloca posti =>
    left
    dsimp only
    split
    · exact still
    · split
      · exact (Quieta.conAtt c _ _).conFase sameCalls pid .sezione
      · exact still.libera sameCalls pid
  | chiude =>
    left
    have woken : Quieta c ({ c with pty := c.pty.svegliaTutti.1 }.sveglia c.pty.svegliaTutti.2) :=
      Quieta.conPty (fun used => ⟨used, rfl, rfl, rfl⟩) (sveglia_chiamata _ _)
    exact woken.conFase (sveglia_chiamata _ _) pid .chiuso
  | chiuso =>
    left
    have orphan : Quieta c { c with pty := c.pty.azzeraSeOrfana } := by
      refine Quieta.conPty ?_ sameCalls
      intro used
      have same : c.pty.azzeraSeOrfana = c.pty := azzeraSeOrfana_usata used
      rw [same] at used ⊢
      exact ⟨used, rfl, rfl, rfl⟩
    exact orphan.libera sameCalls pid
  | apre =>
    left
    have started : Quieta c { c with pty := c.pty.inizia } :=
      Quieta.conPty (fun used => ⟨used, rfl, rfl, rfl⟩) sameCalls
    dsimp only
    split
    · exact started.conFase sameCalls pid .ptmx
    · exact started.libera sameCalls pid
  | ptmx =>
    left
    have isOpen : Quieta c { c with pty := c.pty.apriPtmx } :=
      Quieta.conPty (fun used => ⟨used, rfl, rfl, rfl⟩) sameCalls
    exact isOpen.libera sameCalls pid
  | _ => exact .inl still

theorem Flusso.avanza (pre : c.Flusso) (pid : Nat) (memoria scaduto : Bool) :
    (c.avanza pid memoria scaduto).1.Flusso := by
  rcases avanza_casi with quiet | ⟨side, isLato, isSection⟩ | reopened
  · exact pre.estranea quiet.estranea
  · rw [isSection]
    cases isChiamata : (c.proc pid).chiamata with
    | leggiMaster n => exact pre.legge pid n scaduto
    | leggiSlave n l =>
      obtain ⟨⟨_, _, isRead⟩, sameUse, _, sameRing, _⟩ :=
        leggiSlave_turno c.pty pid c.ticks scaduto rfl
      exact pre.guarda pid sameRing sameUse (by simp [isRead]) (by simp [isRead])
    | scriviSlave id dati scritti => exact pre.scrive isChiamata scaduto
    | poll master =>
      obtain ⟨isPoll, sameUse, sameRing, _⟩ := poll_turno c.pty pid c.ticks scaduto rfl
      exact pre.guarda pid sameRing sameUse (by simp [isPoll]) (by simp [isPoll])
    | _ => simp [isChiamata, lato] at isLato
  · rw [reopened]
    exact pre.riapre pid

theorem passo_quieta (other : (∀ pid chiamata, evento ≠ .chiama pid chiamata) ∧
      (∀ pid memoria scaduto, evento ≠ .avanza pid memoria scaduto) ∧
      (∀ dati, evento ≠ .scriviMaster dati) ∧ (∀ richiesta, evento ≠ .ioctl richiesta) ∧
      ∀ comando, evento ≠ .ctl comando) : Quieta c (c.passo evento) := by
  have still := Quieta.refl c
  have sameCalls : ∀ q, (c.proc q).chiamata = (c.proc q).chiamata := fun _ => rfl
  obtain ⟨noCall, noStep, noTyping, noRequest, noControl⟩ := other
  cases evento with
  | chiama pid chiamata => exact absurd rfl (noCall pid chiamata)
  | avanza pid memoria scaduto => exact absurd rfl (noStep pid memoria scaduto)
  | scriviMaster dati => exact absurd rfl (noTyping dati)
  | ioctl richiesta => exact absurd rfl (noRequest richiesta)
  | ctl comando => exact absurd rfl (noControl comando)
  | apriSlave =>
    refine Quieta.conPty (p := c.pty.apriSlave) ?_ sameCalls
    rw [apriSlave]
    split <;> exact fun used => ⟨used, rfl, rfl, rfl⟩
  | apriRiferimento master =>
    refine Quieta.conPty (p := c.pty.apriRiferimento master) ?_ sameCalls
    rw [apriRiferimento]
    split
    · exact fun used => ⟨used, rfl, rfl, rfl⟩
    · split <;> exact fun used => ⟨used, rfl, rfl, rfl⟩
  | chiudiLocked master =>
    refine Quieta.conPty (p := (c.pty.chiudiLocked master).1) ?_ (sveglia_chiamata _ _)
    rw [chiudiLocked]
    split
    · exact fun used => ⟨used, rfl, rfl, rfl⟩
    intro used
    have kept := azzeraSeOrfana_usata used
    dsimp only at used ⊢
    rw [kept] at used ⊢
    obtain ⟨sameUse, sameBytes⟩ := lascia_byte
    exact ⟨sameUse.symm.trans used, sameBytes⟩
  | sveglia pid =>
    exact Quieta.conPty (fun used => ⟨used, rfl, rfl, rfl⟩) (sveglia_chiamata c _)
  | scade pid =>
    rw [Terminale.passo]
    split
    · exact still.conFase sameCalls pid .sveglio
    · exact still
  | interrompi pid =>
    exact Quieta.conPty (fun used => ⟨used, rfl, rfl, rfl⟩) (interrompi_chiamata c _)
  | ripristina pid => exact still.conProc sameCalls fun _ _ _ writes => writes
  | muore pid => exact still.libera sameCalls pid
  | tick => exact Quieta.conPty (fun used => ⟨used, rfl, rfl, rfl⟩) sameCalls

/-! ## Runs -/

/-- With the echo off, and without a flush of the output. -/
def Muto (c : Terminale) : EventoPty → Prop
  | .scriviMaster _ => c.pty.t.echo = false
  | .ioctl (.tcflsh arg) => arg ≠ 1 ∧ arg ≠ 2
  | _ => True

theorem Contate.avvia (pre : c.Contate) (dati : List UInt8)
    (isIo : io.chiamata = .scriviSlave c.scritture.length dati 0) :
    Contate { c.conProc pid io with scritture := c.scritture ++ [dati] } := by
  refine pre.rinnova pid (fun id data count calls => ?_) (fun q other id data count calls => ?_)
    (fun id old => ⟨rfl, ?_⟩) List.getElem?_concat_length (Nat.zero_le _) ?_
  · rw [conProc_self, isIo] at calls
    injection calls with isId isData isCount
    exact ⟨isId.symm, isData.symm, isCount.symm⟩
  · rw [conProc_other c other] at calls
    have isData := (pre.contati q id data count calls).1
    exact ⟨Nat.ne_of_lt (List.getElem?_eq_some_iff.mp isData).1, calls⟩
  · grind
  · have absent := pre.presi c.scritture.length
    rw [getD_eq_getElem?_getD, List.getElem?_eq_none (Nat.le_refl _)] at absent
    exact prefix_nil.mp absent

theorem Flusso.avvia (pre : c.Flusso) (pid : Nat) (chiamata : ChiamataPty) :
    (c.avvia pid chiamata).Flusso := by
  have others : ∀ {io : ProcessoPty},
      (∀ id dati scritti, io.chiamata ≠ .scriviSlave id dati scritti) →
      (c.conProc pid io).Flusso := by
    intro io noWrite
    exact pre.estranea ((Quieta.refl c).conProc (fun _ => rfl)
      fun id dati scritti writes => absurd writes (noWrite id dati scritti)).estranea
  cases chiamata with
  | scriviSlave id dati scritti =>
    exact { pre with contate := pre.contate.avvia dati rfl }
  | _ => exact others (by simp)

theorem Flusso.conPty (pre : c.Flusso) {battuti : List (PtyTermios × UInt8)}
    (pty : p.usata = true → c.pty.usata = true ∧ p.uscita = c.pty.uscita)
    (same : ∀ q, (proc q).chiamata = (c.proc q).chiamata) :
    Flusso { c with pty := p, proc := proc, battuti := battuti } :=
  pre.estranea ⟨pty, rfl, rfl, rfl, rfl, fun q _ _ _ writes => (same q).symm.trans writes⟩

theorem effetto_chiamata (c : Terminale) (e : Effetto) (q : Nat) :
    ((c.effetto e).proc q).chiamata = (c.proc q).chiamata := by
  rw [effetto, interrompi_chiamata, sveglia_chiamata]

theorem Flusso.passo (pre : c.Flusso) (mute : c.Muto evento) : (c.passo evento).Flusso := by
  cases evento with
  | chiama pid chiamata =>
    rw [Terminale.passo]
    split
    · split
      · exact pre
      · exact pre.avvia pid chiamata
    · exact pre
  | avanza pid memoria scaduto => exact pre.avanza pid memoria scaduto
  | scriviMaster dati =>
    rw [Terminale.passo]
    split
    · refine pre.conPty (p := (c.pty.scriviMaster dati).pty) ?_ (effetto_chiamata c _)
      rw [scriviMaster_usata, scriviMaster_uscita mute]
      exact fun used => ⟨used, rfl⟩
    · exact pre
  | ioctl richiesta =>
    rw [Terminale.passo]
    split
    · have kept : ∀ arg, richiesta = .tcflsh arg → arg ≠ 1 ∧ arg ≠ 2 := by
        intro arg isFlush
        rw [isFlush] at mute
        exact mute
      obtain ⟨sameRing, sameUse⟩ := ioctl_uscita c.pty kept
      refine pre.conPty (p := (c.pty.ioctl richiesta).pty) ?_ (effetto_chiamata c _)
      rw [sameUse, sameRing]
      exact fun used => ⟨used, rfl⟩
    · exact pre
  | ctl comando =>
    rw [Terminale.passo]
    split
    · refine pre.conPty ?_ fun _ => rfl
      cases comando <;> exact fun used => ⟨used, rfl⟩
    · exact pre
  | _ => exact pre.estranea (passo_quieta (by simp)).estranea

theorem Iniziale.flusso (start : c.Iniziale) : c.Flusso := by
  obtain ⟨unused, _, _, _, free, _, nothing, zero⟩ := start
  have notUsed : ∀ {holds : Prop}, c.pty.usata = true → holds :=
    fun used => absurd (unused.symm.trans used) (by simp)
  have noCall : ∀ pid id dati scritti, (c.proc pid).chiamata ≠ .scriviSlave id dati scritti := by
    intro pid id dati scritti
    rw [(free pid).1]
    simp
  refine ⟨notUsed, ?_, notUsed, ⟨?_, ?_, ?_⟩⟩
  · rw [zero]
    exact Nat.zero_le _
  · intro id
    rw [preseDi, nothing]
    exact nil_prefix
  · exact fun pid id dati scritti writes => absurd writes (noCall pid id dati scritti)
  · exact fun pid _ id dati _ scritti _ writes => absurd writes (noCall pid id dati scritti)

theorem Corsa.flusso (corsa : Corsa Muto c) : c.Flusso :=
  Reached.invariant Flusso (fun _ => Iniziale.flusso) (fun pre evento after good taken => by
      rw [taken.2]
      exact good.passo taken.1) corsa

theorem Flusso.riporta (pre : c.Flusso) {r : Nat}
    (writes : (c.proc pid).chiamata = .scriviSlave id dati prima)
    (ret : (c.avanza pid memoria scaduto).2 = some (.scritti r)) :
    (c.avanza pid memoria scaduto).1.preseDi id = dati.take r := by
  have taken := (pre.contate.contati pid id dati prima writes).2.2
  have within := (pre.contate.contati pid id dati prima writes).2.1
  rw [Terminale.avanza] at ret ⊢
  cases isFase : (c.proc pid).fase with
  | misura =>
    simp only [isFase] at ret
    split at ret <;> simp at ret
  | apre =>
    simp only [isFase, writes] at ret
    simp at ret
  | sezione =>
    simp only [isFase, writes] at ret ⊢
    have inside := scriviSlave_scritta pid c.ticks scaduto id within pre.entro
    generalize c.pty.turno pid c.ticks scaduto (.scriviSlave id dati prima) = u at inside ret ⊢
    obtain ⟨dopo, isChiamata, more, _, _, _, reports⟩ := inside
    have isPrese := (dopo_resto c pid u).1
    rw [writes, isChiamata] at isPrese
    have isEsito : u.esito = .torna (.scritti r) := by
      cases isEsito : u.esito with
      | torna value =>
        rw [isEsito] at ret
        exact congrArg EsitoPty.torna (Option.some.inj ret)
      | _ => simp [isEsito] at ret
    rw [reports r isEsito]
    exact (pre.contate.preseDi_dopo writes more isPrese id).trans (if_pos rfl)
  | sveglio =>
    simp only [isFase] at ret ⊢
    split at ret
    · next interrupted =>
      rw [if_pos interrupted]
      rw [writes] at ret
      injection ret with isScritti
      injection isScritti with isPrima
      rw [← isPrima, ← taken]
      exact congrArg _ (congrArg _ (disregistra_quieta c pid).prese)
    · simp at ret
  | alloca posti =>
    simp only [isFase, writes, lato] at ret ⊢
    split at ret
    · simp at ret
    rename_i noMemory
    rw [if_neg noMemory]
    rw [senzaMemoria] at ret
    split at ret
    · simp at ret
    injection ret with isScritti
    injection isScritti with isPrima
    rw [← isPrima]
    exact taken
  | _ => simp [isFase] at ret

/-- With the echo off and no flush of the output, what the master has read and
what is in the ring are the bytes taken from the writes since the pair was
opened, in the order they were taken, a newline as CR LF exactly when the modes
said so then; from each write a prefix of its data is taken, in order, and a
write that reports `r` has been relieved of its first `r` bytes. -/
theorem corsa_uscita (corsa : Corsa Muto c) : (c.pty.usata = true →
      c.lettiMaster ++ c.pty.uscita.contenuto = (c.prese.drop c.inizio).flatMap Presa.uscita) ∧
      (∀ id, c.preseDi id <+: c.scritture.getD id []) ∧
      ∀ pid id dati prima memoria scaduto r, (c.proc pid).chiamata = .scriviSlave id dati prima →
        (c.avanza pid memoria scaduto).2 = some (.scritti r) →
          (c.avanza pid memoria scaduto).1.preseDi id = dati.take r := by
  refine ⟨corsa.flusso.flusso, corsa.flusso.contate.presi, ?_⟩
  intro pid id dati prima memoria scaduto r writes ret
  exact corsa.flusso.riporta writes ret

/-- The modes of a fresh terminal without its echo. -/
def senzaEco : PtyTermios := { PtyTermios.sano with lflag := 0x0001 ||| 0x0002 }

def apreMuto : List EventoPty :=
  [.chiama 2 (.apri false), .avanza 2 true false, .avanza 2 true false, .ioctl (.tcsets senzaEco)]

/-- The pair opened by process 2, its echo turned off. -/
def muto : Terminale := apreMuto.foldl Terminale.passo riposo

theorem muto_corsa {ammesso : Terminale → EventoPty → Prop}
    (admitted : ∀ evento ∈ apreMuto, ∀ c, ammesso c evento) : Corsa ammesso muto :=
  Corsa.esegui (Reached.start riposo_iniziale) apreMuto admitted

def scriveRiga : List EventoPty :=
  [.chiama 1 (.scriviSlave 0 [97, 10] 0), .avanza 1 true false, .chiama 3 (.leggiMaster 10),
    .avanza 3 true false]

def rigaScritta : Terminale := scriveRiga.foldl Terminale.passo muto

theorem corsa_uscita_rigaScritta : rigaScritta.lettiMaster = [97, 13, 10] ∧
      rigaScritta.lettiMaster ++ rigaScritta.pty.uscita.contenuto =
        (rigaScritta.prese.drop rigaScritta.inizio).flatMap Presa.uscita := by
  have corsa : Corsa Muto rigaScritta :=
    (muto_corsa (by simp [apreMuto, Muto])).esegui scriveRiga (by simp [scriveRiga, Muto])
  exact ⟨by decide +kernel, (corsa_uscita corsa).1 (by decide +kernel)⟩

def scrivonoInDue : List EventoPty :=
  [.chiama 1 troppi, .avanza 1 true false, .chiama 3 (.leggiMaster 1024), .avanza 3 true false,
    .chiama 4 (.scriviSlave 0 [66] 0), .avanza 4 true false, .avanza 1 true false,
    .avanza 1 true false]

/-- A second write goes in while the first sleeps for room. -/
def alternate : Terminale := scrivonoInDue.foldl Terminale.passo muto

/-- Two writes, both accepted whole, one inside the other: the stream is the
concatenation of the two in neither order. -/
theorem scritture_alternate : ∃ c, Corsa Muto c ∧ c.pty.usata = true ∧ c.pty.t.onlcr = true ∧
      c.preseDi 0 = List.replicate 1025 65 ∧ c.preseDi 1 = [66] ∧
      c.lettiMaster ++ c.pty.uscita.contenuto ≠
        (c.preseDi 0 ++ c.preseDi 1).flatMap (espandi true) ∧
      c.lettiMaster ++ c.pty.uscita.contenuto ≠
        (c.preseDi 1 ++ c.preseDi 0).flatMap (espandi true) := by
  have corsa : Corsa Muto alternate :=
    (muto_corsa (by simp [apreMuto, Muto])).esegui scrivonoInDue (by simp [scrivonoInDue, Muto])
  have used : alternate.pty.usata = true := by decide +kernel
  refine ⟨alternate, corsa, used, by decide +kernel, by decide +kernel, by decide +kernel, ?_, ?_⟩
  · rw [corsa.flusso.flusso used]
    decide +kernel
  · decide +kernel

end Terminale

end ExOs.Ipc
