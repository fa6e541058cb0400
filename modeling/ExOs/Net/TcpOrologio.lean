import ExOs.Net.TcpFinestra

/-!
# The clock of the retransmission

It is set and cleared in six places, each with its own test.  Three things set
them apart: a window of zero with nothing in flight, a confirmation of
everything after a time-out went back to `snd_una`, and a deadline that falls
on zero, which means off.
-/

namespace ExOs.Net

open ExOs.Library List

/-- Bytes, or a FIN decided and not confirmed. -/
def Dovuto (c : Conn) : Prop := c.tx ≠ [] ∨ (c.chiude = true ∧ c.finVisto = false)

def Nuova (c : Conn) (a : Arrivo) : Prop := a.flag.ack = true ∧ seqPrima c.sndUna a.ack = true

structure ArrivoRegolare (c : Conn) (ore : Ore) (a : Arrivo) : Prop where
  conferma : ore.conferma + tcpRtoMs ≠ 0
  spingi : ore.spingi + tcpRtoMs ≠ 0
  -- What empties the queue confirms just what was sent.
  tutto : Nuova c a → c.chiude = false → c.txLen ≤ a.ack - c.sndUna → a.ack = c.sndNxt
  -- Nothing after our FIN is confirmed.
  fin : Nuova c a → c.chiude = true → a.ack - c.sndUna ≤ c.finSeq + 1 - c.sndUna
  -- With bytes left and nothing in flight the window is not zero.
  finestra : Nuova c a → a.ack = c.sndNxt → a.ack - c.sndUna < c.txLen → a.finestra.toUInt32 ≠ 0

def Regolato (c : Conn) : EventoTcp → Prop
  | .segmento _ ore a => c.spinge = true → a.flag.rst = false → ArrivoRegolare c ore a
  | .scadenza _ ora _ => c.spinge = true → ora + c.rtoMs * 2 ≠ 0
  | .invia _ ora dati =>
    c.spinge = true → dati ≠ [] → ora + tcpRtoMs ≠ 0 ∧ (c.tx = [] → c.finestra ≠ 0)
  | .mezza _ ore | .chiudi _ ore | .finOrfana _ ore => c.spinge = true → ore.fin + tcpRtoMs ≠ 0
  | _ => True

/-! ## The invariant -/

/-- The clock of a connection that may still be given bytes. -/
structure ApertaGiusta (m : Mittente) : Prop where
  finDentro : m.finFuori = false
  rto : m.rtoScade ≠ 0 ↔ m.tx ≠ []
  ferma : m.tx = [] → m.sndUna = m.sndNxt

theorem ApertaGiusta.vuota {m : Mittente} (giusta : ApertaGiusta m) (off : m.rtoScade = 0) :
    m.tx = [] := by
  by_contra queue
  exact absurd off (giusta.rto.mpr queue)

/-- Where the FIN stands after a call. -/
structure AddioForma (m : Mittente) : Prop where
  fuori : m.finFuori = true → m.sndNxt = m.finSeq + 1
  dentro : m.finFuori = true ∨ m.sndNxt ≠ m.finSeq

/-- The clock of a connection whose FIN is decided. -/
structure AddioGiusto (m : Mittente) : Prop extends AddioForma m where
  resta : (m.sndUna = m.finSeq + 1 ∧ m.tx = [] ∧ m.rtoScade = 0) ∨
    (m.sndUna + UInt32.ofNat m.tx.length = m.finSeq ∧ m.rtoScade ≠ 0)

/-- Nothing is in flight, and a call sends something if it must. -/
def Inizio (m : Mittente) : Prop := m.sndUna = m.sndNxt ∧ (m.tx = [] ∨ m.finestra ≠ 0)

structure Regolare (m : Mittente) : Prop where
  corta : m.tx.length ≤ 4096
  nascente : m.stato = .synInvia ∨ m.stato = .synRicev → m.tx = [] ∧ m.finFuori = false
  aperta : m.stato = .aperta ∨ m.stato = .finSuo → ApertaGiusta m
  addio : m.stato = .finMio ∨ m.stato = .ultimoAck → AddioGiusto m

section Facts

variable {c : Conn}

theorem spinge_avviata (spinge : c.spinge = true) :
    ¬(c.stato = .synInvia ∨ c.stato = .synRicev) := by
  rintro (newborn | newborn) <;> rw [Conn.spinge, Conn.chiude, newborn] at spinge <;>
    exact absurd spinge (by decide)

theorem finVisto_of_confermato (seen : c.sndUna = c.finSeq + 1) : c.finVisto = true := by
  rw [Conn.finVisto, seen, seqPrima, UInt32.sub_self]
  rfl

theorem finVisto_of_coda (corta : c.tx.length ≤ 4096) (behind : c.sndUna + c.txLen = c.finSeq) :
    c.finVisto = false := by
  have isLen := Conn.toNat_txLen corta
  have isFin : c.finSeq + 1 = seqNumber c.sndUna (c.tx.length + 1) := by
    rw [← behind, ← isLen]
    show c.sndUna + c.txLen + 1 = c.sndUna + UInt32.ofNat (c.txLen.toNat + 1)
    have split : UInt32.ofNat (c.txLen.toNat + 1) = c.txLen + 1 := by
      rfl
    grind
  have fst : seqPrima (seqNumber c.sndUna 0) (seqNumber c.sndUna (c.tx.length + 1)) = true :=
    (isNegative_seqNumber c.sndUna (by omega) (by omega)).mpr (Nat.succ_pos _)
  rw [seqNumber_zero] at fst
  rw [Conn.finVisto, isFin, fst]
  rfl

theorem Regolare.acceso (regular : Regolare c.mittente) (spinge : c.spinge = true) :
    c.rtoScade ≠ 0 ↔ Dovuto c := by
  rcases spinge_iff.mp spinge with isOpen | closing
  · have giusta := regular.aperta isOpen
    have notClosing := not_chiude_of_aperta isOpen
    refine giusta.rto.trans ⟨.inl, ?_⟩
    rintro (queue | ⟨closing, _⟩)
    · exact queue
    · rw [notClosing] at closing
      cases closing
  · have giusto := regular.addio (chiude_iff.mp closing)
    rcases giusto.resta with ⟨seen, empty, off⟩ | ⟨behind, on⟩
    · have isSeen := finVisto_of_confermato (c := c) seen
      refine ⟨fun on => absurd off on, ?_⟩
      rintro (queue | ⟨_, unseen⟩)
      · exact absurd empty queue
      · rw [isSeen] at unseen
        cases unseen
    · exact ⟨fun _ => .inr ⟨closing, finVisto_of_coda regular.corta behind⟩, fun _ => on⟩

end Facts

/-! ## A call of `tcp_spingi` -/

section Call

variable {c : Conn} {ora : UInt32}

theorem orologio_mittente : ∃ rto ms n, (orologio ora c).mittente =
        { c.mittente with rtoScade := rto, rtoMs := ms, tentativi := n } ∧
      (ora + tcpRtoMs ≠ 0 ∨ c.rtoScade ≠ 0 → rto ≠ 0) := by
  rw [orologio]
  split
  · next off =>
    exact ⟨_, _, _, rfl, fun given => given.resolve_right (not_not.mpr off)⟩
  · next off =>
    exact ⟨_, _, _, rfl, fun _ => off⟩

theorem Ferma.vuota_di_inizio (ferma : Ferma c) (spinge : c.spinge = true)
    (finDentro : c.finFuori = false) (corta : c.tx.length ≤ 4096) (inizio : Inizio c.mittente) :
    c.tx = [] ∧ ¬(c.chiude = true ∧ c.sndNxt = c.finSeq) := by
  have absent : c.inviati = 0 := by
    rw [Conn.inviati, show c.sndUna = c.sndNxt from inizio.1]
    exact UInt32.sub_self _
  cases ferma with
  | stato stopped => cases spinge.symm.trans stopped
  | finFuori out => cases finDentro.symm.trans out
  | vuota empty notFin =>
    refine ⟨?_, notFin⟩
    rw [absent] at empty
    have isLen := Conn.toNat_txLen corta
    have small := UInt32.le_iff_toNat_le.mp empty
    rw [isLen] at small
    exact eq_nil_of_length_eq_zero (Nat.le_zero.mp small)
  | finestra more closed =>
    rw [absent] at closed more
    rcases inizio.2 with empty | isOpen
    · rw [Conn.txLen, show c.tx = [] from empty] at more
      exact absurd more (UInt32.lt_irrefl 0)
    · exact absurd closed isOpen

theorem Partiti.piena {c' : Conn} {segs : List Segmento} (partiti : Partiti c c' segs) :
    c.tx ≠ [] := by
  intro empty
  have pos := partiti.positivi
  have le := partiti.entro
  rw [empty] at le
  have zero : c.inviati.toNat + c.ammessi.toNat ≤ 0 := le
  omega

variable (amb : Ambiente)

theorem spingi_aperta (corta : c.tx.length ≤ 4096)
    (isOpen : c.stato = .aperta ∨ c.stato = .finSuo) (finDentro : c.finFuori = false)
    (clock : c.rtoScade = 0 → ora + tcpRtoMs ≠ 0) (on : c.rtoScade ≠ 0 → c.tx ≠ [])
    (off : c.rtoScade = 0 → Inizio c.mittente) :
    ApertaGiusta (tcpSpingi amb ora c).1.mittente := by
  have spinge : c.spinge = true := spinge_iff.mpr (.inl isOpen)
  have notClosing := not_chiude_of_aperta isOpen
  have spinta := tcpSpingi_spinta amb ora corta
  generalize tcpSpingi amb ora c = r at spinta
  cases spinta with
  | ferma ferma =>
    by_cases isOff : c.rtoScade = 0
    · have empty := (ferma.vuota_di_inizio spinge finDentro corta (off isOff)).1
      exact ⟨finDentro, ⟨fun wrong => absurd isOff wrong, fun wrong => absurd empty wrong⟩,
        fun _ => (off isOff).1⟩
    · have queue := on isOff
      exact ⟨finDentro, ⟨fun _ => queue, fun _ => isOff⟩, fun empty => absurd empty queue⟩
  | fin _ _ _ closing _ =>
    rw [notClosing] at closing
    cases closing
  | @dati c' segs partiti _ =>
    have queue := partiti.piena
    obtain ⟨rto, ms, n, isClock, running⟩ := orologio_mittente
    have same := partiti.isMittente
    have sameRto : c'.rtoScade = c.rtoScade := congrArg Mittente.rtoScade same
    have isOn : rto ≠ 0 := by
      apply running
      by_cases isOff : c.rtoScade = 0
      · exact .inl (clock isOff)
      · exact .inr (by rw [sameRto]; exact isOff)
    rw [isClock, same]
    exact ⟨finDentro, ⟨fun _ => queue, fun _ => isOn⟩, fun empty => absurd empty queue⟩
  | datiFin _ closing _ =>
    rw [notClosing] at closing
    cases closing

theorem AddioForma.orologio {k : Conn} (forma : AddioForma k.mittente) (ora : UInt32) :
    AddioForma (orologio ora k).mittente := by
  obtain ⟨rto, ms, n, isClock, _⟩ := orologio_mittente
  rw [isClock]
  exact ⟨forma.fuori, forma.dentro⟩

theorem finDentro_di_inizio (corta : c.tx.length ≤ 4096) (start : c.sndUna = c.sndNxt)
    (fuori : c.finFuori = true → c.sndNxt = c.finSeq + 1) (behind : c.sndUna + c.txLen = c.finSeq) :
    c.finFuori = false := by
  rw [Bool.eq_false_iff]
  intro out
  have isLen := Conn.toNat_txLen corta
  have turn : c.txLen + 1 = 0 := by grind
  have value := congrArg UInt32.toNat turn
  rw [UInt32.toNat_add, isLen] at value
  change (c.tx.length + 1) % 2 ^ 32 = 0 at value
  omega

theorem spingi_addio (corta : c.tx.length ≤ 4096)
    (closing : c.chiude = true) (fuori : c.finFuori = true → c.sndNxt = c.finSeq + 1)
    (behind : c.sndUna + c.txLen = c.finSeq) :
    AddioForma (tcpSpingi amb ora c).1.mittente ∧
      ((c.rtoScade = 0 → ora + tcpRtoMs ≠ 0 ∧ Inizio c.mittente) →
        (tcpSpingi amb ora c).1.rtoScade ≠ 0) := by
  have spinge : c.spinge = true := spinge_iff.mpr (.inr closing)
  have spinta := tcpSpingi_spinta amb ora corta
  generalize tcpSpingi amb ora c = r at spinta
  -- After bytes or the FIN the clock runs.
  have running : ∀ {k : Conn}, k.rtoScade = c.rtoScade →
      (c.rtoScade = 0 → ora + tcpRtoMs ≠ 0 ∧ Inizio c.mittente) →
        (orologio ora k).rtoScade ≠ 0 := by
    intro k sameRto off
    obtain ⟨rto, ms, n, isClock, running⟩ := orologio_mittente
    have isRto : (orologio ora k).rtoScade = rto := congrArg Mittente.rtoScade isClock
    rw [isRto]
    apply running
    rw [sameRto]
    by_cases isOff : c.rtoScade = 0
    · exact .inl (off isOff).1
    · exact .inr isOff
  cases spinta with
  | ferma ferma =>
    refine ⟨⟨fuori, ?_⟩, fun off isOff => ?_⟩
    · cases ferma with
      | stato stopped => cases spinge.symm.trans stopped
      | finFuori out => exact .inl out
      | vuota _ notFin => exact .inr fun isFin => notFin ⟨closing, isFin⟩
      | finestra more _ =>
        refine .inr fun isFin => ?_
        change c.sndNxt = c.finSeq at isFin
        have all : c.inviati = c.txLen := by
          rw [Conn.inviati]
          grind
        rw [all] at more
        exact UInt32.lt_irrefl _ more
    · have inizio := (off isOff).2
      have start : c.sndUna = c.sndNxt := inizio.1
      have finDentro := finDentro_di_inizio corta start fuori behind
      obtain ⟨empty, notFin⟩ := ferma.vuota_di_inizio spinge finDentro corta inizio
      have zero : c.txLen = 0 := by
        rw [Conn.txLen, empty]
        rfl
      grind
  | fin _ _ _ _ _ =>
    exact ⟨AddioForma.orologio ⟨fun _ => rfl, .inl rfl⟩ ora, running rfl⟩
  | @dati c' segs partiti notFin =>
    have same := partiti.isMittente
    have inside : c'.finFuori = false := (congrArg Mittente.finFuori same).trans partiti.finDentro
    have sameFin : c'.finSeq = c.finSeq := congrArg Mittente.finSeq same
    have forma : AddioForma c'.mittente := by
      refine ⟨fun out => ?_, .inr fun isFin => notFin ⟨closing, ?_⟩⟩
      · cases inside.symm.trans out
      · exact isFin.trans sameFin
    exact ⟨forma.orologio ora, running (congrArg Mittente.rtoScade same)⟩
  | @datiFin c' segs partiti _ _ =>
    exact ⟨AddioForma.orologio ⟨fun _ => rfl, .inl rfl⟩ ora,
      running (congrArg Mittente.rtoScade partiti.isMittente)⟩

theorem tcpSpingi_confermata (ora : UInt32) (corta : c.tx.length ≤ 4096)
    (empty : c.tx = []) (out : c.finFuori = true ∨ c.sndNxt ≠ c.finSeq) :
    (tcpSpingi amb ora c).1 = c := by
  have spinta := tcpSpingi_spinta amb ora corta
  generalize tcpSpingi amb ora c = r at spinta
  cases spinta with
  | ferma _ => rfl
  | fin _ finDentro _ _ isFin =>
    rcases out with isOut | notFin
    · cases finDentro.symm.trans isOut
    · exact absurd isFin notFin
  | dati partiti _ | datiFin partiti _ _ => exact absurd empty partiti.piena

/-- A connection that has taken a confirmation. -/
structure Confermata (m : Mittente) : Prop where
  corta : m.tx.length ≤ 4096
  avviata : ¬(m.stato = .synInvia ∨ m.stato = .synRicev)
  aperta : m.stato = .aperta ∨ m.stato = .finSuo →
    m.finFuori = false ∧ (m.rtoScade ≠ 0 → m.tx ≠ []) ∧ (m.rtoScade = 0 → Inizio m)
  fuori : m.stato = .finMio ∨ m.stato = .ultimoAck → m.finFuori = true → m.sndNxt = m.finSeq + 1
  addio : m.stato = .finMio ∨ m.stato = .ultimoAck →
    (m.sndUna = m.finSeq + 1 ∧ m.tx = [] ∧ (m.finFuori = true ∨ m.sndNxt ≠ m.finSeq)) ∨
      (m.sndUna + UInt32.ofNat m.tx.length = m.finSeq ∧ (m.rtoScade = 0 → Inizio m))

/-- From there a call gives the invariant back, once a FIN that is confirmed has put
the clock out. -/
theorem Confermata.spingi (confermata : Confermata c.mittente) (amb : Ambiente)
    (clock : c.rtoScade = 0 → ora + tcpRtoMs ≠ 0)
    (seen : c.stato = .finMio ∨ c.stato = .ultimoAck → c.sndUna = c.finSeq + 1 → c.rtoScade = 0) :
    Regolare (tcpSpingi amb ora c).1.mittente := by
  have corta : c.tx.length ≤ 4096 := confermata.corta
  obtain ⟨nxt, fuori, rto, ms, n, same⟩ := tcpSpingi_mittente amb ora corta
  have sameStato : (tcpSpingi amb ora c).1.mittente.stato = c.stato := congrArg Mittente.stato same
  refine ⟨?_, fun newborn => ?_, fun isOpen => ?_, fun closing => ?_⟩
  · rw [same]
    exact corta
  · rw [sameStato] at newborn
    exact absurd newborn confermata.avviata
  · rw [sameStato] at isOpen
    obtain ⟨finDentro, on, off⟩ := confermata.aperta isOpen
    exact spingi_aperta amb corta isOpen finDentro clock on off
  · rw [sameStato] at closing
    have isClosing : c.chiude = true := chiude_iff.mpr closing
    have fuori : c.finFuori = true → c.sndNxt = c.finSeq + 1 := confermata.fuori closing
    rcases confermata.addio closing with ⟨isSeen, empty, out⟩ | ⟨behind, off⟩
    · -- All is confirmed: the call does nothing.
      have isOff : c.rtoScade = 0 := seen closing isSeen
      have quiet := tcpSpingi_confermata amb ora corta empty out
      rw [quiet]
      exact ⟨⟨fuori, out⟩, .inl ⟨isSeen, empty, isOff⟩⟩
    · obtain ⟨forma, on⟩ := spingi_addio amb corta isClosing fuori behind
      refine ⟨forma, .inr ⟨?_, on fun isOff => ⟨clock isOff, off isOff⟩⟩⟩
      rw [same]
      exact behind

end Call

/-! ## A segment -/

section Segment

variable {c : Conn} {ore : Ore} {a : Arrivo}

theorem Regolare.vecchia (regular : Regolare c.mittente) (spinge : c.spinge = true)
    (finestra : UInt32) : Confermata { c.mittente with finestra := finestra } := by
  constructor
  · exact regular.corta
  · exact spinge_avviata spinge
  · intro isOpen
    have giusta := regular.aperta isOpen
    refine ⟨giusta.finDentro, giusta.rto.mp, fun off => ?_⟩
    have empty := giusta.vuota off
    exact ⟨giusta.ferma empty, .inl empty⟩
  · intro closing
    exact (regular.addio closing).fuori
  · intro closing
    have giusto := regular.addio closing
    rcases giusto.resta with ⟨seen, empty, _⟩ | ⟨behind, on⟩
    · exact .inl ⟨seen, empty, giusto.dentro⟩
    · exact .inr ⟨behind, fun off => absurd off on⟩

variable {ack : UInt32} {m : Mittente}

section

variable (corta : c.tx.length ≤ 4096)

include corta

theorem drop_confermati :
    c.tx.drop (c.confermati ack).toNat = c.tx.drop (ack - c.sndUna).toNat := by
  have isLen := Conn.toNat_txLen corta
  rw [Conn.confermati]
  split
  · next more =>
    rw [isLen, drop_length]
    have less := UInt32.lt_iff_toNat_lt.mp more
    rw [drop_eq_nil_of_le (by omega)]
  · rfl

theorem drop_tutto (all : ¬ack - c.sndUna < c.txLen) : c.tx.drop (ack - c.sndUna).toNat = [] := by
  have isLen := Conn.toNat_txLen corta
  have less := UInt32.le_iff_toNat_le.mp (UInt32.not_lt.mp all)
  exact drop_eq_nil_of_le (by omega)

theorem drop_resto (more : ack - c.sndUna < c.txLen) : c.tx.drop (ack - c.sndUna).toNat ≠ [] := by
  have isLen := Conn.toNat_txLen corta
  have less := UInt32.lt_iff_toNat_lt.mp more
  intro empty
  have length := congrArg List.length empty
  rw [length_drop, length_nil] at length
  omega

theorem coda_avanti (inside : ¬c.txLen < ack - c.sndUna) :
    ack + UInt32.ofNat (c.tx.drop (ack - c.sndUna).toNat).length = c.sndUna + c.txLen := by
  have isLen := Conn.toNat_txLen corta
  have rest : UInt32.ofNat (c.tx.drop (ack - c.sndUna).toNat).length =
    c.txLen - (ack - c.sndUna) := by
    apply UInt32.toNat_inj.mp
    rw [UInt32.toNat_sub_of_le _ _ (UInt32.not_lt.mp inside), UInt32.toNat_ofNat', length_drop]
    omega
  grind

end

theorem ArrivoRegolare.inizio (arrivo : ArrivoRegolare c ore a) (nuova : Nuova c a)
    (corta : c.tx.length ≤ 4096) (all : a.ack = c.sndNxt) :
    c.tx.drop (a.ack - c.sndUna).toNat = [] ∨ a.finestra.toUInt32 ≠ 0 := by
  by_cases more : a.ack - c.sndUna < c.txLen
  · exact .inr (arrivo.finestra nuova all more)
  · exact .inl (drop_tutto corta more)

theorem Regolare.nuova (regular : Regolare c.mittente) (spinge : c.spinge = true)
    (arrivo : ArrivoRegolare c ore a) (new : Nuova c a) :
    Confermata (tcpConferma ore.conferma (c.vede a) a.ack).mittente := by
  have corta : c.tx.length ≤ 4096 := regular.corta
  rw [tcpConferma_mittente (c := c.vede a) ore.conferma new.2]
  have isTx : c.tx.drop (c.confermati a.ack).toNat = c.tx.drop (a.ack - c.sndUna).toNat :=
    drop_confermati corta
  have clockOff : (if a.ack = c.sndNxt then (0 : UInt32) else ore.conferma + tcpRtoMs) = 0 →
      a.ack = c.sndNxt := by
    intro off
    by_contra other
    rw [if_neg other] at off
    exact arrivo.conferma off
  constructor
  · show (c.tx.drop (c.confermati a.ack).toNat).length ≤ 4096
    rw [length_drop]
    omega
  · exact spinge_avviata spinge
  · intro isOpen
    have giusta := regular.aperta isOpen
    refine ⟨giusta.finDentro, ?_, ?_⟩
    · intro on
      show c.tx.drop (c.confermati a.ack).toNat ≠ []
      rw [isTx]
      apply drop_resto corta
      by_contra all
      have isAll := arrivo.tutto new (not_chiude_of_aperta isOpen) (UInt32.not_lt.mp all)
      exact absurd (if_pos isAll) on
    · intro off
      refine ⟨clockOff off, ?_⟩
      show c.tx.drop (c.confermati a.ack).toNat = [] ∨ _
      rw [isTx]
      exact arrivo.inizio new corta (clockOff off)
  · intro closing
    exact (regular.addio closing).fuori
  · intro closing
    have giusto := regular.addio closing
    have limit := arrivo.fin new (chiude_iff.mpr closing)
    rcases giusto.resta with ⟨seen, _, _⟩ | ⟨behind, _⟩
    · -- Everything was confirmed already.
      have isSeen : c.sndUna = c.finSeq + 1 := seen
      have wrong : seqPrima c.sndUna a.ack = true := new.2
      have same : c.sndUna = a.ack := by grind
      rw [same, seqPrima, UInt32.sub_self] at wrong
      nomatch wrong
    · have isBehind : c.sndUna + c.txLen = c.finSeq := behind
      by_cases all : c.txLen < a.ack - c.sndUna
      · refine .inl ⟨?_, ?_, giusto.dentro⟩
        · show a.ack = c.finSeq + 1
          grind
        · show c.tx.drop (c.confermati a.ack).toNat = []
          rw [isTx]
          exact drop_tutto corta fun more => UInt32.lt_irrefl _ (UInt32.lt_trans more all)
      · refine .inr ⟨?_, ?_⟩
        · show a.ack + UInt32.ofNat (c.tx.drop (c.confermati a.ack).toNat).length = c.finSeq
          rw [isTx, coda_avanti corta all]
          exact behind
        · intro off
          refine ⟨clockOff off, ?_⟩
          show c.tx.drop (c.confermati a.ack).toNat = [] ∨ _
          rw [isTx]
          exact arrivo.inizio new corta (clockOff off)

theorem Confermata.conStato (confermata : Confermata m)
    (closing : m.stato = .finMio) : Confermata { m with stato := .ultimoAck } :=
  ⟨confermata.corta, of_decide_eq_false rfl, nofun,
    fun _ => confermata.fuori (.inl closing), fun _ => confermata.addio (.inl closing)⟩

theorem Confermata.finSuo (confermata : Confermata m)
    (isOpen : m.stato = .aperta) : Confermata { m with stato := .finSuo } :=
  ⟨confermata.corta, of_decide_eq_false rfl, fun _ => confermata.aperta (.inl isOpen), nofun, nofun⟩

theorem Confermata.morta (confermata : Confermata m) (rto : UInt32) :
    Confermata { m with stato := .morta, rtoScade := rto } :=
  ⟨confermata.corta, of_decide_eq_false rfl, nofun, nofun, nofun⟩

theorem Confermata.trattaFin (confermata : Confermata c.mittente) (amb : Ambiente) (a : Arrivo) :
    Confermata (Net.trattaFin amb c a).1.mittente := by
  rcases trattaFin_mittente with same | ⟨isOpen, same⟩ | ⟨_, _, same⟩ | ⟨closing, _, same⟩
  · rw [same]
    exact confermata
  · rw [same]
    exact confermata.finSuo isOpen
  · rw [same]
    exact confermata.morta 0
  · rw [same]
    exact confermata.conStato closing

theorem Confermata.finVisto (confermata : Confermata c.mittente) (ora : UInt32) :
    Confermata (trattaFinVisto ora c).mittente ∧
      ((trattaFinVisto ora c).stato = .finMio ∨ (trattaFinVisto ora c).stato = .ultimoAck →
        (trattaFinVisto ora c).sndUna = (trattaFinVisto ora c).finSeq + 1 →
          (trattaFinVisto ora c).rtoScade = 0) := by
  have isMittente := trattaFinVisto_mittente ora c
  split at isMittente
  · next seen =>
    refine ⟨?_, fun _ _ => congrArg Mittente.rtoScade isMittente⟩
    rw [isMittente]
    split
    · exact confermata.morta 0
    rename_i isUltimo
    have isMio : c.stato = .finMio := (chiude_iff.mp seen.1).resolve_right isUltimo
    have isSeen : c.sndUna = c.finSeq + 1 ∧ c.tx = [] ∧
      (c.finFuori = true ∨ c.sndNxt ≠ c.finSeq) := by
      refine (confermata.addio (.inl isMio)).resolve_right fun behind => ?_
      have unseen := finVisto_of_coda confermata.corta behind.1
      cases unseen.symm.trans seen.2
    refine { confermata with aperta := ?_, addio := fun _ => .inl isSeen }
    intro isOpen
    rw [isMio] at isOpen
    nomatch isOpen
  · next seen =>
    rw [isMittente]
    refine ⟨confermata, fun closing isSeen => ?_⟩
    have sameStato : (trattaFinVisto ora c).stato = c.stato := congrArg Mittente.stato isMittente
    have sameUna : (trattaFinVisto ora c).sndUna = c.sndUna := congrArg Mittente.sndUna isMittente
    have sameFin : (trattaFinVisto ora c).finSeq = c.finSeq := congrArg Mittente.finSeq isMittente
    rw [sameStato] at closing
    rw [sameUna, sameFin] at isSeen
    exact absurd ⟨chiude_iff.mpr closing, finVisto_of_confermato isSeen⟩ seen

theorem Regolare.trattaAperta (regular : Regolare c.mittente) (spinge : c.spinge = true)
    (amb : Ambiente) (arrivo : ArrivoRegolare c ore a) :
    Regolare (tcpSpingi amb ore.spingi (Net.trattaAperta amb ore (c.vede a) a).1).1.mittente := by
  have data : Confermata (presa amb ore c a).mittente := by
    rw [presa, trattaDati_mittente, dopoConferma]
    split
    · next isAck =>
      by_cases new : seqPrima c.sndUna a.ack = true
      · exact regular.nuova spinge arrivo ⟨isAck, new⟩
      · rw [tcpConferma_old (c := c.vede a) ore.conferma (Bool.eq_false_iff.mpr new)]
        exact regular.vecchia spinge _
    · exact regular.vecchia spinge _
  obtain ⟨closed, seen⟩ := (data.trattaFin amb a).finVisto ore.fin2
  exact closed.spingi amb (fun _ => arrivo.spingi) seen

end Segment

/-! ## The other events -/

section Events

variable {c : Conn} {m : Mittente}

theorem Regolare.inerte (corta : m.tx.length ≤ 4096)
    (avviata : ¬(m.stato = .synInvia ∨ m.stato = .synRicev))
    (notAperta : ¬(m.stato = .aperta ∨ m.stato = .finSuo))
    (notAddio : ¬(m.stato = .finMio ∨ m.stato = .ultimoAck)) : Regolare m :=
  ⟨corta, fun newborn => absurd newborn avviata, fun isOpen => absurd isOpen notAperta,
    fun closing => absurd closing notAddio⟩

theorem Regolare.morta (corta : m.tx.length ≤ 4096) (dead : m.stato = .morta) : Regolare m := by
  apply Regolare.inerte corta <;> rw [dead] <;> decide

theorem Regolare.conFinestra (regular : Regolare m) {finestra : UInt32} :
    Regolare { m with finestra := finestra } :=
  ⟨regular.corta, regular.nascente, fun isOpen =>
      have giusta := regular.aperta isOpen
      { giusta with },
    fun closing =>
      have giusto := regular.addio closing
      { giusto with }⟩

theorem Regolare.stabilita (regular : Regolare m)
    (newborn : m.stato = .synInvia ∨ m.stato = .synRicev)
    {ack : UInt32} (isNext : ack = m.sndNxt) :
    Regolare { m with sndUna := ack, stato := .aperta, rtoScade := 0 } := by
  obtain ⟨empty, finDentro⟩ := regular.nascente newborn
  refine ⟨regular.corta, nofun, fun _ => ?_, nofun⟩
  exact ⟨finDentro, ⟨fun wrong => absurd rfl wrong, fun queue => absurd empty queue⟩,
    fun _ => isNext⟩

variable {ora : UInt32}

theorem Regolare.riavvolta (regular : Regolare c.mittente) (on : c.rtoScade ≠ 0)
    (spinge : c.spinge = true) (clock : ora + c.rtoMs * 2 ≠ 0) :
    Confermata (Net.riavvolta ora c).mittente := by
  refine ⟨regular.corta, spinge_avviata spinge, ?_, fun _ => nofun, ?_⟩
  · intro isOpen
    have giusta := regular.aperta isOpen
    exact ⟨rfl, fun _ => giusta.rto.mp on, fun off => absurd off clock⟩
  · intro closing
    rcases (regular.addio closing).resta with ⟨_, _, off⟩ | ⟨behind, _⟩
    · exact absurd off on
    · exact .inr ⟨behind, fun off => absurd off clock⟩

section

variable (regular : Regolare c.mittente)

include regular

theorem Regolare.ripete (isInvia : c.stato = .synInvia) (nxt rto ms n : UInt32) :
    Regolare { c.mittente with sndNxt := nxt, rtoScade := rto, rtoMs := ms, tentativi := n } := by
  refine ⟨regular.corta, regular.nascente, fun isOpen => ?_, fun closing => ?_⟩
  · rw [show c.mittente.stato = .synInvia from isInvia] at isOpen
    nomatch isOpen
  · rw [show c.mittente.stato = .synInvia from isInvia] at closing
    nomatch closing

theorem Regolare.ritrasmette (on : c.rtoScade ≠ 0) (amb : Ambiente) (oraSpingi : UInt32)
    (clock : c.spinge = true → ora + c.rtoMs * 2 ≠ 0) :
    Regolare (tcpSpingi amb oraSpingi (Net.riavvolta ora c)).1.mittente := by
  by_cases spinge : c.spinge = true
  · refine (regular.riavvolta on spinge (clock spinge)).spingi amb ?_ ?_
    · exact fun off => absurd off (clock spinge)
    · intro closing seen
      -- The clock ran: the FIN is still to be confirmed.
      rcases (regular.addio closing).resta with ⟨_, _, off⟩ | ⟨behind, _⟩
      · exact absurd off on
      · have unseen := finVisto_of_coda (c := c) regular.corta behind
        have isSeen := finVisto_of_confermato (c := c) seen
        cases unseen.symm.trans isSeen
  · have quiet : tcpSpingi amb oraSpingi (Net.riavvolta ora c) = (Net.riavvolta ora c, []) := by
      have stopped : (Net.riavvolta ora c).spinge = false := Bool.eq_false_iff.mpr spinge
      rw [tcpSpingi, if_pos (by rw [stopped]; rfl)]
    rw [quiet]
    have notBoth := (not_congr spinge_iff).mp spinge
    refine ⟨regular.corta, fun newborn => ⟨(regular.nascente newborn).1, rfl⟩, ?_, ?_⟩
    · exact fun isOpen => absurd (.inl isOpen) notBoth
    · exact fun closing => absurd (.inr (chiude_iff.mpr closing)) notBoth

theorem Regolare.invia (amb : Ambiente) {dati : List UInt8}
    (isOpen : c.stato = .aperta ∨ c.stato = .finSuo)
    (accepted : tcpAccettati c dati ≠ []) (clock : ora + tcpRtoMs ≠ 0)
    (window : c.tx = [] → c.finestra ≠ 0) :
    Regolare (tcpSpingi amb ora { c with tx := c.tx ++ tcpAccettati c dati }).1.mittente := by
  have giusta := regular.aperta isOpen
  have notClosing : ¬(c.stato = .finMio ∨ c.stato = .ultimoAck) := fun closing =>
    Bool.noConfusion ((chiude_iff.mpr closing).symm.trans (not_chiude_of_aperta isOpen))
  have taken : Confermata ({ c with tx := c.tx ++ tcpAccettati c dati } : Conn).mittente := by
    refine ⟨tcpAccettati_corta regular.corta, spinge_avviata (spinge_iff.mpr (.inl isOpen)),
      fun _ => ?_,
      fun closing => absurd closing notClosing, fun closing => absurd closing notClosing⟩
    refine ⟨giusta.finDentro, fun _ => append_ne_nil_of_right_ne_nil _ accepted, ?_⟩
    intro off
    have empty := giusta.vuota off
    exact ⟨giusta.ferma empty, .inr (window empty)⟩
  exact taken.spingi amb (fun _ => clock) fun closing => absurd closing notClosing

theorem Regolare.mandaFin (amb : Ambiente) {ore : Ore}
    (clock : ore.fin + tcpRtoMs ≠ 0) : Regolare (tcpMandaFin amb ore c).1.mittente := by
  have corta : (finDeciso c).tx.length ≤ 4096 := regular.corta
  have closing : (finDeciso c).chiude = true := by
    rw [chiude_iff, finDeciso]
    split
    · exact .inr rfl
    · exact .inl rfl
  have behind : (finDeciso c).sndUna + (finDeciso c).txLen = (finDeciso c).finSeq := rfl
  obtain ⟨forma, _⟩ := spingi_addio amb corta closing nofun behind
  obtain ⟨nxt, fuori, rto, ms, n, same⟩ := tcpSpingi_mittente amb ore.spingi corta
  show Regolare { (tcpSpingi amb ore.spingi (finDeciso c)).1.mittente with
    rtoScade := ore.fin + tcpRtoMs, rtoMs := tcpRtoMs, tentativi := 0 }
  rw [same] at forma ⊢
  refine ⟨corta, ?_, ?_, fun _ => ⟨⟨forma.fuori, forma.dentro⟩, .inr ⟨behind, clock⟩⟩⟩
  · intro newborn
    exact absurd newborn (spinge_avviata (spinge_iff.mpr (.inr closing)))
  · intro isOpen
    exact absurd (closing.symm.trans (not_chiude_of_aperta isOpen)) (by decide)

theorem Regolare.passo {e : EventoTcp} (regolato : Regolato c e) :
    Regolare (passoTcp c e).1.mittente := by
  have effetto := passoTcp_effetto c e
  generalize passoTcp c e = r at effetto ⊢
  cases effetto with
  | fermo | chiuso => exact regular
  | muore _ _ dead =>
    rw [dead]
    exact Regolare.morta regular.corta rfl
  | nasce nascita _ =>
    rcases nascita.mittente with same | ⟨isNext, same⟩
    · rw [same]
      exact regular.conFinestra
    · rw [same]
      exact regular.conFinestra.stabilita (nascita.imp And.left And.left) isNext
  | aperta spinge noReset _ =>
    rw [tcpConsegna_mittente]
    exact regular.trattaAperta spinge _ (regolato spinge noReset)
  | ripete isInvia => exact regular.ripete isInvia _ _ _ _
  | ritrasmette on _ => exact regular.ritrasmette on _ _ regolato
  | @invia amb ora dati isOpen accepted _ =>
    have given : dati ≠ [] := by
      rintro rfl
      exact accepted take_nil
    obtain ⟨clock, window⟩ := regolato (spinge_iff.mpr (.inl isOpen)) given
    exact regular.invia amb isOpen accepted clock window
  | addio isOpen _ which =>
    have spinge := spinge_iff.mpr (.inl isOpen)
    apply Regolare.mandaFin
    · exact regular
    · rcases which with rfl | rfl | rfl <;> exact regolato spinge
  | riceve _ =>
    rw [tcpRicevi, tcpConsegna_mittente]
    exact regular
  | azzera =>
    exact Regolare.inerte (Nat.zero_le _) (of_decide_eq_false rfl) (of_decide_eq_false rfl)
      (of_decide_eq_false rfl)

end

theorem Nata.regolare (nata : Nata c) : Regolare c.mittente := by
  rcases nata with ⟨amb, ore, isn, cliente, scade, isC⟩ | ⟨amb, isn, a, isC⟩ <;> rw [isC] <;>
    exact ⟨Nat.zero_le _, fun _ => ⟨rfl, rfl⟩, nofun, nofun⟩

end Events

/-! ## Runs -/

/-- The clock runs exactly while something is owed, and a connection that owes
nothing is not given up for lost: only a FIN of the other side that never comes
ends it. -/
structure OrologioGiusto (c : Conn) : Prop where
  acceso : c.spinge = true → (c.rtoScade ≠ 0 ↔ Dovuto c)
  vivo : c.spinge = true → ¬Dovuto c → ∀ amb ora oraSpingi,
    (passoTcp c (.scadenza amb ora oraSpingi)).1.stato = c.stato ∨
      (c.stato = .finMio ∧ c.fin2Scade ≠ 0 ∧ scaduta ora c.fin2Scade = true)

theorem scadenza_spenta {c : Conn} (spinge : c.spinge = true)
    (off : c.rtoScade = 0) {amb : Ambiente}
    {ora oraSpingi : UInt32} :
    (passoTcp c (.scadenza amb ora oraSpingi)).1.stato = c.stato ∨
      (c.stato = .finMio ∧ c.fin2Scade ≠ 0 ∧ scaduta ora c.fin2Scade = true) := by
  have avviata := not_or.mp (spinge_avviata spinge)
  rw [passoTcp, tcpScadenza]
  split
  · exact .inl rfl
  split
  · next expired => exact .inr expired
  split
  · dsimp only
    rw [if_neg avviata.1]
    exact .inl rfl
  · rw [if_pos (.inl off)]
    exact .inl rfl

/-- Along every run whose steps keep to the condition. -/
theorem orologio_giusto {c : Conn}
    (reached : Reached Nata (fun c e c' => Regolato c e ∧ c' = (passoTcp c e).1) c) :
    OrologioGiusto c := by
  have regular : Regolare c.mittente := by
    apply reached.invariant fun c => Regolare c.mittente
    · exact fun fst nata => nata.regolare
    · rintro pre e after regular ⟨regolato, isAfter⟩
      rw [isAfter]
      exact regular.passo regolato
  refine ⟨regular.acceso, fun spinge quiet amb ora oraSpingi => ?_⟩
  have off : c.rtoScade = 0 := not_not.mp fun on => quiet ((regular.acceso spinge).mp on)
  exact scadenza_spenta spinge off

/-- The SYN of a peer with a window of `finestra` bytes has come. -/
def connAccolta (finestra : UInt16) : Conn :=
  (tcpNasce ambRiserva 0
    { seq := 0, ack := 0, flag := { syn := true }, finestra := finestra, dati := [] }).1

theorem connAccolta_nata {finestra : UInt16} : Nata (connAccolta finestra) := .inr ⟨_, _, _, rfl⟩

def arrivoAck (ora : UInt32) (ack : UInt32) (finestra : UInt16) : EventoTcp :=
  .segmento ambRiserva (oreAlle ora)
    { seq := 1, ack := ack, flag := { ack := true }, finestra := finestra, dati := [] }

def inviaTre (ora : UInt32) : EventoTcp := .invia ambRiserva ora [65, 66, 67]

def giroScadenze (ora : UInt32) : EventoTcp := .scadenza ambRiserva ora ora

theorem orologio_giusto_tre :
    OrologioGiusto ([arrivoAck 0 1 10, inviaTre 1, giroScadenze 700, arrivoAck 701 4 10].foldl
      (fun c e => (passoTcp c e).1) (connAccolta 10)) := by
  apply orologio_giusto
  apply Reached.foldl
  · exact Reached.start connAccolta_nata
  · refine ⟨fun spinge => absurd spinge (by decide +kernel),
      fun _ _ => ⟨by decide, fun _ => by decide +kernel⟩,
      fun _ => by decide +kernel, fun _ _ => ?_, trivial⟩
    exact ⟨by decide +kernel, by decide +kernel, fun _ _ _ => by decide +kernel,
      fun _ closing => absurd closing (by decide +kernel),
      fun _ _ more => absurd more (by decide +kernel)⟩

/-- Three bytes and a window of zero, after which a time-out finds all of them
confirmed at once. -/
def eventiChiusi : List EventoTcp :=
  [arrivoAck 0 1 10, inviaTre 1, arrivoAck 2 1 0, giroScadenze 700, arrivoAck 701 4 10]

/-- Behind a window of zero three bytes wait without a clock; and a clock that runs
for nothing ends an idle connection. -/
theorem orologio_sbagliato : (Reached Nata Passo
        ([arrivoAck 0 1 0, inviaTre 1].foldl (fun c e => (passoTcp c e).1) (connAccolta 0)) ∧
      ([arrivoAck 0 1 0, inviaTre 1].foldl (fun c e => (passoTcp c e).1) (connAccolta 0)).stato =
        .aperta ∧
      ([arrivoAck 0 1 0, inviaTre 1].foldl (fun c e => (passoTcp c e).1) (connAccolta 0)).tx =
        [65, 66, 67] ∧
      ([arrivoAck 0 1 0, inviaTre 1].foldl (fun c e => (passoTcp c e).1) (connAccolta 0)).rtoScade =
        0) ∧
    (Reached Nata Passo (eventiChiusi.foldl (fun c e => (passoTcp c e).1) (connAccolta 10)) ∧
      (eventiChiusi.foldl (fun c e => (passoTcp c e).1) (connAccolta 10)).stato = .aperta ∧
      (eventiChiusi.foldl (fun c e => (passoTcp c e).1) (connAccolta 10)).tx = [] ∧
      ([2000, 4000, 8000, 16000, 32000, 64000, 128000].foldl
        (fun c ora => (passoTcp c (giroScadenze ora)).1)
        (eventiChiusi.foldl (fun c e => (passoTcp c e).1) (connAccolta 10))).stato = .morta) := by
  refine ⟨⟨?_, by decide +kernel, by decide +kernel, by decide +kernel⟩,
    ⟨?_, by decide +kernel, by decide +kernel, by decide +kernel⟩⟩
  · exact Reached.foldlAll (Reached.start connAccolta_nata) _
  · exact Reached.foldlAll (Reached.start connAccolta_nata) _

end ExOs.Net
