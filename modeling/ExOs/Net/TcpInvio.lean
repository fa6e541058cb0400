import Mathlib.Algebra.Ring.Nat
import Mathlib.Data.UInt
import ExOs.Net.TcpEventi

/-!
# The stream that a connection sends

A position of the stream has one number.  The queue is the stream from the
first position not confirmed; a time-out goes back to it, and a confirmation
may then overtake the next position to send.  What leaves is always the stream
at its own number.
-/

namespace ExOs.Net

open ExOs.Library List

def fineSegmento (s : Segmento) : UInt32 :=
  s.seq + UInt32.ofNat s.dati.length + (if s.flag.syn then 1 else 0) + (if s.flag.fin then 1 else 0)

def alza (alto : UInt32) (s : Segmento) : UInt32 :=
  if seqPrima alto (fineSegmento s) then fineSegmento s else alto

/-- A connection with all that it accepted, all that it sent, the highest number
sent and the highest confirmation received. -/
structure Corsa where
  conn : Conn
  flusso : List UInt8
  log : List Segmento
  alto : UInt32
  confermato : UInt32

/-- The bytes that a call answers it has taken. -/
def accettati (c : Conn) : EventoTcp → List UInt8
  | .invia _ _ dati => if c.stato = .aperta ∨ c.stato = .finSuo then tcpAccettati c dati else []
  | _ => []

/-- The highest confirmation after an event.  A reset confirms nothing, and what
comes for a connection that is dead is not its own. -/
def Corsa.conferma (t : Corsa) : EventoTcp → UInt32
  | .segmento _ _ a =>
    if t.conn.inTabella ∧ ¬a.flag.rst ∧ a.flag.ack ∧ seqPrima t.confermato a.ack then a.ack
    else t.confermato
  | _ => t.confermato

def Corsa.passo (t : Corsa) (e : EventoTcp) : Corsa :=
  let r := passoTcp t.conn e
  { conn := r.1
    flusso := t.flusso ++ accettati t.conn e
    log := t.log ++ r.2
    alto := r.2.foldl alza t.alto
    confermato := t.conferma e }

/-- A confirmation is not beyond the highest number sent. -/
def Corsa.Onesto (t : Corsa) : EventoTcp → Prop
  | .segmento _ _ a => a.flag.ack = true → seqPrima t.alto a.ack = false
  | _ => True

/-- A connection just established: `isn` is the number of its first byte. -/
structure Stabilita (isn : UInt32) (t : Corsa) : Prop where
  stato : t.conn.stato = .aperta
  una : t.conn.sndUna = isn
  nxt : t.conn.sndNxt = isn
  tx : t.conn.tx = []
  finFuori : t.conn.finFuori = false
  flusso : t.flusso = []
  log : t.log = []
  alto : t.alto = isn
  confermato : t.confermato = isn

/-- The bytes of the segment are those of the stream at its number. -/
def Porta (isn : UInt32) (flusso : List UInt8) (s : Segmento) (o : Nat) : Prop :=
  s.seq = seqNumber isn o ∧ s.dati = (flusso.drop o).take s.dati.length ∧
    o + s.dati.length ≤ flusso.length

def Copre (isn : UInt32) (flusso : List UInt8) (s : Segmento) (p : Nat) : Prop :=
  ∃ o, Porta isn flusso s o ∧ o ≤ p ∧ p < o + s.dati.length

/-- All that was sent is right. -/
structure Registro (isn : UInt32) (flusso : List UInt8) (log : List Segmento) : Prop where
  dati : ∀ s ∈ log, s.dati ≠ [] → ∃ o, Porta isn flusso s o
  fin : ∀ prima s dopo, log = prima ++ s :: dopo → s.flag.fin = true →
    s.seq = seqNumber isn flusso.length ∧ s.dati = [] ∧
      ∀ p < flusso.length, ∃ d ∈ prima, Copre isn flusso d p

section Registro

variable {isn : UInt32} {flusso altri : List UInt8} {log segs : List Segmento} {s : Segmento}

theorem Porta.append {o : Nat} (porta : Porta isn flusso s o) (altri : List UInt8) :
    Porta isn (flusso ++ altri) s o := by
  obtain ⟨isSeq, isDati, le⟩ := porta
  refine ⟨isSeq, ?_, ?_⟩
  · rw [drop_append_of_le_length (by omega), take_append_of_le_length (by
      rw [length_drop]
      omega)]
    exact isDati
  · rw [length_append]
    omega

theorem Copre.append {p : Nat} (copre : Copre isn flusso s p) (altri : List UInt8) :
    Copre isn (flusso ++ altri) s p := by
  obtain ⟨o, porta, above, below⟩ := copre
  exact ⟨o, porta.append altri, above, below⟩

theorem append_eq_append_cons_cases {prima dopo : List Segmento}
    (isLog : log ++ segs = prima ++ s :: dopo) :
    (∃ tail, log = prima ++ s :: tail) ∨ ∃ inner, prima = log ++ inner ∧
      segs = inner ++ s :: dopo := by
  rcases append_eq_append_iff.mp isLog with ⟨inner, isPrima, isSegs⟩ | ⟨inner, isLog', isRest⟩
  · exact .inr ⟨inner, isPrima, isSegs⟩
  cases inner with
  | nil =>
    rw [append_nil] at isLog'
    exact .inr ⟨[], by rw [isLog', append_nil], isRest.symm⟩
  | cons head tail =>
    obtain ⟨isHead, _⟩ := List.cons.inj isRest
    rw [← isHead] at isLog'
    exact .inl ⟨tail, isLog'⟩

section

variable (registro : Registro isn flusso log)

include registro

theorem Registro.append (noFin : ∀ s ∈ log, s.flag.fin = false) (altri : List UInt8) :
    Registro isn (flusso ++ altri) log := by
  constructor
  · intro s mem ne
    obtain ⟨o, porta⟩ := registro.dati s mem ne
    exact ⟨o, porta.append altri⟩
  · intro prima s dopo isLog isFin
    have mem : s ∈ log := by
      rw [isLog]
      exact mem_append_right prima mem_cons_self
    rw [noFin s mem] at isFin
    cases isFin

theorem Registro.segmenti (noFin : ∀ s ∈ segs, s.flag.fin = false)
    (porta : ∀ s ∈ segs, s.dati ≠ [] → ∃ o, Porta isn flusso s o) :
    Registro isn flusso (log ++ segs) := by
  constructor
  · intro s mem ne
    rcases mem_append.mp mem with old | new
    · exact registro.dati s old ne
    · exact porta s new ne
  · intro prima s dopo isLog isFin
    rcases append_eq_append_cons_cases isLog with ⟨tail, isOld⟩ | ⟨inner, _, isSegs⟩
    · exact registro.fin prima s tail isOld isFin
    · have mem : s ∈ segs := by
        rw [isSegs]
        exact mem_append_right inner mem_cons_self
      rw [noFin s mem] at isFin
      cases isFin

theorem Registro.conFin (noDati : s.dati = []) (isSeq : s.seq = seqNumber isn flusso.length)
    (coperto : ∀ p < flusso.length, ∃ d ∈ log, Copre isn flusso d p) :
    Registro isn flusso (log ++ [s]) := by
  constructor
  · intro d mem ne
    rcases mem_append.mp mem with old | new
    · exact registro.dati d old ne
    · rw [mem_singleton.mp new] at ne
      exact absurd noDati ne
  · intro prima d dopo isLog isFin
    rcases append_eq_append_cons_cases isLog with ⟨tail, isOld⟩ | ⟨inner, isPrima, isSegs⟩
    · exact registro.fin prima d tail isOld isFin
    cases inner with
    | nil =>
      rw [append_nil] at isPrima
      obtain ⟨isD, _⟩ := List.cons.inj isSegs
      rw [← isD, isPrima]
      exact ⟨isSeq, noDati, coperto⟩
    | cons head tail =>
      have lengths := congrArg List.length isSegs
      simp at lengths

end

end Registro

/-! ## The invariant -/

/-- The sending side stands at the positions `u` (the first not confirmed), `x` (the
next to send) and `m` (the highest sent). -/
structure Invio (isn : UInt32) (flusso : List UInt8) (log : List Segmento) (alto : UInt32)
    (c : Mittente) (u x m : Nat) : Prop where
  una : c.sndUna = seqNumber isn u
  nxt : c.sndNxt = seqNumber isn x
  isAlto : alto = seqNumber isn m
  coda : c.tx = flusso.drop u
  corta : c.tx.length ≤ 4096
  nxtAlto : x ≤ m
  altoNxt : m ≤ x + 4097
  unaAlto : u ≤ m
  limite : m ≤ flusso.length + 1
  stabile : c.stato = .aperta ∨ c.stato = .finSuo ∨ c.stato = .finMio ∨ c.stato = .ultimoAck ∨
    c.stato = .morta
  aperta : c.stato = .aperta ∨ c.stato = .finSuo →
    m ≤ flusso.length ∧ c.finFuori = false ∧ ∀ s ∈ log, s.flag.fin = false
  finSeq : c.stato = .finMio ∨ c.stato = .ultimoAck → c.finSeq = seqNumber isn flusso.length
  finFuori : c.finFuori = true → x = flusso.length + 1
  registro : Registro isn flusso log
  coperti : ∀ p < m, p < flusso.length → ∃ s ∈ log, Copre isn flusso s p

/-- The sending side is right after it has sent, with nothing more confirmed. -/
def Prosegue (isn : UInt32) (flusso : List UInt8) (log : List Segmento) (alto : UInt32) (u : Nat)
    (r : Conn × List Segmento) : Prop :=
  ∃ x m, Invio isn flusso (log ++ r.2) (r.2.foldl alza alto) r.1.mittente u x m

section Invio

variable {isn alto : UInt32} {flusso : List UInt8} {log segs : List Segmento} {c c' : Mittente}
  {u x m : Nat} {s : Segmento} {seq : UInt32} {ack : UInt32}

section

variable (invio : Invio isn flusso log alto c u x m)

include invio

theorem Invio.vicini :
    c.tx.length = flusso.length - u ∧ flusso.length ≤ u + 4096 ∧ m ≤ u + 4097 ∧ u ≤ x + 4097 := by
  have isLength : c.tx.length = flusso.length - u := by rw [invio.coda, length_drop]
  have short := invio.corta
  have limit := invio.limite
  have fst := invio.unaAlto
  have snd := invio.altoNxt
  omega

theorem Invio.oltre_syn : c.stato ≠ .synRicev ∧ c.stato ≠ .synInvia := by
  rcases invio.stabile with isStato | isStato | isStato | isStato | isStato <;>
    exact ⟨by rw [isStato]; decide, by rw [isStato]; decide⟩

theorem Invio.conOrologio
    (finestra rtoScade rtoMs tentativi : UInt32) :
    Invio isn flusso log alto { c with
      finestra := finestra, rtoScade := rtoScade, rtoMs := rtoMs, tentativi := tentativi } u x m :=
  { invio with }

theorem Invio.conStato {stato : StatoTcp}
    (change : stato = .morta ∨ (c.stato = .aperta ∧ stato = .finSuo) ∨
      (c.stato = .finMio ∧ stato = .ultimoAck)) :
    Invio isn flusso log alto { c with stato := stato } u x m := by
  rcases change with rfl | ⟨wasOpen, rfl⟩ | ⟨wasMio, rfl⟩
  · exact { invio with
      stabile := .inr (.inr (.inr (.inr rfl)))
      aperta := nofun
      finSeq := nofun }
  · exact { invio with
      stabile := .inr (.inl rfl)
      aperta := fun _ => invio.aperta (.inl wasOpen)
      finSeq := nofun }
  · exact { invio with
      stabile := .inr (.inr (.inr (.inl rfl)))
      aperta := nofun
      finSeq := fun _ => invio.finSeq (.inl wasMio) }

end

theorem seqPrima_seqNumber (isn : UInt32) {p q : Nat} (below : p < q + 2 ^ 31)
    (above : q ≤ p + 2 ^ 31) : seqPrima (seqNumber isn p) (seqNumber isn q) = true ↔ p < q :=
  isNegative_seqNumber isn below above

theorem alza_seqNumber (isn : UInt32) {m p : Nat} (near : m ≤ p + 4097)
    (close : p ≤ m + 4097) (isEnd : fineSegmento s = seqNumber isn p) :
    alza (seqNumber isn m) s = seqNumber isn (max m p) := by
  have order := seqPrima_seqNumber isn (p := m) (q := p) (by omega) (by omega)
  rw [alza, isEnd]
  by_cases less : m < p
  · rw [if_pos (order.mpr less), Nat.max_eq_right (Nat.le_of_lt less)]
  · rw [if_neg fun wrong => less (order.mp wrong), Nat.max_eq_left (Nat.le_of_not_lt less)]

theorem SoloAck.fine (soloAck : SoloAck seq s) : fineSegmento s = seq := by
  rw [fineSegmento, soloAck.isSeq, soloAck.isFlag, soloAck.noDati]
  show seq + 0 + 0 + 0 = seq
  grind

theorem Invio.soloAck (invio : Invio isn flusso log alto c u x m)
    (acks : ∀ s ∈ segs, SoloAck c.sndNxt s) :
    Invio isn flusso (log ++ segs) (segs.foldl alza alto) c u x m := by
  have sameAlto : segs.foldl alza alto = alto := by
    have fst := invio.nxtAlto
    have snd := invio.altoNxt
    have step : ∀ s ∈ segs, alza alto s = alto := by
      intro s mem
      have isEnd := (acks s mem).fine
      rw [invio.nxt] at isEnd
      rw [invio.isAlto, alza_seqNumber isn snd (by omega) isEnd, Nat.max_eq_left fst]
    clear acks
    induction segs with
    | nil => rfl
    | cons s rest ih =>
      rw [foldl_cons, step s mem_cons_self]
      exact ih fun d mem => step d (mem_cons_of_mem s mem)
  have noFin : ∀ s ∈ segs, s.flag.fin = false := by
    intro s mem
    rw [(acks s mem).isFlag]
  rw [sameAlto]
  refine { invio with aperta := ?_, registro := ?_, coperti := ?_ }
  · intro still
    obtain ⟨limit, lt, old⟩ := invio.aperta still
    refine ⟨limit, lt, ?_⟩
    intro s mem
    rcases mem_append.mp mem with pre | new
    · exact old s pre
    · exact noFin s new
  · exact invio.registro.segmenti noFin fun s mem ne =>
      absurd (acks s mem).noDati ne
  · intro p below lt
    obtain ⟨s, mem, copre⟩ := invio.coperti p below lt
    exact ⟨s, mem_append_left _ mem, copre⟩

/-- The pieces of the queue from position `p` on: they carry the stream, cover it,
and raise the highest number to their end. -/
theorem Pezzi.porta {p k : Nat} {da : Nat} {tx : List UInt8}
    (pezzi : Pezzi tx seq da k segs) (isTx : tx = flusso.drop u) (isSeq : seq = seqNumber isn p)
    (isDa : p = u + da) (le : p + k ≤ flusso.length) (near : m ≤ p + 4097)
    (short : p + k ≤ m + 4097) :
    (∀ s ∈ segs, s.flag.fin = false ∧ ∃ o, Porta isn flusso s o) ∧
      (∀ j, p ≤ j → j < p + k → ∃ s ∈ segs, Copre isn flusso s j) ∧
      segs.foldl alza (seqNumber isn m) = seqNumber isn (max m (p + k)) ∨ k = 0 ∧ segs = [] := by
  induction pezzi generalizing p m with
  | nil => exact .inr ⟨rfl, rfl⟩
  | @cons seq da k q s segs pos sSeq sFlag sDati sLength rest ih =>
    have porta : Porta isn flusso s p := by
      refine ⟨sSeq.trans isSeq, ?_, ?_⟩
      · rw [sLength, isDa, ← drop_drop, ← isTx]
        exact sDati
      · omega
    have isEnd : fineSegmento s = seqNumber isn (p + q.toNat) := by
      have isLength : UInt32.ofNat s.dati.length = q := by
        rw [sLength]
        exact UInt32.ofNat_toNat
      rw [fineSegmento, sSeq, isSeq, seqNumber_add]
      grind
    have raised := alza_seqNumber isn (m := m) (p := p + q.toNat) (by omega) (by omega) isEnd
    have fst : ∀ j, p ≤ j → j < p + q.toNat → Copre isn flusso s j := by
      intro j above below
      exact ⟨p, porta, above, by omega⟩
    have noFin : s.flag.fin = false := by rw [sFlag]
    left
    rcases ih (p := p + q.toNat) (m := max m (p + q.toNat)) (by
        rw [isSeq, seqNumber_add]) (by omega) (by omega) (by omega) (by omega) with
      ⟨portano, coprono, alto⟩ | ⟨noMore, empty⟩
    · refine ⟨?_, ?_, ?_⟩
      · intro d mem
        rcases mem_cons.mp mem with isHead | inTail
        · rw [isHead]
          exact ⟨noFin, p, porta⟩
        · exact portano d inTail
      · intro j above below
        by_cases inFirst : j < p + q.toNat
        · exact ⟨s, mem_cons_self, fst j above inFirst⟩
        · obtain ⟨d, mem, copre⟩ := coprono j (by omega) (by omega)
          exact ⟨d, mem_cons_of_mem s mem, copre⟩
      · rw [foldl_cons, raised, alto]
        congr 1
        omega
    · rw [empty, noMore]
      refine ⟨?_, ?_, ?_⟩
      · intro d mem
        rw [mem_singleton.mp mem]
        exact ⟨noFin, p, porta⟩
      · intro j above below
        exact ⟨s, mem_cons_self, fst j above below⟩
      · rw [foldl_cons, raised]
        rfl

theorem Invio.joined {fst snd : List Segmento}
    (invio : Invio isn flusso (log ++ fst ++ snd) (snd.foldl alza (fst.foldl alza alto)) c u x m) :
    Invio isn flusso (log ++ (fst ++ snd)) ((fst ++ snd).foldl alza alto) c u x m := by
  rw [← append_assoc, foldl_append]
  exact invio

section

variable {c : Conn} (invio : Invio isn flusso log alto c.mittente u x m)

include invio

theorem Invio.inviati
    (restano : c.inviati < c.txLen) : u ≤ x ∧ c.inviati.toNat = x - u ∧ x < flusso.length := by
  obtain ⟨isLength, near, _, close⟩ := invio.vicini
  have fst := invio.nxtAlto
  have short := invio.corta
  change c.tx.length = flusso.length - u at isLength
  have less := UInt32.lt_iff_toNat_lt.mp restano
  rw [Conn.toNat_txLen short] at less
  have isNxt : c.sndNxt = seqNumber isn x := invio.nxt
  have isUna : c.sndUna = seqNumber isn u := invio.una
  by_cases ahead : u ≤ x
  · have difference : c.inviati.toNat = x - u := by
      rw [Conn.inviati, isNxt, isUna]
      exact seqNumber_sub ahead (by omega)
    exact ⟨ahead, difference, by omega⟩
  have difference : c.inviati.toNat = 2 ^ 32 - (u - x) := by
    rw [Conn.inviati, isNxt, isUna]
    exact seqNumber_sub_back (Nat.lt_of_not_le ahead) (by omega)
  omega

theorem Invio.partiti {c' : Conn} (partiti : Partiti c c' segs) :
    ∃ x' m', Invio isn flusso (log ++ segs) (segs.foldl alza alto) c'.mittente u x' m' := by
  obtain ⟨ahead, isInviati, lt⟩ := invio.inviati partiti.restano
  obtain ⟨isLength, near, nearAlto, _⟩ := invio.vicini
  have fst := invio.nxtAlto
  have snd := invio.altoNxt
  have entro := partiti.entro
  have positivi := partiti.positivi
  change c.tx.length = flusso.length - u at isLength
  rcases partiti.pezzi.porta (m := m) (p := x) invio.coda invio.nxt (by omega) (by omega)
    snd (by omega) with ⟨portano, coprono, raised⟩ | ⟨noMore, _⟩
  · refine ⟨x + c.ammessi.toNat, max m (x + c.ammessi.toNat), ?_⟩
    rw [partiti.isMittente]
    have isNxt : c.sndNxt = seqNumber isn x := invio.nxt
    refine { invio with nxt := ?_, isAlto := ?_, nxtAlto := ?_, altoNxt := ?_, unaAlto := ?_,
                        limite := ?_, aperta := ?_, finFuori := ?_, registro := ?_, coperti := ?_ }
    · rw [isNxt, seqNumber_add]
    · rw [invio.isAlto]
      exact raised
    · exact Nat.le_max_right _ _
    · omega
    · omega
    · have pre := invio.limite
      omega
    · intro still
      obtain ⟨limit, out, old⟩ := invio.aperta still
      refine ⟨by omega, out, ?_⟩
      intro s mem
      rcases mem_append.mp mem with pre | new
      · exact old s pre
      · exact (portano s new).1
    · intro out
      have finDentro : c.finFuori = false := partiti.finDentro
      change c.finFuori = true at out
      rw [finDentro] at out
      cases out
    · exact invio.registro.segmenti (fun s mem => (portano s mem).1)
        fun s mem _ => (portano s mem).2
    · intro p below within
      by_cases old : p < m
      · obtain ⟨s, mem, copre⟩ := invio.coperti p old within
        exact ⟨s, mem_append_left _ mem, copre⟩
      · obtain ⟨s, mem, copre⟩ := coprono p (by omega) (by omega)
        exact ⟨s, mem_append_right _ mem, copre⟩
  · omega

theorem Invio.spingiFin (amb : Ambiente) (chiude : c.chiude = true) (atEnd : c.sndNxt = c.finSeq) :
    Invio isn flusso (log ++ (spingiFin amb c).2) ((spingiFin amb c).2.foldl alza alto)
      (spingiFin amb c).1.mittente u (flusso.length + 1) (flusso.length + 1) := by
  have isFin : c.finSeq = seqNumber isn flusso.length := invio.finSeq (chiude_iff.mp chiude)
  obtain ⟨isLength, near, nearAlto, close⟩ := invio.vicini
  have fst := invio.nxtAlto
  have third := invio.unaAlto
  have limit := invio.limite
  have isNxt : c.sndNxt = seqNumber isn x := invio.nxt
  have isX : x = flusso.length := by
    rw [isNxt, isFin] at atEnd
    exact seqNumber_inj (by omega) (by omega) atEnd
  have isEnd : fineSegmento (tcpManda amb c { ack := true, fin := true } []).2 =
      seqNumber isn (flusso.length + 1) := by
    have isOne : seqNumber isn flusso.length + 1 = seqNumber isn (flusso.length + 1) :=
      seqNumber_add isn flusso.length 1
    show c.sndNxt + 0 + 0 + 1 = _
    grind
  have raised : [(tcpManda amb c { ack := true, fin := true } []).2].foldl alza alto =
      seqNumber isn (flusso.length + 1) := by
    show alza alto _ = _
    rw [invio.isAlto, alza_seqNumber isn (by omega) (by omega) isEnd]
    congr 1
    omega
  refine { invio with nxt := ?_, isAlto := raised, nxtAlto := Nat.le_refl _, altoNxt := ?_,
                      unaAlto := ?_, limite := Nat.le_refl _, aperta := ?_, finFuori := ?_,
                      registro := ?_, coperti := ?_ }
  · show c.finSeq + 1 = _
    rw [isFin]
    exact seqNumber_add isn flusso.length 1
  · omega
  · omega
  · exact fun still => Bool.noConfusion (chiude.symm.trans (not_chiude_of_aperta still))
  · exact fun _ => rfl
  · apply invio.registro.conFin rfl
    · show c.sndNxt = _
      rw [atEnd, isFin]
    · intro p below
      exact invio.coperti p (by omega) below
  · intro p below within
    obtain ⟨s, mem, copre⟩ := invio.coperti p (by omega) within
    exact ⟨s, mem_append_left _ mem, copre⟩

theorem Invio.ferma : Prosegue isn flusso log alto u (c, []) := by
  refine ⟨x, m, ?_⟩
  rw [append_nil]
  exact invio

/-- A connection that dies keeps the positions. -/
theorem Invio.muore {c' : Conn} {scade tentativi : UInt32} (isDead : c'.mittente =
      { c.mittente with stato := .morta, rtoScade := scade, tentativi := tentativi }) :
    Prosegue isn flusso log alto u (c', []) := by
  have dead := (invio.conOrologio c.finestra scade c.rtoMs tentativi).conStato (.inl rfl)
  apply Invio.ferma
  rw [isDead]
  exact dead

theorem Invio.orologio
    (ora : UInt32) : Invio isn flusso log alto (orologio ora c).mittente u x m := by
  rw [Net.orologio]
  split
  · exact invio.conOrologio c.finestra (ora + tcpRtoMs) tcpRtoMs 0
  · exact invio

theorem Invio.spingi
    (amb : Ambiente) (ora : UInt32) : Prosegue isn flusso log alto u (tcpSpingi amb ora c) := by
  have spinta := tcpSpingi_spinta amb ora (c := c) invio.corta
  generalize tcpSpingi amb ora c = r at spinta ⊢
  cases spinta with
  | ferma _ => exact invio.ferma
  | fin _ _ _ chiude atEnd => exact ⟨_, _, (invio.spingiFin amb chiude atEnd).orologio ora⟩
  | dati partiti _ =>
    obtain ⟨x', m', sent⟩ := invio.partiti partiti
    exact ⟨x', m', sent.orologio ora⟩
  | @datiFin c' segs partiti chiude atEnd =>
    obtain ⟨x', m', sent⟩ := invio.partiti partiti
    have sameStato : c'.stato = c.stato := congrArg Mittente.stato partiti.isMittente
    have sameFin : c'.finSeq = c.finSeq := congrArg Mittente.finSeq partiti.isMittente
    have closes : c'.chiude = true := by
      rw [Conn.chiude, sameStato]
      exact chiude
    have res := (sent.spingiFin amb closes (atEnd.trans sameFin.symm)).orologio ora
    exact ⟨_, _, res.joined⟩

end

/-- A new confirmation that is not beyond the highest number sent: the position it
stands for. -/
theorem Invio.posizione (invio : Invio isn flusso log alto c u x m)
    (honest : seqPrima alto ack = false) (new : seqPrima c.sndUna ack = true) :
    ∃ p, ack = seqNumber isn p ∧ u < p ∧ p ≤ m := by
  obtain ⟨_, _, near, _⟩ := invio.vicini
  have fst := invio.unaAlto
  have isAlto := invio.isAlto
  have isUna := invio.una
  obtain ⟨d, isD⟩ : ∃ d, d = alto - ack := ⟨_, rfl⟩
  have small : d.toNat < 2 ^ 31 := by
    rw [seqPrima, isNegative, decide_eq_false_iff_not, ← isD] at honest
    omega
  have span : (alto - c.sndUna).toNat = m - u := by
    rw [isAlto, isUna]
    exact seqNumber_sub fst (by omega)
  have away : c.sndUna - ack = d - (alto - c.sndUna) := by
    grind
  have late : d.toNat < m - u := by
    rw [seqPrima, isNegative, decide_eq_true_iff, away, UInt32.toNat_sub] at new
    omega
  have back : seqNumber isn (m - d.toNat) + d = alto := by
    rw [seqNumber_add, isAlto]
    congr 1
    omega
  grind

theorem Invio.conferma {c : Conn} (invio : Invio isn flusso log alto c.mittente u x m)
    (ora : UInt32) (honest : seqPrima alto ack = false) :
    ∃ u', seqNumber isn u' = (if seqPrima c.sndUna ack then ack else c.sndUna) ∧
      Invio isn flusso log alto (tcpConferma ora c ack).mittente u' x m := by
  by_cases new : seqPrima c.sndUna ack = true
  · rw [tcpConferma_mittente ora new]
    obtain ⟨p, isAck, above, below⟩ := invio.posizione honest new
    obtain ⟨isLength, near, _, _⟩ := invio.vicini
    have short := invio.corta
    change c.tx.length = flusso.length - u at isLength
    have isLen := Conn.toNat_txLen short
    have isUna : c.sndUna = seqNumber isn u := invio.una
    have isQuanti : (ack - c.sndUna).toNat = p - u := by
      rw [isAck, isUna]
      exact seqNumber_sub (Nat.le_of_lt above) (by omega)
    have isCoda : c.tx = flusso.drop u := invio.coda
    have dropped : c.tx.drop (c.confermati ack).toNat = flusso.drop p := by
      rw [Conn.confermati]
      split
      · next beyond =>
        have less := UInt32.lt_iff_toNat_lt.mp beyond
        rw [isLen, drop_length, eq_comm, drop_eq_nil_iff]
        omega
      · rw [isCoda, drop_drop]
        congr 1
        omega
    have moved : Invio isn flusso log alto
        { c.mittente with tx := c.tx.drop (c.confermati ack).toNat, sndUna := ack } p x m := by
      refine { invio with una := isAck, coda := dropped, corta := ?_, unaAlto := below }
      rw [length_drop]
      omega
    exact ⟨p, isAck.symm.trans (if_pos new).symm, moved.conOrologio c.finestra _ _ 0⟩
  · rw [tcpConferma_old ora (Bool.eq_false_iff.mpr new)]
    exact ⟨u, invio.una.symm.trans (if_neg new).symm, invio⟩

/-! ### Segments -/

section

variable {c : Conn} (invio : Invio isn flusso log alto c.mittente u x m)

include invio

theorem Invio.finVisto
    (ora : UInt32) : Invio isn flusso log alto (trattaFinVisto ora c).mittente u x m := by
  rw [trattaFinVisto_mittente]
  split
  · have clock := invio.conOrologio c.finestra 0 c.rtoMs c.tentativi
    split
    · exact clock.conStato (.inl rfl)
    · exact clock
  · exact invio

variable (amb : Ambiente)

theorem Invio.fin
    (a : Arrivo) : Invio isn flusso log alto (trattaFin amb c a).1.mittente u x m := by
  rcases trattaFin_mittente with
    same | ⟨isAperta, isSuo⟩ | ⟨isMio, _, isMorta⟩ | ⟨isMio, _, isUltimo⟩
  · rw [same]
    exact invio
  · rw [isSuo]
    exact invio.conStato (.inr (.inl ⟨isAperta, rfl⟩))
  · rw [isMorta]
    exact (invio.conOrologio c.finestra 0 c.rtoMs c.tentativi).conStato (.inl rfl)
  · rw [isUltimo]
    exact invio.conStato (.inr (.inr ⟨isMio, rfl⟩))

theorem Invio.aperta_segmento {ore : Ore} {a : Arrivo}
    (honest : a.flag.ack = true → seqPrima alto a.ack = false) :
    ∃ u', seqNumber isn u' = (if a.flag.ack ∧ seqPrima c.sndUna a.ack then a.ack else c.sndUna) ∧
      Invio isn flusso (log ++ (trattaAperta amb ore c a).2)
        ((trattaAperta amb ore c a).2.foldl alza alto)
        (trattaAperta amb ore c a).1.mittente u' x m := by
  rw [trattaAperta]
  have confirmed : ∃ u', seqNumber isn u' =
        (if a.flag.ack ∧ seqPrima c.sndUna a.ack then a.ack else c.sndUna) ∧
      Invio isn flusso log alto
        (if a.flag.ack = true then tcpConferma ore.conferma c a.ack else c).mittente u' x m := by
    by_cases isAck : a.flag.ack = true
    · simp only [isAck, true_and, if_true]
      exact invio.conferma ore.conferma (honest isAck)
    · rw [if_neg isAck, if_neg fun both => isAck both.1]
      exact ⟨u, invio.una.symm, invio⟩
  obtain ⟨u', isAt, after⟩ := confirmed
  generalize (if a.flag.ack = true then tcpConferma ore.conferma c a.ack else c) = k at after ⊢
  have sameNxt : (trattaDati amb k a).1.sndNxt = k.sndNxt :=
    congrArg Mittente.sndNxt (trattaDati_mittente amb k a)
  have acks : ∀ s ∈ (trattaDati amb k a).2 ++ (trattaFin amb (trattaDati amb k a).1 a).2,
      SoloAck k.sndNxt s := by
    intro s mem
    rcases mem_append.mp mem with data | fin
    · exact trattaDati_ack amb k a s data
    · rw [← sameNxt]
      exact trattaFin_ack amb _ a s fin
  refine ⟨u', isAt, ?_⟩
  have told := after.soloAck acks
  rw [← trattaDati_mittente amb k a] at told
  exact (told.fin amb a).finVisto ore.fin2

theorem Invio.consegna :
    Invio isn flusso (log ++ (tcpConsegna amb c).2) ((tcpConsegna amb c).2.foldl alza alto)
      (tcpConsegna amb c).1.mittente u x m := by
  rw [tcpConsegna_mittente]
  exact invio.soloAck (tcpConsegna_ack amb c)

end

section

variable {c : Conn} (invio : Invio isn flusso log alto c.mittente u x m) (amb : Ambiente)

include invio amb

theorem Invio.ritrasmette (ora oraSpingi : UInt32) :
    Prosegue isn flusso log alto u (tcpSpingi amb oraSpingi (riavvolta ora c)) := by
  obtain ⟨_, _, nearAlto, _⟩ := invio.vicini
  apply Invio.spingi
  -- Back to the first position not confirmed.
  have clock := invio.conOrologio c.finestra (ora + c.rtoMs * 2) (c.rtoMs * 2) (c.tentativi + 1)
  refine { clock with nxt := clock.una, nxtAlto := clock.unaAlto, altoNxt := nearAlto,
                      aperta := ?_, finFuori := nofun }
  intro still
  obtain ⟨limit, _, noFin⟩ := clock.aperta still
  exact ⟨limit, rfl, noFin⟩

theorem Invio.invia (isOpen : c.stato = .aperta ∨ c.stato = .finSuo) (ora : UInt32)
    (dati : List UInt8) :
    Prosegue isn (flusso ++ tcpAccettati c dati) log alto u
      (tcpSpingi amb ora { c with tx := c.tx ++ tcpAccettati c dati }) := by
  apply Invio.spingi
  obtain ⟨limit, finDentro, noFin⟩ := invio.aperta isOpen
  have unaAlto := invio.unaAlto
  have isCoda : c.tx = flusso.drop u := invio.coda
  refine { invio with coda := ?_, corta := tcpAccettati_corta invio.corta, limite := ?_,
                      aperta := ?_, finSeq := ?_, finFuori := ?_, registro := ?_, coperti := ?_ }
  · show c.tx ++ tcpAccettati c dati = _
    rw [drop_append_of_le_length (by omega), isCoda]
  · rw [length_append]
    omega
  · intro _
    refine ⟨?_, finDentro, noFin⟩
    rw [length_append]
    omega
  · exact fun closing =>
      Bool.noConfusion ((chiude_iff.mpr closing).symm.trans (not_chiude_of_aperta isOpen))
  · exact fun out => Bool.noConfusion (finDentro.symm.trans out)
  · exact invio.registro.append noFin _
  · intro p below _
    obtain ⟨s, mem, copre⟩ := invio.coperti p below (by omega)
    exact ⟨s, mem, copre.append _⟩

end

section

variable {c : Conn} (invio : Invio isn flusso log alto c.mittente u x m)

include invio

theorem Invio.mandaFin
    (isOpen : c.stato = .aperta ∨ c.stato = .finSuo) (amb : Ambiente) (ore : Ore) :
    Prosegue isn flusso log alto u (tcpMandaFin amb ore c) := by
  obtain ⟨limit, finDentro, noFin⟩ := invio.aperta isOpen
  obtain ⟨isLength, _, _, _⟩ := invio.vicini
  have unaAlto := invio.unaAlto
  have short := invio.corta
  change c.tx.length = flusso.length - u at isLength
  have isLen := Conn.toNat_txLen short
  have isUna : c.sndUna = seqNumber isn u := invio.una
  have decided : Invio isn flusso log alto (finDeciso c).mittente u x m := by
    have clock := invio.conOrologio c.finestra 0 c.rtoMs c.tentativi
    have newStato : (finDeciso c).stato = .ultimoAck ∨ (finDeciso c).stato = .finMio := by
      show (if c.stato = .finSuo then StatoTcp.ultimoAck else .finMio) = _ ∨
        (if c.stato = .finSuo then StatoTcp.ultimoAck else .finMio) = _
      split
      · exact .inl rfl
      · exact .inr rfl
    refine { clock with stabile := ?_, aperta := ?_, finSeq := ?_, finFuori := ?_ }
    · rcases newStato with isUltimo | isMio
      · exact .inr (.inr (.inr (.inl isUltimo)))
      · exact .inr (.inr (.inl isMio))
    · intro still
      change (finDeciso c).stato = .aperta ∨ (finDeciso c).stato = .finSuo at still
      rcases newStato with isUltimo | isMio
      · simp [isUltimo] at still
      · simp [isMio] at still
    · intro _
      show c.sndUna + c.txLen = _
      rw [isUna, seqNumber_add]
      congr 1
      omega
    · exact nofun
  obtain ⟨x', m', pushed⟩ := decided.spingi amb ore.spingi
  rw [tcpMandaFin]
  exact ⟨x', m', pushed.conOrologio _ (ore.fin + tcpRtoMs) tcpRtoMs 0⟩

end

end Invio

/-! ## Runs -/

section Runs

variable {isn : UInt32} {t : Corsa} {e : EventoTcp} {c : Conn}

/-- What was sent is right, and so is the connection as long as it has its slot: the
first position not confirmed is that of the highest confirmation. -/
def CorsaSana (isn : UInt32) (t : Corsa) : Prop :=
  (t.conn.stato = .libera ∧ Registro isn t.flusso t.log) ∨
    ∃ u, t.confermato = seqNumber isn u ∧
      ∃ x m, Invio isn t.flusso t.log t.alto t.conn.mittente u x m

theorem Stabilita.sana (stabilita : Stabilita isn t) : CorsaSana isn t := by
  right
  have zero := (seqNumber_zero isn).symm
  refine ⟨0, stabilita.confermato.trans zero, 0, 0, ?_⟩
  refine ⟨stabilita.una.trans zero, stabilita.nxt.trans zero, stabilita.alto.trans zero, ?_, ?_,
    Nat.le_refl 0, Nat.zero_le _, Nat.le_refl 0, Nat.zero_le _, .inl stabilita.stato, ?_,
    ?_, ?_, ?_, fun p below => absurd below (Nat.not_lt_zero p)⟩
  · rw [stabilita.flusso]
    exact stabilita.tx
  · show t.conn.tx.length ≤ 4096
    rw [stabilita.tx]
    exact Nat.zero_le _
  · intro _
    refine ⟨Nat.zero_le _, stabilita.finFuori, ?_⟩
    rw [stabilita.log]
    exact fun s mem => absurd mem not_mem_nil
  · intro closing
    change t.conn.stato = .finMio ∨ t.conn.stato = .ultimoAck at closing
    simp [stabilita.stato] at closing
  · intro out
    rw [show t.conn.mittente.finFuori = false from stabilita.finFuori] at out
    cases out
  · rw [stabilita.log]
    constructor
    · exact fun s mem => absurd mem not_mem_nil
    · intro prima s dopo isLog
      simp at isLog

theorem accettati_nil (isNone : chiamata c e = none) : accettati c e = [] := by
  cases e with
  | invia amb ora dati =>
    rw [accettati]
    split
    · next isOpen =>
      by_contra given
      rw [chiamata, if_pos ⟨isOpen, given⟩] at isNone
      nomatch isNone
    · rfl
  | _ => rfl

theorem passoTcp_libera (libera : c.stato = .libera) :
    (passoTcp c e).1.stato = .libera ∧ (passoTcp c e).2 = [] ∧ accettati c e = [] := by
  have notOpen : ¬(c.stato = .aperta ∨ c.stato = .finSuo) := by
    rw [libera]
    decide
  cases e with
  | segmento amb ore a =>
    rw [passoTcp, if_neg (by rw [Conn.inTabella, libera]; decide)]
    exact ⟨libera, rfl, rfl⟩
  | invia amb ora dati =>
    rw [passoTcp, tcpInvia, if_pos (not_or.mp notOpen), accettati, if_neg notOpen]
    exact ⟨libera, rfl, rfl⟩
  | mezza amb ore =>
    rw [passoTcp, tcpMezza, if_neg notOpen]
    exact ⟨libera, rfl, rfl⟩
  | finOrfana amb ore =>
    rw [passoTcp, tcpFinOrfana, if_neg fun both => notOpen both.1]
    exact ⟨libera, rfl, rfl⟩
  | lascia => exact ⟨libera, rfl, rfl⟩
  | azzera => exact ⟨rfl, rfl, rfl⟩
  | _ =>
    rw [passoTcp, if_pos libera]
    exact ⟨libera, rfl, rfl⟩

/-- Only a segment that an open connection takes confirms anything. -/
theorem Corsa.conferma_ferma (t : Corsa) (isNone : chiamata t.conn e = none)
    (notRicev : t.conn.stato ≠ .synRicev) (notInvia : t.conn.stato ≠ .synInvia) :
    t.conferma e = t.confermato := by
  cases e with
  | segmento amb ore a =>
    refine if_neg fun all => ?_
    rw [chiamata, if_pos ⟨all.1, all.2.1, notRicev, notInvia⟩] at isNone
    nomatch isNone
  | _ => rfl

theorem CorsaSana.passo (sana : CorsaSana isn t) (onesto : t.Onesto e) :
    CorsaSana isn (t.passo e) := by
  rcases sana with ⟨libera, registro⟩ | ⟨u, isAt, x, m, invio⟩
  · obtain ⟨still, noSegs, noBytes⟩ := passoTcp_libera libera
    refine .inl ⟨still, ?_⟩
    show Registro isn (t.flusso ++ accettati t.conn e) (t.log ++ (passoTcp t.conn e).2)
    rw [noSegs, noBytes, append_nil, append_nil]
    exact registro
  · -- A step that keeps the stream: only the connection and what it sends change.
    have quiet : ∀ {r : Conn × List Segmento} {u' : Nat}, accettati t.conn e = [] →
        t.conferma e = seqNumber isn u' → Prosegue isn t.flusso t.log t.alto u' r →
        CorsaSana isn { conn := r.1, flusso := t.flusso ++ accettati t.conn e, log := t.log ++ r.2,
                        alto := r.2.foldl alza t.alto, confermato := t.conferma e } := by
      intro r u' nothing confirmed after
      rw [nothing, append_nil]
      exact .inr ⟨u', confirmed, after⟩
    have same := fun isNone : chiamata t.conn e = none =>
      (t.conferma_ferma isNone invio.oltre_syn.1 invio.oltre_syn.2).trans isAt
    have effetto := passoTcp_effetto t.conn e
    rw [Corsa.passo]
    generalize passoTcp t.conn e = r at effetto ⊢
    cases effetto with
    | fermo _ isNone _ => exact quiet (accettati_nil isNone) (same isNone) (Invio.ferma invio)
    | chiuso _ isNone => exact quiet (accettati_nil isNone) (same isNone) (Invio.ferma invio)
    | muore _ isNone dead => exact quiet (accettati_nil isNone) (same isNone) (invio.muore dead)
    | nasce nascita _ =>
      rcases nascita with ⟨isInvia, _⟩ | ⟨isRicev, _⟩
      · exact absurd isInvia invio.oltre_syn.2
      · exact absurd isRicev invio.oltre_syn.1
    | @aperta amb ore a pushes noReset _ =>
      have window : Invio isn t.flusso t.log t.alto
          { t.conn with finestra := a.finestra.toUInt32 : Conn }.mittente u x m :=
        invio.conOrologio a.finestra.toUInt32 t.conn.rtoScade t.conn.rtoMs t.conn.tentativi
      obtain ⟨u', confirmed, received⟩ := window.aperta_segmento amb onesto
      have isUna : t.confermato = t.conn.sndUna := isAt.trans invio.una.symm
      have mine : t.conferma (.segmento amb ore a) = seqNumber isn u' := by
        rw [confirmed, Corsa.conferma, isUna]
        simp only [inTabella_of_spinge pushes, noReset, Bool.false_eq_true, not_false_eq_true,
          true_and]
      obtain ⟨x', m', pushed⟩ := received.spingi amb ore.spingi
      exact quiet rfl mine ⟨x', m', (pushed.joined.consegna amb).joined⟩
    | ripete isInvia => exact absurd isInvia invio.oltre_syn.2
    | ritrasmette _ _ => exact quiet rfl isAt (invio.ritrasmette _ _ _)
    | invia isOpen _ _ =>
      rw [accettati, if_pos isOpen]
      exact .inr ⟨u, isAt, invio.invia _ isOpen _ _⟩
    | addio isOpen _ which =>
      have still : accettati t.conn e = [] ∧ t.conferma e = t.confermato := by
        rcases which with rfl | rfl | rfl <;> exact ⟨rfl, rfl⟩
      refine quiet still.1 (still.2.trans isAt) ?_
      apply Invio.mandaFin
      · exact invio
      · exact isOpen
    | riceve _ =>
      refine quiet rfl isAt ⟨x, m, ?_⟩
      apply Invio.consegna
      exact invio
    | azzera =>
      refine .inl ⟨rfl, ?_⟩
      show Registro isn (t.flusso ++ []) (t.log ++ [])
      rw [append_nil, append_nil]
      exact invio.registro

/-- Every data segment carries the stream at its own number, the FIN comes after all
of it, and the queue is the stream from the highest confirmation received on. -/
structure FlussoGiusto (isn : UInt32) (t : Corsa) : Prop where
  registro : Registro isn t.flusso t.log
  coda : t.conn.stato ≠ .libera →
    ∃ u, t.confermato = seqNumber isn u ∧ t.conn.sndUna = seqNumber isn u ∧
      u ≤ t.flusso.length + 1 ∧ t.conn.tx = t.flusso.drop u ∧ t.conn.tx.length ≤ 4096

theorem corsa_inviata
    (reached : Reached (Stabilita isn) (fun t e t' => t.Onesto e ∧ t' = t.passo e) t) :
    FlussoGiusto isn t := by
  have sana : CorsaSana isn t := by
    apply reached.invariant (CorsaSana isn)
    · exact fun fst stabilita => stabilita.sana
    · rintro pre e after sana ⟨onesto, isAfter⟩
      rw [isAfter]
      exact sana.passo onesto
  rcases sana with ⟨libera, registro⟩ | ⟨u, isAt, x, m, invio⟩
  · exact ⟨registro, fun notLibera => absurd libera notLibera⟩
  · refine ⟨invio.registro, fun _ => ⟨u, isAt, invio.una, ?_, invio.coda, invio.corta⟩⟩
    exact Nat.le_trans invio.unaAlto invio.limite

end Runs

/-- A connection with a window of ten bytes, its first number near the turn. -/
def corsaBreve : Corsa :=
  { conn := { Conn.azzerata with
      stato := .aperta, sndUna := 2 ^ 32 - 2, sndNxt := 2 ^ 32 - 2, finestra := 10 }
    flusso := []
    log := []
    alto := 2 ^ 32 - 2
    confermato := 2 ^ 32 - 2 }

/-- Three bytes, a time-out, the confirmation of two of them, and the close. -/
def eventiBrevi : List EventoTcp :=
  [.invia ambRiserva 1 [65, 66, 67], .scadenza ambRiserva 700 700,
    .segmento ambRiserva (oreAlle 700)
      { seq := 0, ack := 0, flag := { ack := true }, finestra := 10, dati := [] },
    .mezza ambRiserva (oreAlle 700)]

theorem corsa_inviata_breve :
    FlussoGiusto (2 ^ 32 - 2) (eventiBrevi.foldl Corsa.passo corsaBreve) := by
  apply corsa_inviata
  apply Reached.foldl
  · exact Reached.start ⟨rfl, rfl, rfl, rfl, rfl, rfl, rfl, rfl, rfl⟩
  · exact ⟨trivial, trivial, fun _ => by decide, trivial, trivial⟩

end ExOs.Net
