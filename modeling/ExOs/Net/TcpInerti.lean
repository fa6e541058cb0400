import ExOs.Net.Ascolto
import ExOs.Net.RicezioneRuns
import ExOs.Net.TcpOrologio

/-!
# Segments outside the window

No segment is tested for its place before it is taken: a reset closes, a window
is believed and a confirmation is counted whatever its number.  Only to the
receive buffer, which has tests of its own, a segment outside the window does
nothing.
-/

namespace ExOs.Net

open ExOs.Library List

/-! ## The size of the buffer -/

/-- Lengths and stretches, counted from the number of the first byte in the buffer. -/
structure Misurata (inizio : UInt32) (c : Ricezione) : Prop where
  numero : c.rcvNxt = inizio + c.rxLen
  dentro : c.rxLen ≤ c.rxDim
  piccolo : c.rxDim.toNat ≤ 2 ^ 16
  tratti : ∀ t ∈ c.fs, t.a - inizio ≤ c.rxDim ∧ (t.a - t.da).toNat < 2 ^ 16

/-- A buffer between two calls. -/
structure BufferSano (c : Ricezione) : Prop where
  preso : c.rx.isNone = false
  misurata : Misurata (c.rcvNxt - c.rxLen) c
  avanti : ∀ t ∈ c.fs, Net.avanti (t.da - c.rcvNxt) = true

section Buffer

variable {inizio : UInt32} {c : Ricezione} {t : Tratto}

theorem Misurata.assorbiUno (misurata : Misurata inizio c) (mem : t ∈ c.fs) (i : Nat) :
    Misurata inizio (assorbiUno c t i) := by
  have others : ∀ s ∈ togliTratto c.fs i, s.a - inizio ≤ c.rxDim ∧ (s.a - s.da).toNat < 2 ^ 16 :=
    fun s member => misurata.tratti s (togliTratto_subset s member)
  have number := misurata.numero
  rw [Net.assorbiUno]
  split
  · refine ⟨?_, ?_, misurata.piccolo, others⟩
    · grind
    · have isLen : c.rxLen + (t.a - c.rcvNxt) = t.a - inizio := by grind
      rw [isLen]
      exact (misurata.tratti t mem).1
  · exact ⟨number, misurata.dentro, misurata.piccolo, others⟩

theorem Misurata.assorbiGiri {giri : Nat} (misurata : Misurata inizio c)
    (enough : c.fs.length ≤ giri) :
    Misurata inizio (assorbiGiri giri c) ∧
      ∀ t ∈ (Net.assorbiGiri giri c).fs, avanti (t.da - (Net.assorbiGiri giri c).rcvNxt) = true :=
  assorbiGiri_induct (fun i mem _ pre => pre.assorbiUno mem i) misurata enough

theorem BufferSano.rxCap (sano : BufferSano c) (amb : Ambiente) : rxCap amb c = c :=
  rxCap_preso sano.preso

theorem BufferSano.senzaTratti (preso : c.rx.isNone = false) (dentro : c.rxLen ≤ c.rxDim)
    (piccolo : c.rxDim.toNat ≤ 2 ^ 16) (noFs : c.fs = []) : BufferSano c := by
  refine ⟨preso, ⟨by grind, dentro, piccolo, ?_⟩, ?_⟩
  · rw [noFs]
    exact fun t mem => absurd mem not_mem_nil
  · rw [noFs]
    exact fun t mem => absurd mem not_mem_nil

theorem BufferSano.rxCompatta (sano : BufferSano c) : BufferSano (rxCompatta c) := by
  rw [Net.rxCompatta]
  split
  · exact sano
  · exact ⟨rfl, { sano.misurata with }, sano.avanti⟩

theorem BufferSano.rxAssorbi {dopo : Ricezione} (preso : dopo.rx.isNone = false)
    (misurata : Misurata inizio dopo) : BufferSano (rxAssorbi dopo) := by
  obtain ⟨absorbed, ahead⟩ := misurata.assorbiGiri (Nat.le_refl dopo.fs.length)
  refine ⟨?_, ?_, ahead⟩
  · rw [Net.rxAssorbi, assorbiGiri_rx]
    exact preso
  · have isInizio : (Net.rxAssorbi dopo).rcvNxt - (Net.rxAssorbi dopo).rxLen = inizio := by
      have number : (Net.rxAssorbi dopo).rcvNxt = inizio + (Net.rxAssorbi dopo).rxLen :=
        absorbed.numero
      grind
    rw [isInizio]
    exact absorbed

variable {n : UInt32}

variable (sano : BufferSano c)

include sano

theorem BufferSano.rxInOrdine (n : UInt32) (dati : Nat → UInt8) :
    BufferSano (rxInOrdine c dati n).1 := by
  rw [Net.rxInOrdine]
  split
  · exact sano
  rename_i fits
  obtain ⟨k, isK, sanoK, lenK, dimK, nxtK⟩ : ∃ k, k =
    (if 0 < c.rxOff ∧ c.rxDim < c.rxOff + c.rxLen + n
      then Net.rxCompatta c else c) ∧ BufferSano k ∧ k.rxLen = c.rxLen ∧ k.rxDim = c.rxDim ∧
      k.rcvNxt = c.rcvNxt := by
    refine ⟨_, rfl, ?_⟩
    obtain ⟨_, sameLen, sameDim, sameNxt, _⟩ := rxCompatta_fields c
    split
    · exact ⟨sano.rxCompatta, sameLen, sameDim, sameNxt⟩
    · exact ⟨sano, rfl, rfl, rfl⟩
  rw [← isK]
  rw [← lenK, ← dimK] at fits
  have misurata := sanoK.misurata
  refine BufferSano.rxAssorbi rfl ⟨?_, UInt32.not_lt.mp fits, misurata.piccolo, misurata.tratti⟩
  grind

theorem BufferSano.rxTieni (amb : Ambiente) {seq : UInt32}
    (short : n.toNat < 2 ^ 16) (ahead : Net.avanti (seq - c.rcvNxt) = true) (dati : Nat → UInt8) :
    BufferSano (rxTieni amb c seq (seq - c.rcvNxt) dati n) := by
  obtain ⟨_, _, _, sameNxt, _⟩ := rxCompatta_fields c
  have compact := sano.rxCompatta
  rw [Net.rxTieni, sano.rxCap, ← sameNxt]
  rw [← sameNxt] at ahead
  generalize Net.rxCompatta c = k at compact ahead ⊢
  have misurata := compact.misurata
  split
  · exact compact
  rename_i fits
  split
  · exact ⟨rfl, { misurata with }, compact.avanti⟩
  split
  · exact compact
  refine ⟨rfl, { misurata with tratti := ?_ }, ?_⟩
  · intro s mem
    rcases mem_append.mp mem with old | new
    · exact misurata.tratti s old
    rw [mem_singleton.mp new]
    have isEnd : seq + n - (k.rcvNxt - k.rxLen) = k.rxLen + (seq - k.rcvNxt) + n := by grind
    have isLength : seq + n - seq = n := by grind
    refine ⟨?_, ?_⟩
    · rw [isEnd]
      exact UInt32.not_lt.mp fits
    · rw [isLength]
      exact short
  · intro s mem
    rcases mem_append.mp mem with old | new
    · exact compact.avanti s old
    · rw [mem_singleton.mp new]
      exact ahead

theorem BufferSano.rxDati (amb : Ambiente) (seq : UInt32)
    (short : n.toNat < 2 ^ 16) (dati : Nat → UInt8) : BufferSano (rxDati amb c seq dati n).1 := by
  rw [Net.rxDati, sano.rxCap]
  dsimp only
  split
  · split
    · exact sano
    · exact sano.rxInOrdine _ _
  rename_i notBehind
  split
  · next nonzero =>
    refine sano.rxTieni amb short ?_ dati
    rw [Net.avanti, Bool.eq_false_iff.mpr notBehind]
    simpa using nonzero
  · exact sano.rxInOrdine n dati

theorem BufferSano.oltre (mem : t ∈ c.fs) : c.rxLen ≤ t.a - (c.rcvNxt - c.rxLen) := by
  have ahead := (avanti_iff _).mp (sano.avanti t mem)
  have short := (sano.misurata.tratti t mem).2
  have le := UInt32.le_iff_toNat_le.mp sano.misurata.dentro
  have small := sano.misurata.piccolo
  have isEnd : t.a - (c.rcvNxt - c.rxLen) = c.rxLen + (t.da - c.rcvNxt) + (t.a - t.da) := by grind
  rw [isEnd]
  apply UInt32.le_iff_toNat_le.mpr
  rw [UInt32.toNat_add, UInt32.toNat_add]
  omega

omit sano

theorem leggi_fields {massimo : UInt32} :
    (leggi c massimo).1.rx = c.rx ∧ (leggi c massimo).1.rxDim = c.rxDim ∧
      (leggi c massimo).1.rxLen = c.rxLen - letti c massimo ∧
      (leggi c massimo).1.rcvNxt = c.rcvNxt ∧ (leggi c massimo).1.fs = c.fs := by
  rw [leggi]
  split <;> exact ⟨rfl, rfl, rfl, rfl, rfl⟩

theorem BufferSano.leggi (sano : BufferSano c) (massimo : UInt32) :
    BufferSano (leggi c massimo).1 := by
  obtain ⟨sameRx, sameDim, isLen, sameNxt, sameFs⟩ := leggi_fields
  have few : letti c massimo ≤ c.rxLen := UInt32.le_iff_toNat_le.mpr (toNat_letti c massimo)
  have bound : c.rxLen - letti c massimo ≤ c.rxLen := UInt32.sub_le few
  refine ⟨?_, ⟨?_, ?_, ?_, ?_⟩, ?_⟩
  · rw [sameRx]
    exact sano.preso
  · grind
  · rw [isLen, sameDim]
    exact UInt32.le_trans bound sano.misurata.dentro
  · rw [sameDim]
    exact sano.misurata.piccolo
  · intro t mem
    rw [sameFs] at mem
    rw [sameDim, sameNxt, isLen]
    obtain ⟨limit, short⟩ := sano.misurata.tratti t mem
    refine ⟨?_, short⟩
    have beyond := sano.oltre mem
    have moved : t.a - (c.rcvNxt - (c.rxLen - letti c massimo)) =
        t.a - (c.rcvNxt - c.rxLen) - letti c massimo := by grind
    rw [moved]
    exact UInt32.le_trans (UInt32.sub_le (UInt32.le_trans few beyond)) limit
  · rw [sameFs, sameNxt]
    exact sano.avanti

end Buffer

/-- How many numbers a segment takes: its bytes, and one for a FIN. -/
def Arrivo.numeri (a : Arrivo) : Nat := a.dati.length + if a.flag.fin then 1 else 0

/-- None of the numbers of the segment is in the window. -/
def Fuori (c : Ricezione) (a : Arrivo) : Prop :=
  ∀ i < a.numeri, c.rxDim.toNat - c.rxLen.toNat ≤ (a.seq + UInt32.ofNat i - c.rcvNxt).toNat

/-- The same bytes, good or kept ahead, wherever the buffer has them. -/
structure StessoBuffer (c c' : Ricezione) : Prop where
  nxt : c'.rcvNxt = c.rcvNxt
  len : c'.rxLen = c.rxLen
  fs : c'.fs = c.fs
  byte : ∀ i < (c.rxLen + estensione c).toNat, c'.byte (c'.rxOff.toNat + i) =
    c.byte (c.rxOff.toNat + i)

section Outside

variable {c : Ricezione} {a : Arrivo}

theorem StessoBuffer.refl (c : Ricezione) : StessoBuffer c c := ⟨rfl, rfl, rfl, fun _ _ => rfl⟩

theorem StessoBuffer.rxCompatta (c : Ricezione) : StessoBuffer c (rxCompatta c) := by
  obtain ⟨isOff, sameLen, _, sameNxt, sameFs⟩ := rxCompatta_fields c
  refine ⟨sameNxt, sameLen, sameFs, fun i lt => ?_⟩
  by_cases atHead : c.rxOff = 0
  · rw [Net.rxCompatta, if_pos atHead]
  rw [Net.rxCompatta, if_neg atHead]
  show memcpy c.byte 0 (fun i => c.byte (c.rxOff.toNat + i)) (c.rxLen + estensione c).toNat
    (0 + i) = _
  rw [Nat.zero_add, memcpy, if_pos ⟨Nat.zero_le i, by omega⟩]
  rfl

theorem toNat_n (short : a.dati.length < 2 ^ 16) : a.n.toNat = a.dati.length := by
  rw [Arrivo.n, UInt32.toNat_ofNat']
  omega

theorem rxInOrdine_pieno (sano : BufferSano c) {n : UInt32} (short : n.toNat < 2 ^ 16)
    (pos : 0 < n.toNat) (full : c.rxDim.toNat - c.rxLen.toNat ≤ 0) {dati : Nat → UInt8} :
    rxInOrdine c dati n = (c, .pieno) := by
  have le := UInt32.le_iff_toNat_le.mp sano.misurata.dentro
  have small := sano.misurata.piccolo
  rw [rxInOrdine, if_pos]
  apply UInt32.lt_iff_toNat_lt.mpr
  rw [UInt32.toNat_add]
  omega

theorem rxDati_fuori (sano : BufferSano c) (amb : Ambiente) (short : a.dati.length < 2 ^ 16)
    (pos : 0 < a.dati.length) (fuori : Fuori c a) (dati : Nat → UInt8) :
    StessoBuffer c (rxDati amb c a.seq dati a.n).1 := by
  have le := UInt32.le_iff_toNat_le.mp sano.misurata.dentro
  have small := sano.misurata.piccolo
  have isN := toNat_n short
  have numbers : a.dati.length ≤ a.numeri := Nat.le_add_right _ _
  have fst := fuori 0 (by omega)
  have noOffset : a.seq + UInt32.ofNat 0 - c.rcvNxt = a.seq - c.rcvNxt := by
    grind
  rw [noOffset] at fst
  rw [rxDati, sano.rxCap]
  dsimp only
  split
  case isTrue behind =>
    split
    · exact StessoBuffer.refl c
    rename_i more
    -- The segment reaches the end of the good bytes: that number is outside too.
    have less := UInt32.lt_iff_toNat_lt.mp (UInt32.not_le.mp more)
    have place := fuori (0 - (a.seq - c.rcvNxt)).toNat (by omega)
    have zero : a.seq + UInt32.ofNat (0 - (a.seq - c.rcvNxt)).toNat - c.rcvNxt = 0 := by
      rw [UInt32.ofNat_toNat]
      grind
    rw [zero] at place
    have rest : (a.n - (0 - (a.seq - c.rcvNxt))).toNat =
      a.n.toNat - (0 - (a.seq - c.rcvNxt)).toNat :=
      UInt32.toNat_sub_of_le _ _ (UInt32.le_of_lt (UInt32.not_le.mp more))
    rw [rxInOrdine_pieno sano (by omega) (by omega) place]
    exact StessoBuffer.refl c
  case isFalse notBehind =>
    split
    case isTrue nonzero =>
      obtain ⟨_, sameLen, sameDim, _, _⟩ := rxCompatta_fields c
      have near : (a.seq - c.rcvNxt).toNat < 2 ^ 31 := by
        rw [isNegative, decide_eq_true_iff] at notBehind
        omega
      rw [rxTieni, sano.rxCap]
      rw [sameLen, sameDim, if_pos]
      · exact StessoBuffer.rxCompatta c
      · apply UInt32.lt_iff_toNat_lt.mpr
        rw [UInt32.toNat_add, UInt32.toNat_add]
        omega
    case isFalse zero =>
      rw [not_not.mp zero] at fst
      rw [rxInOrdine_pieno sano (by omega) (by omega) fst]
      exact StessoBuffer.refl c

end Outside

/-! ## The receiving side -/

/-- The fields of a connection that decide what it receives and who reads. -/
structure Ricevente where
  buffer : Ricezione
  finAtt : UInt32
  finC : Bool
  attesaPid : UInt32
  attesaTipo : AttesaTipo

def Conn.ricevente (c : Conn) : Ricevente :=
  { buffer := c.toRicezione, finAtt := c.finAtt, finC := c.finC, attesaPid := c.attesaPid,
    attesaTipo := c.attesaTipo }

section Frame

variable {c : Conn}

theorem tcpManda_ricevente (preso : c.rx.isNone = false) (amb : Ambiente) (flag : Flag)
    (dati : List UInt8) : (tcpManda amb c flag dati).1.ricevente = c.ricevente := by
  simp only [tcpManda, Conn.ricevente, rxCap_preso preso]

theorem preso_of_ricevente {c' : Conn} (same : c'.ricevente = c.ricevente)
    (preso : c.rx.isNone = false) : c'.rx.isNone = false := by
  have sameBuffer : c'.toRicezione = c.toRicezione := congrArg Ricevente.buffer same
  rw [sameBuffer]
  exact preso

theorem ricevente_conNxt {nxt : UInt32} {fuori : Bool} :
    ({ c with sndNxt := nxt, finFuori := fuori } : Conn).ricevente = c.ricevente := rfl

theorem spingiGiri_ricevente (amb : Ambiente) (giri : Nat) (preso : c.rx.isNone = false)
    (inviati restanti : UInt32) :
    (spingiGiri amb giri c inviati restanti).1.ricevente = c.ricevente := by
  induction giri generalizing c inviati restanti with
  | zero => rfl
  | succ giri ih =>
    rw [spingiGiri]
    split
    · rfl
    have sent := tcpManda_ricevente preso amb { ack := true, psh := true }
      ((c.tx.drop inviati.toNat).take (if tcpMss < restanti then tcpMss else restanti).toNat)
    refine (ih ?_ _ _).trans ?_
    · exact preso_of_ricevente sent preso
    · exact ricevente_conNxt.trans sent

theorem spingiFin_ricevente (preso : c.rx.isNone = false) {amb : Ambiente} :
    (spingiFin amb c).1.ricevente = c.ricevente := by
  simp only [spingiFin, tcpManda, Conn.ricevente, rxCap_preso preso]

theorem orologio_ricevente {ora : UInt32} : (orologio ora c).ricevente = c.ricevente := by
  rw [orologio]
  split
  · rw [Conn.ricevente, Conn.ricevente]
  · rfl

theorem tcpSpingi_ricevente (amb : Ambiente) (ora : UInt32) (preso : c.rx.isNone = false) :
    (tcpSpingi amb ora c).1.ricevente = c.ricevente := by
  rw [tcpSpingi]
  split
  · rfl
  split
  · rfl
  dsimp only
  split
  · split
    · rw [orologio_ricevente, spingiFin_ricevente preso]
    · rfl
  split
  · rfl
  generalize (if c.finestra - (c.sndNxt - c.sndUna) < c.txLen - (c.sndNxt - c.sndUna) then
    c.finestra - (c.sndNxt - c.sndUna) else c.txLen - (c.sndNxt - c.sndUna)) = restanti
  have sent := spingiGiri_ricevente amb restanti.toNat preso (c.sndNxt - c.sndUna) restanti
  split
  · rw [orologio_ricevente, spingiFin_ricevente (preso_of_ricevente sent preso), sent]
  · rw [orologio_ricevente, sent]

end Frame

/-! ## Between two events -/

/-- Until the other side closes: the buffer is in order, nobody waits for bytes that
are there, and no FIN that was kept is next. -/
structure Quieta (stato : StatoTcp) (r : Ricevente) : Prop where
  sano : stato = .aperta ∨ stato = .synInvia ∨ stato = .synRicev → BufferSano r.buffer
  nascente : stato = .synInvia ∨ stato = .synRicev →
    r.buffer.rxLen = 0 ∧ r.buffer.fs = [] ∧ r.finC = false
  lettore : stato = .aperta → r.attesaPid ≠ 0 → r.attesaTipo = .ricevi → r.buffer.rxLen = 0
  fin : stato = .aperta → r.finC = true → r.finAtt ≠ r.buffer.rcvNxt

def FinPreso (c : Conn) (a : Arrivo) : Prop :=
  (a.flag.fin = true ∧ a.seq + a.n = c.rcvNxt) ∨ (c.finC = true ∧ c.finAtt = c.rcvNxt)

section Quiet

variable {c : Conn} {stato : StatoTcp} {r : Ricevente}

theorem Quieta.lontana (far : stato ≠ .aperta ∧ stato ≠ .synInvia ∧ stato ≠ .synRicev) :
    Quieta stato r :=
  ⟨fun given => absurd given (not_or.mpr ⟨far.1, not_or.mpr far.2⟩),
    fun newborn => absurd newborn (not_or.mpr far.2),
    fun isOpen => absurd isOpen far.1, fun isOpen => absurd isOpen far.1⟩

variable (ora : UInt32)

theorem tcpConferma_ricevente {ack : UInt32} : (tcpConferma ora c ack).ricevente = c.ricevente := by
  rw [tcpConferma]
  split
  · rfl
  · by_cases all : ack = c.sndNxt
    · rw [if_pos all, Conn.ricevente, Conn.ricevente]
    · rw [if_neg all, Conn.ricevente, Conn.ricevente]

variable {a : Arrivo}

theorem trattaFin_non (amb : Ambiente) (notTaken : ¬FinPreso c a) :
    trattaFin amb c a = (c, []) := by
  rw [FinPreso] at notTaken
  rw [trattaFin, if_neg notTaken]

theorem trattaFin_preso (amb : Ambiente) (taken : FinPreso c a)
    (isOpen : c.stato = .aperta) : (trattaFin amb c a).1.stato = .finSuo := by
  have sent :
    (tcpManda amb { c with finC := false, rcvNxt := c.rcvNxt + 1 } { ack := true } []).1.stato =
      .aperta := isOpen
  rw [FinPreso] at taken
  rw [trattaFin, if_pos taken]
  dsimp only
  rw [sent]

theorem trattaFinVisto_aperta (isOpen : c.chiude = false) : trattaFinVisto ora c = c := by
  rw [trattaFinVisto, if_neg]
  rw [isOpen]
  exact fun both => Bool.noConfusion both.1

theorem trattaDati_ricevente {amb : Ambiente} (ne : a.n ≠ 0) : (trattaDati amb c a).1.ricevente =
      let esito := rxDati amb c.toRicezione a.seq (fun i => a.dati.getD i 0) a.n
      { c.ricevente with
        buffer := esito.1
        finAtt := if esito.2 = .tenuto ∧ a.flag.fin = true then a.seq + a.n else c.finAtt
        finC := if esito.2 = .tenuto ∧ a.flag.fin = true then true else c.finC } := by
  have preso := rxDati_taken amb c.toRicezione a.seq (fun i => a.dati.getD i 0) a.n
  rw [trattaDati, if_neg ne]
  generalize rxDati amb c.toRicezione a.seq (fun i => a.dati.getD i 0) a.n = esito at preso ⊢
  by_cases kept : esito.2 = .tenuto ∧ a.flag.fin = true
  · simp only [if_pos kept, tcpManda, Conn.ricevente, rxCap_preso preso]
  · simp only [if_neg kept, tcpManda, Conn.ricevente, rxCap_preso preso]

theorem trattaDati_vuoto {amb : Ambiente} (absent : a.n = 0) : trattaDati amb c a = (c, []) := by
  rw [trattaDati, if_pos absent]

theorem trattaDati_sano (sano : BufferSano c.toRicezione) {amb : Ambiente}
    (short : a.dati.length < 2 ^ 16) : BufferSano (trattaDati amb c a).1.toRicezione := by
  have isN := toNat_n short
  by_cases absent : a.n = 0
  · rw [trattaDati_vuoto absent]
    exact sano
  have isBuffer : (trattaDati amb c a).1.toRicezione =
      (rxDati amb c.toRicezione a.seq (fun i => a.dati.getD i 0) a.n).1 :=
    congrArg Ricevente.buffer (trattaDati_ricevente absent)
  rw [isBuffer]
  exact sano.rxDati amb a.seq (by omega) _

theorem tcpConsegna_quieta (isOpen : c.stato = .aperta) (sano : BufferSano c.ricevente.buffer)
    (fin : c.ricevente.finC = true → c.ricevente.finAtt ≠ c.ricevente.buffer.rcvNxt)
    {amb : Ambiente} :
    Quieta (tcpConsegna amb c).1.stato (tcpConsegna amb c).1.ricevente := by
  have newborn : ¬(c.stato = .synInvia ∨ c.stato = .synRicev) := by
    rw [isOpen]
    decide
  have same : (c.attesaPid ≠ 0 → c.attesaTipo = .ricevi → c.rxLen = 0) →
    Quieta c.stato c.ricevente :=
    fun lettore =>
      ⟨fun _ => sano, fun wrong => absurd wrong newborn, fun _ => lettore, fun _ => fin⟩
  have read : BufferSano (leggi c.toRicezione ipTcpDatiMax).1 := sano.leggi ipTcpDatiMax
  obtain ⟨_, _, _, sameNxt, _⟩ := leggi_fields
  -- Whatever is sent after it, the read leaves nobody waiting.
  have after : ∀ k : Conn, k.stato = .aperta → k.ricevente = { c.ricevente with
      buffer := (leggi c.toRicezione ipTcpDatiMax).1, attesaPid := 0 } →
        Quieta k.stato k.ricevente := by
    intro k isAperta isRicevente
    rw [isAperta, isRicevente]
    refine ⟨fun _ => read, nofun, fun _ wrong => absurd rfl wrong, fun _ isFin => ?_⟩
    rw [sameNxt]
    exact fin isFin
  rw [tcpConsegna]
  split
  case isTrue nobody =>
    refine same fun waits isRicevi => ?_
    rcases nobody with noPid | notRicevi
    · exact absurd noPid waits
    · exact absurd isRicevi notRicevi
  case isFalse =>
    split
    · next empty => exact same fun _ _ => empty.1
    dsimp only
    rw [if_pos (.inl isOpen)]
    split
    · refine after _ isOpen ?_
      simp only [tcpManda, Conn.ricevente, rxCap_preso read.preso]
    · refine after _ isOpen ?_
      simp only [Conn.ricevente, rxCap_preso read.preso]

theorem dopoConferma_ricevente (ore : Ore) (c : Conn) (a : Arrivo) :
    (dopoConferma ore c a).ricevente = c.ricevente := by
  rw [dopoConferma]
  split
  · exact tcpConferma_ricevente _
  · rfl

theorem dopoConferma_buffer (ore : Ore) (c : Conn) (a : Arrivo) :
    (dopoConferma ore c a).toRicezione = c.toRicezione :=
  congrArg Ricevente.buffer (dopoConferma_ricevente ore c a)

/-- What they do to the sending side: the clock apart, only a new confirmation counts. -/
theorem dopoConferma_campi {ore : Ore} :
    (dopoConferma ore c a).stato = c.stato ∧ (dopoConferma ore c a).finestra = a.finestra.toUInt32 ∧
      (Nuova c a → (dopoConferma ore c a).sndUna = a.ack ∧
        (dopoConferma ore c a).tx = c.tx.drop (c.confermati a.ack).toNat) ∧
      (¬Nuova c a → (dopoConferma ore c a).sndUna = c.sndUna ∧
        (dopoConferma ore c a).tx = c.tx) := by
  rw [dopoConferma]
  split
  · next isAck =>
    by_cases new : seqPrima c.sndUna a.ack = true
    · have same := tcpConferma_mittente (c := c.vede a) ore.conferma new
      exact ⟨congrArg Mittente.stato same, congrArg Mittente.finestra same,
        fun _ => ⟨congrArg Mittente.sndUna same, congrArg Mittente.tx same⟩,
        fun old => absurd ⟨isAck, new⟩ old⟩
    · rw [tcpConferma_old (c := c.vede a) ore.conferma (Bool.eq_false_iff.mpr new)]
      exact ⟨rfl, rfl, fun nuova => absurd nuova.2 new, fun _ => ⟨rfl, rfl⟩⟩
  · next isAck =>
    exact ⟨rfl, rfl, fun nuova => absurd nuova.1 isAck, fun _ => ⟨rfl, rfl⟩⟩

theorem presa_stato (amb : Ambiente) (ore : Ore) (c : Conn) (a : Arrivo) :
    (presa amb ore c a).stato = c.stato :=
  (congrArg Mittente.stato (trattaDati_mittente _ _ _)).trans dopoConferma_campi.1

theorem presa_sana (sano : BufferSano c.toRicezione) (amb : Ambiente) (ore : Ore)
    (short : a.dati.length < 2 ^ 16) : BufferSano (presa amb ore c a).toRicezione := by
  apply trattaDati_sano _ short
  rw [dopoConferma_buffer]
  exact sano

theorem trattaAperta_aperta (amb : Ambiente) (ore : Ore) (isOpen : c.stato = .aperta)
    (notTaken : ¬FinPreso (presa amb ore c a) a) :
    (trattaAperta amb ore (c.vede a) a).1 = presa amb ore c a := by
  have notClosing : (presa amb ore c a).chiude = false :=
    not_chiude_of_aperta (.inl ((presa_stato amb ore c a).trans isOpen))
  show trattaFinVisto ore.fin2 (trattaFin amb (presa amb ore c a) a).1 = _
  rw [trattaFin_non amb notTaken]
  exact trattaFinVisto_aperta ore.fin2 notClosing

theorem trattaAperta_chiusa (amb : Ambiente) (ore : Ore) (isOpen : c.stato = .aperta)
    (taken : FinPreso (presa amb ore c a) a) :
    (trattaAperta amb ore (c.vede a) a).1.stato = .finSuo := by
  have isFinSuo := trattaFin_preso amb taken ((presa_stato amb ore c a).trans isOpen)
  show (trattaFinVisto ore.fin2 (trattaFin amb (presa amb ore c a) a).1).stato = .finSuo
  rw [trattaFinVisto_aperta ore.fin2 (not_chiude_of_aperta (.inr isFinSuo))]
  exact isFinSuo

theorem tcpSpingi_stato (amb : Ambiente) (ora : UInt32) (corta : c.tx.length ≤ 4096) :
    (tcpSpingi amb ora c).1.stato = c.stato :=
  (tcpSpingi_fermi amb ora corta).2.2.2

theorem trattaAperta_stato (amb : Ambiente) (ore : Ore) (a : Arrivo) (corta : c.tx.length ≤ 4096) :
    let p := trattaAperta amb ore (c.vede a) a
    (tcpConsegna amb (tcpSpingi amb ore.spingi p.1).1).1.stato = p.1.stato :=
  (congrArg Mittente.stato (tcpConsegna_mittente amb _)).trans (tcpSpingi_stato amb ore.spingi
    (Nat.le_trans (trattaAperta_tx amb ore (c.vede a) a) corta))

theorem tcpMandaFin_stato (amb : Ambiente) (ore : Ore) (corta : c.tx.length ≤ 4096) :
    (tcpMandaFin amb ore c).1.stato = (finDeciso c).stato := by
  have short : (finDeciso c).tx.length ≤ 4096 := corta
  rw [tcpMandaFin]
  exact (tcpSpingi_fermi amb ore.spingi short).2.2.2

theorem Quieta.segmento (quiet : Quieta c.stato c.ricevente) (isOpen : c.stato = .aperta)
    (amb : Ambiente) (ore : Ore) (short : a.dati.length < 2 ^ 16) (corta : c.tx.length ≤ 4096) :
    let p := trattaAperta amb ore (c.vede a) a
    let s := tcpSpingi amb ore.spingi p.1
    Quieta (tcpConsegna amb s.1).1.stato (tcpConsegna amb s.1).1.ricevente := by
  intro p s
  have shortQueue : p.1.tx.length ≤ 4096 :=
    Nat.le_trans (trattaAperta_tx amb ore (c.vede a) a) corta
  have sameStato : s.1.stato = p.1.stato := tcpSpingi_stato amb ore.spingi shortQueue
  have sano := presa_sana (quiet.sano (.inl isOpen)) amb ore short
  by_cases taken : FinPreso (presa amb ore c a) a
  · rw [trattaAperta_stato amb ore a corta, trattaAperta_chiusa amb ore isOpen taken]
    exact Quieta.lontana (of_decide_eq_true rfl)
  · have isPresa : p.1 = presa amb ore c a := trattaAperta_aperta amb ore isOpen taken
    have preso : p.1.rx.isNone = false := by
      rw [isPresa]
      exact sano.preso
    have same : s.1.ricevente = (presa amb ore c a).ricevente := by
      rw [← isPresa]
      exact tcpSpingi_ricevente amb ore.spingi preso
    apply tcpConsegna_quieta
    · rw [sameStato, isPresa, presa_stato]
      exact isOpen
    · rw [same]
      exact sano
    · rw [same]
      exact fun kept next => taken (.inr ⟨kept, next⟩)

theorem Quieta.stabilita (sano : BufferSano r.buffer) (noLen : r.buffer.rxLen = 0)
    (noFin : r.finC = false) : Quieta .aperta r := by
  refine ⟨fun _ => sano, nofun, fun _ _ _ => noLen, fun _ kept => ?_⟩
  rw [noFin] at kept
  cases kept

theorem Quieta.synRicev (quiet : Quieta c.stato c.ricevente) (isRicev : c.stato = .synRicev)
    (amb : Ambiente) (a : Arrivo) :
    Quieta (trattaSynRicev amb c a).1.stato (trattaSynRicev amb c a).1.ricevente := by
  have sano : BufferSano c.toRicezione := quiet.sano (.inr (.inr isRicev))
  obtain ⟨noLen, noFs, noFin⟩ := quiet.nascente (.inr isRicev)
  change c.rxLen = 0 at noLen
  rw [trattaSynRicev]
  split
  · have same :
      (({ (tcpManda amb { c with sndNxt := c.sndUna } { syn := true, ack := true } []).1 with
        sndNxt := c.sndNxt } : Conn)).ricevente = c.ricevente := by
      simp only [tcpManda, Conn.ricevente, rxCap_preso sano.preso]
    rw [same]
    exact quiet
  · split
    · exact quiet
    split
    · exact quiet
    dsimp only
    split
    · rw [rxCap_preso sano.preso]
      obtain ⟨q, isQ⟩ : ∃ q, q = if a.n < c.rxDim - c.rxLen then a.n else c.rxDim - c.rxLen :=
        ⟨_, rfl⟩
      rw [← isQ]
      have room : q ≤ c.rxDim - c.rxLen := by
        rw [isQ]
        split
        case isTrue less => exact UInt32.le_of_lt less
        case isFalse => exact UInt32.le_refl _
      obtain ⟨k, isK, dimK, lenK, fsK⟩ : ∃ k, k = (if 0 < c.rxOff ∧ c.rxDim < c.rxOff + c.rxLen + q
          then rxCompatta c.toRicezione else c.toRicezione) ∧ k.rxDim = c.rxDim ∧
          k.rxLen = c.rxLen ∧ k.fs = c.fs := by
        refine ⟨_, rfl, ?_⟩
        obtain ⟨_, sameLen, sameDim, _, sameFs⟩ := rxCompatta_fields c.toRicezione
        split
        · exact ⟨sameDim, sameLen, sameFs⟩
        · exact ⟨rfl, rfl, rfl⟩
      rw [← isK]
      have filled : BufferSano { k with
          rx := some (memcpy k.byte (k.rxOff + k.rxLen).toNat (fun i => a.dati.getD i 0) q.toNat)
          rxLen := k.rxLen + q
          rcvNxt := k.rcvNxt + q } := by
        refine BufferSano.senzaTratti rfl ?_ ?_ (fsK.trans noFs)
        · rw [lenK, dimK, noLen, UInt32.zero_add]
          rw [noLen, UInt32.sub_zero] at room
          exact room
        · rw [dimK]
          exact sano.misurata.piccolo
      apply tcpConsegna_quieta
      · rfl
      · exact filled
      · exact fun kept => Bool.noConfusion (noFin.symm.trans kept)
    · exact Quieta.stabilita sano noLen noFin

theorem Quieta.synInvia (quiet : Quieta c.stato c.ricevente) (isInvia : c.stato = .synInvia)
    (amb : Ambiente) (a : Arrivo) :
    Quieta (trattaSynInvia amb c a).1.stato (trattaSynInvia amb c a).1.ricevente := by
  have sano : BufferSano c.toRicezione := quiet.sano (.inr (.inl isInvia))
  obtain ⟨noLen, noFs, noFin⟩ := quiet.nascente (.inl isInvia)
  rw [trattaSynInvia]
  split
  · exact quiet
  split
  · exact quiet
  have fresh : BufferSano { c.toRicezione with rcvNxt := a.seq + 1, fs := [] } :=
    BufferSano.senzaTratti sano.preso sano.misurata.dentro sano.misurata.piccolo rfl
  refine Quieta.stabilita ?_ ?_ rfl
  · show BufferSano (rxCap amb { c.toRicezione with rcvNxt := a.seq + 1, fs := [] })
    rw [fresh.rxCap]
    exact fresh
  · show (rxCap amb { c.toRicezione with rcvNxt := a.seq + 1, fs := [] }).rxLen = 0
    rw [fresh.rxCap]
    exact noLen

theorem mossa_refl : mossa stato stato = true := by
  cases stato <;> rfl

theorem mossa_lontana {stato' : StatoTcp} (moves : mossa stato stato' = true)
    (far : stato ≠ .aperta ∧ stato ≠ .synInvia ∧ stato ≠ .synRicev) :
    stato' ≠ .aperta ∧ stato' ≠ .synInvia ∧ stato' ≠ .synRicev := by
  revert moves far
  cases stato <;> cases stato' <;> decide

theorem trattaFin_mossa (amb : Ambiente) (c : Conn) (a : Arrivo) :
    mossa c.stato (trattaFin amb c a).1.stato = true := by
  change mossa c.stato (trattaFin amb c a).1.mittente.stato = true
  rcases trattaFin_mittente with same | ⟨was, same⟩ | ⟨was, _, same⟩ | ⟨was, _, same⟩
  · rw [same]
    exact mossa_refl
  all_goals
    rw [same, was]
    rfl

theorem trattaFinVisto_stato :
    (trattaFinVisto ora c).stato = .morta ∨ (trattaFinVisto ora c).stato = c.stato := by
  change (trattaFinVisto ora c).mittente.stato = .morta ∨ (trattaFinVisto ora c).mittente.stato = _
  rw [trattaFinVisto_mittente]
  split
  · split
    · exact .inl rfl
    · exact .inr rfl
  · exact .inr rfl

theorem trattaAperta_mossa (amb : Ambiente) (ore : Ore) (c : Conn) (a : Arrivo) :
    let stato := (trattaAperta amb ore (c.vede a) a).1.stato
    stato = .morta ∨ mossa c.stato stato = true := by
  have fin := trattaFin_mossa amb (presa amb ore c a) a
  rw [presa_stato] at fin
  refine (trattaFinVisto_stato ore.fin2).imp_right ?_
  exact fun same => (congrArg (mossa c.stato) same).trans fin

theorem Quieta.nessuno (quiet : Quieta stato r) : Quieta stato { r with attesaPid := 0 } :=
  { quiet with lettore := fun _ wrong => absurd rfl wrong }

section

variable (quiet : Quieta c.stato c.ricevente) (amb : Ambiente)

include quiet amb

theorem Quieta.spingi (ora : UInt32) (corta : c.tx.length ≤ 4096) :
    Quieta (tcpSpingi amb ora c).1.stato (tcpSpingi amb ora c).1.ricevente := by
  rw [tcpSpingi_stato amb ora corta]
  by_cases near : c.stato = .aperta ∨ c.stato = .synInvia ∨ c.stato = .synRicev
  · rw [tcpSpingi_ricevente amb ora (quiet.sano near).preso]
    exact quiet
  · obtain ⟨notAperta, notNewborn⟩ := not_or.mp near
    exact Quieta.lontana ⟨notAperta, not_or.mp notNewborn⟩

theorem Quieta.ripete (isInvia : c.stato = .synInvia) {c' : Conn}
    (same : c'.ricevente = c.ricevente)
    (nxt : UInt32) : Quieta c.stato
      ({ (tcpManda amb c' { syn := true } []).1 with sndNxt := nxt } : Conn).ricevente := by
  have preso := preso_of_ricevente same (quiet.sano (.inr (.inl isInvia))).preso
  have sent := tcpManda_ricevente preso amb { syn := true } []
  rw [show _ = c.ricevente from ricevente_conNxt.trans (sent.trans same)]
  exact quiet

end

theorem Quieta.mandaFin (amb : Ambiente) (ore : Ore) (corta : c.tx.length ≤ 4096) :
    Quieta (tcpMandaFin amb ore c).1.stato (tcpMandaFin amb ore c).1.ricevente := by
  rw [tcpMandaFin_stato amb ore corta, finDeciso]
  split
  · exact Quieta.lontana (of_decide_eq_true rfl)
  · exact Quieta.lontana (of_decide_eq_true rfl)

theorem Quieta.ricevi (quiet : Quieta c.stato c.ricevente) (amb : Ambiente) (cliente : UInt32) :
    Quieta (tcpRicevi amb cliente c).1.stato (tcpRicevi amb cliente c).1.ricevente := by
  rw [tcpRicevi]
  by_cases opened : c.stato = .aperta
  · exact tcpConsegna_quieta (c := { c with
      attesaPid := cliente, attesaTipo := .ricevi, attesaScade := 0 }) opened
      (quiet.sano (.inl opened)) (quiet.fin opened)
  by_cases newborn : c.stato = .synInvia ∨ c.stato = .synRicev
  · have noLen : c.rxLen = 0 := (quiet.nascente newborn).1
    have early : c.stato ≠ .morta ∧ c.stato ≠ .finSuo ∧ c.stato ≠ .ultimoAck := by
      rcases newborn with isInvia | isRicev
      · rw [isInvia]
        decide
      · rw [isRicev]
        decide
    have waits : Quieta c.stato { c.ricevente with attesaPid := cliente, attesaTipo := .ricevi } :=
      ⟨quiet.sano, quiet.nascente, fun isOpen => absurd isOpen opened,
        fun isOpen => absurd isOpen opened⟩
    rw [tcpConsegna]
    split
    · exact waits
    · rw [if_pos ⟨noLen, early⟩]
      exact waits
  · have sameStato := congrArg Mittente.stato (tcpConsegna_mittente amb
      { c with attesaPid := cliente, attesaTipo := .ricevi, attesaScade := 0 })
    change (tcpConsegna amb _).1.stato = c.stato at sameStato
    rw [sameStato]
    exact Quieta.lontana ⟨opened, not_or.mp newborn⟩

end Quiet

/-- The data of a segment are those of an IPv4 packet. -/
def Misurato : EventoTcp → Prop
  | .segmento _ _ a => a.dati.length < 2 ^ 16
  | _ => True

/-- A birth with a buffer of the sizes that the driver can be given. -/
def NataMisurata (c : Conn) : Prop :=
  (∃ amb ore isn cliente scade, amb.gRxDim.toNat ≤ 2 ^ 16 ∧
      c = (tcpApri amb ore isn cliente scade).1) ∨
    ∃ amb isn a, amb.gRxDim.toNat ≤ 2 ^ 16 ∧ c = (tcpNasce amb isn a).1

section Runs

variable {c : Conn}

theorem Quieta.passo (quiet : Quieta c.stato c.ricevente) (corta : c.tx.length ≤ 4096)
    {e : EventoTcp} (misurato : Misurato e) :
    Quieta (passoTcp c e).1.stato (passoTcp c e).1.ricevente := by
  have effetto := passoTcp_effetto c e
  generalize passoTcp c e = r at effetto ⊢
  cases effetto with
  | fermo _ _ which =>
    rcases which with rfl | rfl
    · exact quiet
    · exact quiet.nessuno
  | chiuso closing _ =>
    rcases chiude_iff.mp closing with isMio | isUltimo
    · exact Quieta.lontana (by rw [isMio]; decide)
    · exact Quieta.lontana (by rw [isUltimo]; decide)
  | @muore _ c' _ _ _ _ dead =>
    have isDead : c'.stato = .morta := congrArg Mittente.stato dead
    exact Quieta.lontana (by rw [isDead]; decide)
  | @nasce amb ore a _ nascita _ =>
    rcases nascita with ⟨isInvia, rfl⟩ | ⟨isRicev, rfl⟩
    · exact Quieta.synInvia (c := c.vede a) quiet isInvia amb a
    · exact Quieta.synRicev (c := c.vede a) quiet isRicev amb a
  | @aperta amb ore a spinge _ _ =>
    by_cases isOpen : c.stato = .aperta
    · exact quiet.segmento isOpen amb ore misurato corta
    · -- The state can only move further from `S_APERTA`.
      rw [trattaAperta_stato amb ore a corta]
      rcases trattaAperta_mossa amb ore c a with dead | moves
      · rw [dead]
        exact Quieta.lontana (of_decide_eq_true rfl)
      · exact Quieta.lontana (mossa_lontana moves ⟨isOpen, not_or.mp (spinge_avviata spinge)⟩)
  | @ripete amb ora _ isInvia => exact quiet.ripete amb isInvia rfl (c.sndUna + 1)
  | @ritrasmette amb ora oraSpingi _ _ =>
    exact Quieta.spingi (c := riavvolta ora c) quiet amb oraSpingi corta
  | @invia amb ora dati _ _ _ =>
    exact Quieta.spingi (c := { c with tx := c.tx ++ tcpAccettati c dati }) quiet amb ora
      (tcpAccettati_corta corta)
  | addio _ _ _ => exact Quieta.mandaFin _ _ corta
  | riceve _ => exact quiet.ricevi _ _
  | azzera => exact Quieta.lontana (of_decide_eq_true rfl)

theorem rxCap_nuova {amb : Ambiente} (small : amb.gRxDim.toNat ≤ 2 ^ 16) {rcvNxt : UInt32} :
    BufferSano (rxCap amb (Ricezione.nuova rcvNxt)) ∧
      (rxCap amb (Ricezione.nuova rcvNxt)).rxLen = 0 ∧
      (rxCap amb (Ricezione.nuova rcvNxt)).fs = [] := by
  have taken := rxCap_taken amb (Ricezione.nuova rcvNxt)
  have fields : (rxCap amb (Ricezione.nuova rcvNxt)).rxLen = 0 ∧
      (rxCap amb (Ricezione.nuova rcvNxt)).fs = [] ∧
      (rxCap amb (Ricezione.nuova rcvNxt)).rxDim.toNat ≤ 2 ^ 16 := by
    rw [rxCap, if_pos (show (Ricezione.nuova rcvNxt).rx.isNone = true from rfl)]
    refine ⟨rfl, rfl, ?_⟩
    dsimp only
    generalize
      (if tcpBuf < amb.gRxDim ∧ ¬amb.rxGrandiMax ≤ amb.gRxGrandi then amb.malloc else none) = rx
    split
    · exact small
    · decide
  refine ⟨BufferSano.senzaTratti taken ?_ fields.2.2 fields.2.1, fields.1, fields.2.1⟩
  exact UInt32.zero_le

theorem NataMisurata.quieta (nata : NataMisurata c) :
    c.tx.length ≤ 4096 ∧ Quieta c.stato c.ricevente := by
  rcases nata with ⟨amb, ore, isn, cliente, scade, small, isC⟩ | ⟨amb, isn, a, small, isC⟩
  · obtain ⟨sano, noLen, noFs⟩ := rxCap_nuova small
    rw [isC]
    exact ⟨Nat.zero_le _, fun _ => sano, fun _ => ⟨noLen, noFs, rfl⟩, nofun, nofun⟩
  · obtain ⟨sano, noLen, noFs⟩ := rxCap_nuova small
    rw [isC]
    exact ⟨Nat.zero_le _, fun _ => sano, fun _ => ⟨noLen, noFs, rfl⟩, nofun, nofun⟩

theorem reached_quieta
    (reached : Reached NataMisurata (fun c e c' => Misurato e ∧ c' = (passoTcp c e).1) c) :
    c.tx.length ≤ 4096 ∧ Quieta c.stato c.ricevente := by
  apply reached.invariant fun c => c.tx.length ≤ 4096 ∧ Quieta c.stato c.ricevente
  · exact fun fst nata => nata.quieta
  · rintro pre e after ⟨corta, quiet⟩ ⟨misurato, isAfter⟩
    rw [isAfter]
    exact ⟨passoTcp_corta corta e, quiet.passo corta misurato⟩

end Runs

/-! ## What a segment does -/

/-- Bytes of the queue leave, at the number of the first of them. -/
def DallaCoda (tx : List UInt8) (una : UInt32) (s : Segmento) : Prop :=
  s.flag = { ack := true, psh := true } ∧ s.dati ≠ [] ∧
    ∃ o, s.seq = una + UInt32.ofNat o ∧ s.dati = (tx.drop o).take s.dati.length

/-- All that a segment does to an open connection: a reset closes it and the window is
believed, whatever its number; a confirmation counts when it is after `snd_una`, also
beyond what was sent.  Outside the window the rest stays as it was, and what leaves are
ACKs and bytes of the queue. -/
structure EffettoArrivo (c : Conn) (a : Arrivo) (r : Conn × List Segmento) : Prop where
  rst : a.flag.rst = true → r.1.stato = .morta
  finestra : a.flag.rst = false → r.1.finestra = a.finestra.toUInt32
  nuova : a.flag.rst = false → Nuova c a →
    r.1.sndUna = a.ack ∧ r.1.tx = c.tx.drop (a.ack - c.sndUna).toNat
  vecchia : a.flag.rst = false → ¬Nuova c a → r.1.sndUna = c.sndUna ∧ r.1.tx = c.tx
  fuori : a.flag.rst = false → Fuori c.toRicezione a →
    ¬(a.flag.fin = true ∧ a.seq + a.n = c.rcvNxt) →
    r.1.stato = c.stato ∧ StessoBuffer c.toRicezione r.1.toRicezione ∧
      ∀ s ∈ r.2, (s.flag = { ack := true } ∧ s.dati = []) ∨ DallaCoda r.1.tx r.1.sndUna s

section Effect

variable {c : Conn} {a : Arrivo}

variable (amb : Ambiente)

theorem trattaAperta_campi {ore : Ore} : ∃ stato rtoScade,
      (trattaAperta amb ore (c.vede a) a).1.mittente =
        { (dopoConferma ore c a).mittente with stato := stato, rtoScade := rtoScade } := by
  have data : (presa amb ore c a).mittente = (dopoConferma ore c a).mittente :=
    trattaDati_mittente _ _ _
  obtain ⟨stato, rtoScade, isFin⟩ : ∃ stato rtoScade,
      (trattaFin amb (presa amb ore c a) a).1.mittente =
        { (dopoConferma ore c a).mittente with stato := stato, rtoScade := rtoScade } := by
    rw [← data]
    rcases trattaFin_mittente with
      same | ⟨_, same⟩ | ⟨_, _, same⟩ | ⟨_, _, same⟩ <;> exact ⟨_, _, same⟩
  change ∃ _ _, (trattaFinVisto ore.fin2 (trattaFin amb (presa amb ore c a) a).1).mittente = _
  rw [trattaFinVisto_mittente, isFin]
  split
  · exact ⟨_, _, rfl⟩
  · exact ⟨_, _, rfl⟩

theorem presa_fuori (quiet : Quieta c.stato c.ricevente) (isOpen : c.stato = .aperta)
    (amb : Ambiente) (ore : Ore) (short : a.dati.length < 2 ^ 16) (fuori : Fuori c.toRicezione a)
    (notFin : ¬(a.flag.fin = true ∧ a.seq + a.n = c.rcvNxt)) :
    StessoBuffer c.toRicezione (presa amb ore c a).toRicezione ∧ ¬FinPreso (presa amb ore c a) a ∧
      (presa amb ore c a).attesaPid = c.attesaPid ∧
        (presa amb ore c a).attesaTipo = c.attesaTipo := by
  have sano : BufferSano c.toRicezione := quiet.sano (.inl isOpen)
  have noFin : c.finC = true → c.finAtt ≠ c.rcvNxt := quiet.fin isOpen
  have pre := dopoConferma_ricevente ore c a
  by_cases absent : a.n = 0
  · have same : (presa amb ore c a).ricevente = c.ricevente := by
      rw [presa, trattaDati_vuoto absent]
      exact pre
    have sameBuffer : (presa amb ore c a).toRicezione = c.toRicezione :=
      congrArg Ricevente.buffer same
    have sameC : (presa amb ore c a).finC = c.finC := congrArg Ricevente.finC same
    have sameAtt : (presa amb ore c a).finAtt = c.finAtt := congrArg Ricevente.finAtt same
    refine ⟨?_, ?_, congrArg Ricevente.attesaPid same, congrArg Ricevente.attesaTipo same⟩
    · rw [sameBuffer]
      exact StessoBuffer.refl _
    · rw [FinPreso, sameBuffer, sameC, sameAtt]
      exact not_or.mpr ⟨notFin, fun kept => noFin kept.1 kept.2⟩
  · have isN := toNat_n short
    have pos : 0 < a.dati.length := by
      rw [← isN]
      exact Nat.pos_of_ne_zero fun zero => absent (UInt32.toNat_inj.mp zero)
    have same : (presa amb ore c a).ricevente = _ := trattaDati_ricevente absent
    rw [pre, dopoConferma_buffer] at same
    have out := rxDati_fuori sano amb short pos fuori (fun i => a.dati.getD i 0)
    have sameBuffer : (presa amb ore c a).toRicezione = _ := congrArg Ricevente.buffer same
    have sameC : (presa amb ore c a).finC = _ := congrArg Ricevente.finC same
    have sameAtt : (presa amb ore c a).finAtt = _ := congrArg Ricevente.finAtt same
    have isC : (dopoConferma ore c a).finC = c.finC := congrArg Ricevente.finC pre
    have isAtt : (dopoConferma ore c a).finAtt = c.finAtt := congrArg Ricevente.finAtt pre
    refine ⟨?_, ?_, congrArg Ricevente.attesaPid same, congrArg Ricevente.attesaTipo same⟩
    · rw [sameBuffer]
      exact out
    · rw [FinPreso, sameBuffer, sameC, sameAtt]
      dsimp only
      rw [out.nxt, isC, isAtt]
      refine not_or.mpr ⟨notFin, ?_⟩
      by_cases kept : (rxDati amb c.toRicezione a.seq (fun i => a.dati.getD i 0) a.n).2 = .tenuto ∧
          a.flag.fin = true
      · rw [if_pos kept, if_pos kept]
        exact fun wrong => notFin ⟨kept.2, wrong.2⟩
      · rw [if_neg kept, if_neg kept]
        exact fun wrong => noFin wrong.1 wrong.2

theorem trattaAperta_vuoti_ack (ore : Ore) (c : Conn) (a : Arrivo) :
    ∀ s ∈ (trattaAperta amb ore (c.vede a) a).2, s.flag = { ack := true } ∧ s.dati = [] := by
  intro s mem
  rcases mem_append.mp mem with data | fin
  · have only := trattaDati_ack _ _ _ s data
    exact ⟨only.isFlag, only.noDati⟩
  · have only := trattaFin_ack _ _ _ s fin
    exact ⟨only.isFlag, only.noDati⟩

theorem tcpConsegna_ferma (isOpen : c.stato = .aperta) (amb : Ambiente)
    (lettore : c.ricevente.attesaPid ≠ 0 → c.ricevente.attesaTipo = .ricevi →
      c.ricevente.buffer.rxLen = 0) : tcpConsegna amb c = (c, []) := by
  rw [tcpConsegna]
  split
  · rfl
  rename_i waits
  obtain ⟨somebody, isRicevi⟩ := not_or.mp waits
  rw [if_pos]
  refine ⟨lettore somebody (not_not.mp isRicevi), ?_⟩
  rw [isOpen]
  decide

theorem Pezzi.dallaCoda {tx : List UInt8} {seq una : UInt32} {da k : Nat} {segs : List Segmento}
    (pezzi : Pezzi tx seq da k segs) (isSeq : seq = una + UInt32.ofNat da) :
    ∀ s ∈ segs, DallaCoda tx una s := by
  induction pezzi with
  | nil => exact fun s mem => absurd mem not_mem_nil
  | @cons seq da _ q _ _ positive first isFlag isDati isLength _ ih =>
    intro s mem
    rcases mem_cons.mp mem with rfl | inTail
    · refine ⟨isFlag, ne_nil_of_length_pos (isLength ▸ positive), da, first.trans isSeq, ?_⟩
      rw [isLength]
      exact isDati
    · refine ih ?_ s inTail
      rw [isSeq, UInt32.ofNat_add, UInt32.ofNat_toNat, UInt32.add_assoc]

theorem tcpSpingi_dallaCoda {ora : UInt32} (corta : c.tx.length ≤ 4096)
    (notClosing : c.chiude = false) :
    ∀ s ∈ (tcpSpingi amb ora c).2, DallaCoda c.tx c.sndUna s := by
  have spinta := tcpSpingi_spinta amb ora corta
  generalize tcpSpingi amb ora c = r at spinta
  cases spinta with
  | ferma _ => exact fun s mem => absurd mem not_mem_nil
  | fin _ _ _ closing _ => cases notClosing.symm.trans closing
  | dati partiti _ =>
    apply partiti.pezzi.dallaCoda
    rw [UInt32.ofNat_toNat, Conn.inviati]
    grind
  | datiFin _ closing _ => cases notClosing.symm.trans closing

/-- A segment for any open connection of any run. -/
theorem effetto_arrivo
    (reached : Reached NataMisurata (fun c e c' => Misurato e ∧ c' = (passoTcp c e).1) c)
    (opened : c.stato = .aperta) (amb : Ambiente) (ore : Ore) (short : a.dati.length < 2 ^ 16) :
    EffettoArrivo c a (passoTcp c (.segmento amb ore a)) := by
  obtain ⟨corta, quiet⟩ := reached_quieta reached
  have found : c.inTabella = true := by
    rw [Conn.inTabella, opened]
    decide
  rw [passoTcp, if_pos found]
  by_cases reset : a.flag.rst = true
  · have notFalse : a.flag.rst ≠ false := by
      rw [reset]
      decide
    rw [trattaTcp, if_pos reset]
    exact ⟨fun _ => rfl, fun wrong => absurd wrong notFalse, fun wrong => absurd wrong notFalse,
      fun wrong => absurd wrong notFalse, fun wrong => absurd wrong notFalse⟩
  have notRicev : c.stato ≠ .synRicev := by
    rw [opened]
    decide
  have notInvia : c.stato ≠ .synInvia := by
    rw [opened]
    decide
  rw [trattaTcp_aperta reset notRicev notInvia]
  dsimp only
  have shortQueue := Nat.le_trans (trattaAperta_tx amb ore (c.vede a) a) corta
  obtain ⟨_, _, isAperta⟩ := trattaAperta_campi amb
  obtain ⟨_, window, new, old⟩ := dopoConferma_campi
  obtain ⟨sameUna, sameWindow, sameTx, sameStato⟩ := tcpSpingi_fermi amb ore.spingi shortQueue
  have last := tcpConsegna_mittente amb (tcpSpingi amb ore.spingi
    (trattaAperta amb ore (c.vede a) a).1).1
  have lastUna := (congrArg Mittente.sndUna last).trans
    (sameUna.trans (congrArg Mittente.sndUna isAperta))
  have lastTx := (congrArg Mittente.tx last).trans (sameTx.trans (congrArg Mittente.tx isAperta))
  have lastWindow := (congrArg Mittente.finestra last).trans
    (sameWindow.trans (congrArg Mittente.finestra isAperta))
  refine ⟨fun wrong => absurd wrong reset, fun _ => lastWindow.trans window, fun _ isNew => ?_,
    fun _ isOld => ?_, fun _ fuori notFin => ?_⟩
  · rw [← drop_confermati corta]
    exact ⟨lastUna.trans (new isNew).1, lastTx.trans (new isNew).2⟩
  · exact ⟨lastUna.trans (old isOld).1, lastTx.trans (old isOld).2⟩
  · obtain ⟨stesso, notTaken, samePid, sameTipo⟩ :=
      presa_fuori quiet opened amb ore short fuori notFin
    have isPresa := trattaAperta_aperta amb ore opened notTaken
    have isOpen : (presa amb ore c a).stato = .aperta := (presa_stato amb ore c a).trans opened
    have preso := (presa_sana (quiet.sano (.inl opened)) amb ore short).preso
    have acks := trattaAperta_vuoti_ack amb ore c a
    rw [isPresa] at sameUna sameTx sameStato shortQueue ⊢
    have sameRicevente := tcpSpingi_ricevente amb ore.spingi preso
    have sameBuffer : (tcpSpingi amb ore.spingi (presa amb ore c a)).1.toRicezione =
        (presa amb ore c a).toRicezione := congrArg Ricevente.buffer sameRicevente
    have stillOpen := sameStato.trans isOpen
    have delivered := tcpConsegna_ferma stillOpen amb (by
      rw [sameRicevente]
      intro somebody isRicevi
      exact stesso.len.trans (quiet.lettore opened (fun noPid => somebody (samePid.trans noPid))
        (sameTipo.symm.trans isRicevi)))
    rw [delivered]
    refine ⟨stillOpen.trans opened.symm, ?_, ?_⟩
    · rw [sameBuffer]
      exact stesso
    · intro s mem
      rw [append_nil] at mem
      rcases mem_append.mp mem with fst | pushed
      · exact .inl (acks s fst)
      · rw [sameTx, sameUna]
        have open_ := not_chiude_of_aperta (.inl isOpen)
        exact .inr (tcpSpingi_dallaCoda amb shortQueue open_ s pushed)

end Effect

/-- A peer with a window of `finestra` bytes, whose next number is 1. -/
def connAperta (finestra : UInt16) : Conn :=
  (passoTcp (connAccolta finestra) (arrivoAck 0 1 finestra)).1

theorem connAperta_reached {finestra : UInt16} : Reached NataMisurata
    (fun c e c' => Misurato e ∧ c' = (passoTcp c e).1) (connAperta finestra) := by
  have nata : NataMisurata (connAccolta finestra) := .inr ⟨_, _, _, by decide, rfl⟩
  have short : Misurato (arrivoAck 0 1 finestra) := by
    show ([] : List UInt8).length < 2 ^ 16
    decide
  exact Reached.next (Reached.start nata) ⟨short, rfl⟩

/-- One byte, far beyond our window of 4096, with a window of 7. -/
def arrivoLontano (ack : UInt32) (rst : Bool) : Arrivo :=
  { seq := 100000, ack := ack, flag := { ack := true, rst := rst }, finestra := 7, dati := [65] }

/-- Two of three bytes fill the window of the peer. -/
def connTrattenuta : Conn := (passoTcp (connAperta 2) (inviaTre 1)).1

theorem effetto_arrivo_lontano :
    let r := passoTcp connTrattenuta (.segmento ambRiserva oreZero (arrivoLontano 1 false))
    Fuori connTrattenuta.toRicezione (arrivoLontano 1 false) ∧
      r.2.map Segmento.dati = [[], [67]] ∧
        EffettoArrivo connTrattenuta (arrivoLontano 1 false) r := by
  have measured : Misurato (inviaTre 1) := trivial
  refine ⟨?_, by decide +kernel, effetto_arrivo (connAperta_reached.next ⟨measured, rfl⟩)
    (by decide) ambRiserva oreZero (by decide)⟩
  show ∀ i < 1, _
  decide +kernel

/-- Outside the window: a reset closes the connection, and a confirmation of 49 bytes
never sent and a new window are taken. -/
theorem arrivo_lontano_non_inerte : let dopo := fun rst => (passoTcp (connAperta 10)
      (.segmento ambRiserva oreZero (arrivoLontano 50 rst))).1
    Reached NataMisurata (fun c e c' => Misurato e ∧ c' = (passoTcp c e).1) (connAperta 10) ∧
      (connAperta 10).stato = .aperta ∧ (connAperta 10).sndUna = 1 ∧ (connAperta 10).sndNxt = 1 ∧
      (connAperta 10).finestra = 10 ∧ Fuori (connAperta 10).toRicezione (arrivoLontano 50 false) ∧
      Fuori (connAperta 10).toRicezione (arrivoLontano 50 true) ∧ (dopo true).stato = .morta ∧
      (dopo false).sndUna = 50 ∧ (dopo false).finestra = 7 := by
  refine ⟨connAperta_reached, by decide, by decide, by decide, by decide, ?_, ?_, by decide,
    by decide, by decide⟩
  · show ∀ i < 1, _
    decide +kernel
  · show ∀ i < 1, _
    decide +kernel

end ExOs.Net
