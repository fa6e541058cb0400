import ExOs.Library.Runs
import ExOs.Net.Ricezione

/-!
# A TCP connection

`drivers/ip/ip.c`: one slot of the table from its birth to its end.  What the
connection sends is a list of segments beside its new state.
-/

namespace ExOs.Net

open ExOs.Library

def tcpMss : UInt32 := 1400

def tcpRtoMs : UInt32 := 600

def tcpTentativi : UInt32 := 6

def tcpFin2Ms : UInt32 := 30000

def ipTcpDatiMax : UInt32 := 1520

inductive StatoTcp where
  | libera
  | synInvia
  | aperta
  | finMio
  | finSuo
  | ultimoAck
  | morta
  | ascolta
  | synRicev
deriving DecidableEq

/-- What a program waits for. -/
inductive AttesaTipo where
  | apri
  | ricevi
  | accetta
deriving DecidableEq

structure Conn extends Ricezione where
  stato : StatoTcp
  sndUna : UInt32
  sndNxt : UInt32
  finSeq : UInt32
  finFuori : Bool
  finestra : UInt32
  finNostra : UInt32
  tx : List UInt8
  finAtt : UInt32
  finC : Bool
  rtoScade : UInt32
  rtoMs : UInt32
  tentativi : UInt32
  attesaPid : UInt32
  attesaTipo : AttesaTipo
  attesaScade : UInt32
  chiusaCliente : Bool
  fin2Scade : UInt32

def Conn.txLen (c : Conn) : UInt32 := UInt32.ofNat c.tx.length

def Conn.azzerata : Conn :=
  { toRicezione := Ricezione.nuova 0, stato := .libera, sndUna := 0, sndNxt := 0, finSeq := 0,
    finFuori := false, finestra := 0, finNostra := 0, tx := [], finAtt := 0, finC := false,
    rtoScade := 0, rtoMs := 0, tentativi := 0, attesaPid := 0, attesaTipo := .apri,
    attesaScade := 0, chiusaCliente := false, fin2Scade := 0 }

structure Flag where
  fin : Bool := false
  syn : Bool := false
  rst : Bool := false
  psh : Bool := false
  ack : Bool := false
deriving DecidableEq

/-- A segment that leaves. -/
structure Segmento where
  seq : UInt32
  ack : UInt32
  flag : Flag
  finestra : UInt16
  dati : List UInt8
deriving DecidableEq

/-- A segment that arrives, its checksum right. -/
structure Arrivo where
  seq : UInt32
  ack : UInt32
  flag : Flag
  finestra : UInt16
  dati : List UInt8

def Arrivo.n (a : Arrivo) : UInt32 := UInt32.ofNat a.dati.length

/-- The readings of the clock that a call makes, each where it is made. -/
structure Ore where
  conferma : UInt32
  fin2 : UInt32
  spingi : UInt32
  fin : UInt32

def oreAlle (ora : UInt32) : Ore := { conferma := ora, fin2 := ora, spingi := ora, fin := ora }

def oreZero : Ore := oreAlle 0

/-! ## Sending -/

def seqPrima (a b : UInt32) : Bool := isNegative (a - b)

variable (amb : Ambiente)

/-- A segment with the number of the next byte, and our window. -/
def tcpManda (c : Conn) (flag : Flag) (dati : List UInt8) : Conn × Segmento :=
  let r := rxCap amb c.toRicezione
  let finNostra := r.rxDim - r.rxLen
  ({ c with toRicezione := r, finNostra := finNostra },
    { seq := c.sndNxt, ack := if flag.ack then c.rcvNxt else 0, flag := flag,
      finestra := finNostra.toUInt16, dati := dati.take tcpMss.toNat })

/-- The segments of the queue, from the byte `inviati` on. -/
def spingiGiri (amb : Ambiente) : Nat → Conn → UInt32 → UInt32 → Conn × List Segmento
  | 0, c, _, _ => (c, [])
  | giri + 1, c, inviati, restanti =>
    if restanti = 0 then (c, [])
    else
      let q := if tcpMss < restanti then tcpMss else restanti
      let m := tcpManda amb c { ack := true, psh := true } ((c.tx.drop inviati.toNat).take q.toNat)
      let r := spingiGiri amb giri { m.1 with sndNxt := m.1.sndNxt + q } (inviati + q)
        (restanti - q)
      (r.1, m.2 :: r.2)

def spingiFin (c : Conn) : Conn × List Segmento :=
  let m := tcpManda amb c { ack := true, fin := true } []
  ({ m.1 with sndNxt := c.finSeq + 1, finFuori := true }, [m.2])

/-- The clock of the retransmission, if it does not run already. -/
def orologio (ora : UInt32) (c : Conn) : Conn :=
  if c.rtoScade = 0 then { c with rtoMs := tcpRtoMs, rtoScade := ora + tcpRtoMs, tentativi := 0 }
  else c

def Conn.chiude (c : Conn) : Bool := c.stato = .finMio || c.stato = .ultimoAck

def Conn.spinge (c : Conn) : Bool := c.stato = .aperta || c.stato = .finSuo || c.chiude

def tcpSpingi (ora : UInt32) (c : Conn) : Conn × List Segmento :=
  let inviati := c.sndNxt - c.sndUna
  if !c.spinge then (c, [])
  else if c.finFuori then (c, [])
  else if c.txLen ≤ inviati then
    if c.chiude ∧ c.sndNxt = c.finSeq then
      let m := spingiFin amb c
      (orologio ora m.1, m.2)
    else (c, [])
  else
    let restanti := c.txLen - inviati
    if c.finestra - inviati < restanti ∧ c.finestra ≤ inviati then (c, [])
    else
      let restanti := if c.finestra - inviati < restanti then c.finestra - inviati else restanti
      let r := spingiGiri amb restanti.toNat c inviati restanti
      if c.chiude ∧ r.1.sndNxt = r.1.finSeq then
        let m := spingiFin amb r.1
        (orologio ora m.1, r.2 ++ m.2)
      else (orologio ora r.1, r.2)

/-- The bytes that the other side has confirmed leave the queue. -/
def tcpConferma (ora : UInt32) (c : Conn) (ack : UInt32) : Conn :=
  if !seqPrima c.sndUna ack then c
  else
    let quanti := if c.txLen < ack - c.sndUna then c.txLen else ack - c.sndUna
    let c := { c with tx := c.tx.drop quanti.toNat, sndUna := ack }
    if c.sndUna = c.sndNxt then { c with rtoScade := 0, tentativi := 0 }
    else { c with rtoMs := tcpRtoMs, rtoScade := ora + tcpRtoMs, tentativi := 0 }

def tcpChiudiDura (c : Conn) : Conn := { c with attesaPid := 0, stato := .morta, rtoScade := 0 }

/-- Bytes for the program that waits for them, and an ACK if a window that was
small is wide again. -/
def tcpConsegna (c : Conn) : Conn × List Segmento :=
  if c.attesaPid = 0 ∨ c.attesaTipo ≠ .ricevi then (c, [])
  else if c.rxLen = 0 ∧ c.stato ≠ .morta ∧ c.stato ≠ .finSuo ∧ c.stato ≠ .ultimoAck then (c, [])
  else
    let c := { c with toRicezione := (leggi c.toRicezione ipTcpDatiMax).1, attesaPid := 0 }
    if c.stato = .aperta ∨ c.stato = .finMio then
      let r := rxCap amb c.toRicezione
      if c.finNostra < r.rxDim / 2 ∧ r.rxDim / 2 ≤ r.rxDim - r.rxLen then
        let m := tcpManda amb c { ack := true } []
        (m.1, [m.2])
      else ({ c with toRicezione := r }, [])
    else (c, [])

/-! ## A segment arrives -/

def trattaSynRicev (c : Conn) (a : Arrivo) : Conn × List Segmento :=
  if a.flag.syn ∧ ¬a.flag.ack then
    -- Ours was lost: it goes again with its own number.
    let m := tcpManda amb { c with sndNxt := c.sndUna } { syn := true, ack := true } []
    ({ m.1 with sndNxt := c.sndNxt }, [m.2])
  else if ¬a.flag.ack then (c, [])
  else if a.ack ≠ c.sndNxt then (c, [])
  else
    let c := { c with sndUna := a.ack, stato := .aperta, rtoScade := 0 }
    if a.n ≠ 0 ∧ a.seq = c.rcvNxt then
      let r := rxCap amb c.toRicezione
      let q := if a.n < r.rxDim - r.rxLen then a.n else r.rxDim - r.rxLen
      let r := if 0 < r.rxOff ∧ r.rxDim < r.rxOff + r.rxLen + q then rxCompatta r else r
      let r :=
        { r with
          rx := some (memcpy r.byte (r.rxOff + r.rxLen).toNat (fun i => a.dati.getD i 0) q.toNat)
          rxLen := r.rxLen + q
          rcvNxt := r.rcvNxt + q }
      let m := tcpManda amb { c with toRicezione := r } { ack := true } []
      let k := tcpConsegna amb m.1
      (k.1, m.2 :: k.2)
    else (c, [])

def trattaSynInvia (c : Conn) (a : Arrivo) : Conn × List Segmento :=
  if ¬a.flag.syn ∨ ¬a.flag.ack then (c, [])
  else if a.ack ≠ c.sndNxt then (c, [])
  else
    let c := { c with
      rcvNxt := a.seq + 1, fs := [], finC := false, sndUna := a.ack, 
      stato := .aperta, rtoScade := 0 }
    let m := tcpManda amb c { ack := true } []
    ({ m.1 with
        attesaPid := if c.attesaTipo = .apri then 0 else c.attesaPid }, [m.2])

def trattaDati (c : Conn) (a : Arrivo) : Conn × List Segmento :=
  if a.n = 0 then (c, [])
  else
    let r := rxDati amb c.toRicezione a.seq (fun i => a.dati.getD i 0) a.n
    let c := { c with toRicezione := r.1 }
    let c :=
      if r.2 = .tenuto ∧ a.flag.fin then { c with finAtt := a.seq + a.n, finC := true } else c
    let m := tcpManda amb c { ack := true } []
    (m.1, [m.2])

def Conn.finVisto (c : Conn) : Bool := !seqPrima c.sndUna (c.finSeq + 1)

def trattaFin (c : Conn) (a : Arrivo) : Conn × List Segmento :=
  if (a.flag.fin ∧ a.seq + a.n = c.rcvNxt) ∨ (c.finC ∧ c.finAtt = c.rcvNxt) then
    let m := tcpManda amb { c with finC := false, rcvNxt := c.rcvNxt + 1 } { ack := true } []
    let c := m.1
    (match c.stato with
      | .aperta => { c with stato := .finSuo }
      | .finMio =>
        if c.finVisto then { c with stato := .morta, rtoScade := 0 } else
          { c with stato := .ultimoAck }
      | _ => c, [m.2])
  else (c, [])

def trattaFinVisto (ora : UInt32) (c : Conn) : Conn :=
  if c.chiude ∧ c.finVisto then
    let c := { c with stato := if c.stato = .ultimoAck then .morta else c.stato, rtoScade := 0 }
    if c.stato = .finMio ∧ c.fin2Scade = 0 then { c with fin2Scade := ora + tcpFin2Ms } else c
  else c

variable (ore : Ore)

/-- What a segment does to an open connection before the queue is pushed. -/
def trattaAperta (c : Conn) (a : Arrivo) : Conn × List Segmento :=
  let c := if a.flag.ack then tcpConferma ore.conferma c a.ack else c
  let d := trattaDati amb c a
  let f := trattaFin amb d.1 a
  (trattaFinVisto ore.fin2 f.1, d.2 ++ f.2)

def trattaTcp (c : Conn) (a : Arrivo) : Conn × List Segmento :=
  if a.flag.rst then (tcpChiudiDura c, [])
  else
    let c := { c with finestra := a.finestra.toUInt32 }
    match c.stato with
    | .synRicev => trattaSynRicev amb c a
    | .synInvia => trattaSynInvia amb c a
    | _ =>
      let p := trattaAperta amb ore c a
      let s := tcpSpingi amb ore.spingi p.1
      let k := tcpConsegna amb s.1
      (k.1, p.2 ++ s.2 ++ k.2)

def scaduta (ora scade : UInt32) : Bool := !isNegative (ora - scade)

/-- A time-out of the retransmission: from the first byte not confirmed. -/
def tcpRitrasmetti (ora oraSpingi : UInt32) (c : Conn) : Conn × List Segmento :=
  let c := { c with tentativi := c.tentativi + 1 }
  if tcpTentativi < c.tentativi then (tcpChiudiDura c, [])
  else
    let c := { c with rtoMs := c.rtoMs * 2, rtoScade := ora + c.rtoMs * 2 }
    if c.stato = .synInvia then
      let m := tcpManda amb { c with sndNxt := c.sndUna } { syn := true } []
      ({ m.1 with sndNxt := c.sndUna + 1 }, [m.2])
    else tcpSpingi amb oraSpingi { c with sndNxt := c.sndUna, finFuori := false }

/-- A round of `tcp_scadenze` over a slot that it does not free. -/
def tcpScadenza (ora oraSpingi : UInt32) (c : Conn) : Conn × List Segmento :=
  if c.stato = .finMio ∧ c.fin2Scade ≠ 0 ∧ scaduta ora c.fin2Scade then
    ({ c with stato := .morta, fin2Scade := 0, rtoScade := 0 }, [])
  else if c.attesaPid ≠ 0 ∧ c.attesaScade ≠ 0 ∧ scaduta ora c.attesaScade then
    let c := { c with attesaPid := 0 }
    (if c.stato = .synInvia then { c with stato := .morta, rtoScade := 0 } else c, [])
  else if c.rtoScade = 0 ∨ !scaduta ora c.rtoScade then (c, [])
  else tcpRitrasmetti amb ora oraSpingi c

/-! ## The programs -/

/-- How many of the bytes offered the queue has room for. -/
def tcpAccettati (c : Conn) (dati : List UInt8) : List UInt8 := dati.take (tcpBuf - c.txLen).toNat

def tcpInvia (ora : UInt32) (c : Conn) (dati : List UInt8) : Conn × List Segmento :=
  if c.stato ≠ .aperta ∧ c.stato ≠ .finSuo then (c, [])
  else if tcpAccettati c dati = [] then (c, [])
  else tcpSpingi amb ora { c with tx := c.tx ++ tcpAccettati c dati }

/-- The FIN gets its number: the one after the queue. -/
def finDeciso (c : Conn) : Conn :=
  { c with
    finSeq := c.sndUna + c.txLen
    finFuori := false
    stato := if c.stato = .finSuo then .ultimoAck else .finMio
    rtoScade := 0 }

def tcpMandaFin (c : Conn) : Conn × List Segmento :=
  let s := tcpSpingi amb ore.spingi (finDeciso c)
  ({ s.1 with rtoMs := tcpRtoMs, rtoScade := ore.fin + tcpRtoMs, tentativi := 0 }, s.2)

def tcpMezza (c : Conn) : Conn × List Segmento :=
  if c.stato = .aperta ∨ c.stato = .finSuo then tcpMandaFin amb ore c else (c, [])

def tcpChiudi (c : Conn) : Conn × List Segmento :=
  if c.chiusaCliente then (c, [])
  else
    let c := { c with
      attesaPid := if c.attesaTipo = .ricevi then 0 else c.attesaPid
      chiusaCliente := true
      rxLen := 0
      rxOff := 0
      fs := []
      finC := false }
    if c.stato = .aperta ∨ c.stato = .finSuo then tcpMandaFin amb ore c
    else if c.stato ≠ .finMio ∧ c.stato ≠ .ultimoAck then ({ c with stato := .morta }, [])
    else (c, [])

def tcpRicevi (cliente : UInt32) (c : Conn) : Conn × List Segmento :=
  tcpConsegna amb { c with attesaPid := cliente, attesaTipo := .ricevi, attesaScade := 0 }

def tcpFinOrfana (c : Conn) : Conn × List Segmento :=
  if (c.stato = .aperta ∨ c.stato = .finSuo) ∧ ¬c.chiusaCliente then
    tcpMandaFin amb ore { c with chiusaCliente := true }
  else (c, [])

/-- `tcp_apri`: our SYN has left. -/
def tcpApri (isn cliente attesaScade : UInt32) : Conn × List Segmento :=
  let c := { Conn.azzerata with
    stato := .synInvia, sndUna := isn, sndNxt := isn, finestra := 1024 }
  let m := tcpManda amb c { syn := true } []
  ({ m.1 with
      sndNxt := isn + 1, rtoMs := tcpRtoMs, rtoScade := ore.spingi + tcpRtoMs, tentativi := 0,
      attesaPid := cliente, attesaTipo := .apri, attesaScade := attesaScade }, [m.2])

/-- A SYN has come to a listener, our SYN and ACK has left. -/
def tcpNasce (isn : UInt32) (a : Arrivo) : Conn × List Segmento :=
  let c := { Conn.azzerata with
    stato := .synRicev, sndUna := isn, sndNxt := isn, finestra := a.finestra.toUInt32,
    rcvNxt := a.seq + 1 }
  let m := tcpManda amb c { syn := true, ack := true } []
  ({ m.1 with sndNxt := isn + 1 }, [m.2])

inductive EventoTcp where
  | segmento (amb : Ambiente) (ore : Ore) (a : Arrivo)
  | scadenza (amb : Ambiente) (ora oraSpingi : UInt32)
  | invia (amb : Ambiente) (ora : UInt32) (dati : List UInt8)
  | mezza (amb : Ambiente) (ore : Ore)
  | chiudi (amb : Ambiente) (ore : Ore)
  | finOrfana (amb : Ambiente) (ore : Ore)
  | ricevi (amb : Ambiente) (cliente : UInt32)
  | lascia
  | azzera

/-- The connections `tcp_cerca` finds. -/
def Conn.inTabella (c : Conn) : Bool := c.stato ≠ .libera && c.stato ≠ .morta && c.stato ≠ .ascolta

def passoTcp (c : Conn) : EventoTcp → Conn × List Segmento
  | .segmento amb ore a => if c.inTabella then trattaTcp amb ore c a else (c, [])
  | .scadenza amb ora oraSpingi =>
    if c.stato = .libera then (c, []) else tcpScadenza amb ora oraSpingi c
  | .invia amb ora dati => tcpInvia amb ora c dati
  | .mezza amb ore => tcpMezza amb ore c
  | .chiudi amb ore => if c.stato = .libera then (c, []) else tcpChiudi amb ore c
  | .finOrfana amb ore => tcpFinOrfana amb ore c
  | .ricevi amb cliente => if c.stato = .libera then (c, []) else tcpRicevi amb cliente c
  -- One owner of several lets go: what it waited for ends.
  | .lascia => ({ c with attesaPid := 0 }, [])
  -- The slot is taken back.
  | .azzera => (Conn.azzerata, [])

end ExOs.Net
