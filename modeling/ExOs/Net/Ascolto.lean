import ExOs.Net.Tcp

/-!
# Listeners and accept

`drivers/ip/ip.c`: the table of the slots, seen by what `accept()` needs.  A
connection born from a SYN remembers the slot of its listener; those who wait
are on the listener, one in `attesa_pid` and the others in a queue.  Of a
connection only the state is kept; its own events are in `passoTcp`.  Births,
calls and answers carry numbers that the program does not have, so that a run
can say what was given to whom.
-/

namespace ExOs.Net

/-- A call of `accept()` in the queue of a listener. -/
structure AttesaAcc where
  pid : UInt32
  scade : UInt32
  chiamata : Nat
deriving DecidableEq

/-- A slot of the table.  `nascita` numbers what lives in it, `figlia` is the number of
the listener that the SYN reached, and `chiamata` that of the call in `attesaPid`. -/
structure Posto where
  stato : StatoTcp
  porta : UInt32
  ascoltatore : Nat
  accettata : Bool
  chiusaCliente : Bool
  proprietario : UInt32
  altri : List UInt32
  attesaPid : UInt32
  attesaTipo : AttesaTipo
  attesaScade : UInt32
  acc : List AttesaAcc
  nascita : Nat
  figlia : Nat
  chiamata : Nat
deriving DecidableEq

def Posto.azzerato : Posto :=
  { stato := .libera, porta := 0, ascoltatore := 0, accettata := false, chiusaCliente := false,
    proprietario := 0, altri := [], attesaPid := 0, attesaTipo := .apri, attesaScade := 0,
    acc := [], nascita := 0, figlia := 0, chiamata := 0 }

/-- The answer to an `accept()`: a connection, with the listener it was asked of and
the one it was born for, and the ports of the two; or an error. -/
inductive EsitoAccetta where
  | errore (codice : Int)
  | conn (nascita ascoltatore figlia : Nat) (portaAscoltatore porta : UInt32)
deriving DecidableEq

structure Risposta where
  chiamata : Nat
  esito : EsitoAccetta
deriving DecidableEq

structure Tabella where
  posti : List Posto
  nascite : Nat
  chiamate : Nat
  risposte : List Risposta
deriving DecidableEq

/-- What the driver finds around it during an event: who is alive, of which group, who
takes a message, whether memory is given, which slots nobody waits for and no set
holds, and the closed slot that has waited longest. -/
structure Sistema where
  vivo : UInt32 → Bool
  gruppo : UInt32 → UInt32
  ipcSend : UInt32 → Bool
  memoria : Bool
  sciolto : Nat → Bool
  vecchia : Nat
  tcpMax : Nat

def einval : Int := 22
def eagain : Int := 11
def enomem : Int := 12
def econnaborted : Int := 103
def etimedout : Int := 110

def Tabella.cambia (t : Tabella) (i : Nat) (f : Posto → Posto) : Tabella :=
  { t with posti := t.posti.modify i f }

def Tabella.risponde (t : Tabella) (r : Risposta) : Tabella :=
  { t with risposte := t.risposte ++ [r] }

variable (p : Posto)

def Posto.padroneDi (g : UInt32) : Bool :=
  g ≠ 0 && (p.proprietario = g || p.altri.contains g)

/-- An owner goes; the last of the others takes its place. -/
def Posto.padroneLascia (g : UInt32) : Posto :=
  if p.proprietario = g then
    match p.altri.getLast? with
    | none => p
    | some ultimo => { p with proprietario := ultimo, altri := p.altri.dropLast }
  else
    match p.altri.getLast? with
    | none => p
    | some ultimo =>
      if p.altri.contains g then { p with altri := (p.altri.set (p.altri.idxOf g) ultimo).dropLast }
      else p

/-- The others, from the last, until one that is alive. -/
def padroniGiri (vivo : UInt32 → Bool) (p : Posto) : Nat → Posto × UInt32
  | 0 => (p, 0)
  | giri + 1 =>
    match p.altri.getLast? with
    | none => (p, 0)
    | some g =>
      if vivo g then ({ p with proprietario := g, altri := p.altri.dropLast }, g)
      else padroniGiri vivo { p with altri := p.altri.dropLast } giri

/-- An owner that is alive, who becomes the first, or 0. -/
def Posto.padroniVivi (vivo : UInt32 → Bool) (p : Posto) : Posto × UInt32 :=
  if vivo p.proprietario then (p, p.proprietario) else padroniGiri vivo p p.altri.length

/-- The index of the listener, if it is there and its port is the connection's. -/
def tcpSuoAscoltatore (t : Tabella) (j : Nat) (c : Posto) : Option Nat :=
  if c.ascoltatore = 0 then none
  else
    match t.posti[c.ascoltatore - 1]? with
    | none => none
    | some a =>
      if c.ascoltatore - 1 = j ∨ a.stato ≠ .ascolta ∨ a.porta ≠ c.porta then none
      else some (c.ascoltatore - 1)

variable (s : Sistema)

/-- An owner of the slot that is alive, or 0: before it is accepted, one of the
listener's. -/
def connViva (t : Tabella) (j : Nat) : Tabella × UInt32 :=
  match t.posti[j]? with
  | none => (t, 0)
  | some c =>
    let i :=
      if c.ascoltatore ≠ 0 ∧ ¬c.accettata then (tcpSuoAscoltatore t j c).getD j else j
    match t.posti[i]? with
    | none => (t, 0)
    | some p =>
      let r := p.padroniVivi s.vivo
      (t.cambia i fun _ => r.1, r.2)

def accAvanza : Posto :=
  if p.attesaPid ≠ 0 then p
  else
    match p.acc with
    | [] => p
    | a :: resto =>
      { p with
        attesaPid := a.pid, attesaScade := a.scade, attesaTipo := .accetta, acc := resto,
        chiamata := a.chiamata }

/-- `none`: there is no memory. -/
def accAccoda (memoria : Bool) (p : Posto) (pid scade : UInt32) (chiamata : Nat) : Option Posto :=
  if p.acc.any fun a => a.pid = pid then
    some { p with
      acc := p.acc.modify (p.acc.findIdx fun a => a.pid = pid) fun a => { a with scade := scade } }
  else if memoria then
    some { p with acc := p.acc ++ [{ pid := pid, scade := scade, chiamata := chiamata }] }
  else none

def accAnnulla (codice : Int) : Posto × List Risposta :=
  ({ p with acc := [] }, p.acc.map fun a => { chiamata := a.chiamata, esito := .errore codice })

def AttesaAcc.scaduta (ora : UInt32) (a : AttesaAcc) : Bool :=
  a.scade ≠ 0 && Net.scaduta ora a.scade

def accScadenze (ora : UInt32) : Posto × List Risposta :=
  ({ p with acc := p.acc.filter fun a => !a.scaduta ora },
    (p.acc.filter (AttesaAcc.scaduta ora)).map fun a =>
      { chiamata := a.chiamata, esito := .errore (-etimedout) })

/-- From now on the connection is its acceptor's. -/
def tcpDaiA (chi : UInt32) (c : Posto) : Posto :=
  { c with accettata := true, proprietario := s.gruppo chi, altri := [] }

def EsitoAccetta.consegnata (asc c : Posto) : EsitoAccetta :=
  .conn c.nascita asc.nascita c.figlia asc.porta c.porta

/-- The first one that waits on `i` and takes the message gets the connection `j`. -/
def accConsegna (s : Sistema) (t : Tabella) (i j : Nat) : Nat → Tabella
  | 0 => t
  | giri + 1 =>
    match t.posti[i]?, t.posti[j]? with
    | some asc, some c =>
      if asc.attesaPid ≠ 0 ∧ asc.attesaTipo = .accetta then
        let libero := accAvanza { asc with attesaPid := 0 }
        if s.ipcSend asc.attesaPid then
          ((t.risponde { chiamata := asc.chiamata, esito := .consegnata asc c }).cambia j
            (tcpDaiA s asc.attesaPid)).cambia i fun _ => libero
        else accConsegna s (t.cambia i fun _ => libero) i j giri
      else t
    | _, _ => t

def tcpSlotAzzera (t : Tabella) (i : Nat) : Tabella :=
  match t.posti[i]? with
  | none => t
  | some p =>
    let r := accAnnulla p (-econnaborted)
    { t with posti := t.posti.set i Posto.azzerato, risposte := t.risposte ++ r.2 }

def tcpSlotNuovo (t : Tabella) : Tabella × Option Nat :=
  let i := t.posti.findIdx fun p => p.stato = .libera
  if i < t.posti.length then (t, some i)
  else if s.tcpMax ≤ t.posti.length ∨ ¬s.memoria then (t, none)
  else ({ t with posti := t.posti ++ [Posto.azzerato] }, some t.posti.length)

/-- One slot of `tcp_riprendi_orfane`: the table, the last owner found alive and how many
were taken back. -/
def riprendiUno (r : Tabella × UInt32 × Nat) (i : Nat) : Tabella × UInt32 × Nat :=
  match r.1.posti[i]? with
  | none => r
  | some c =>
    if c.stato = .libera ∨ c.proprietario = r.2.1 then r
    else
      let v := connViva s r.1 i
      if v.2 ≠ 0 then (v.1, v.2, r.2.2) else (tcpSlotAzzera v.1 i, r.2.1, r.2.2 + 1)

def tcpRiprendiOrfane (t : Tabella) : Tabella × Nat :=
  let r := (List.range t.posti.length).foldl (riprendiUno s) (t, 0, 0)
  (r.1, r.2.2)

/-- The slot closed by its owner that has waited longest. -/
def tcpReclaimClosed (t : Tabella) : Tabella × Nat :=
  match t.posti[s.vecchia]? with
  | none => (t, 0)
  | some c =>
    if c.stato = .libera ∨ ¬c.chiusaCliente then (t, 0) else (tcpSlotAzzera t s.vecchia, 1)

/-- A slot, with those of dead programs when there is none. -/
def slotORiprende (t : Tabella) : Tabella × Option Nat :=
  let r := tcpSlotNuovo s t
  if r.2.isSome then r
  else
    let o := tcpRiprendiOrfane s r.1
    if 0 < o.2 then tcpSlotNuovo s o.1 else (o.1, none)

/-- For a SYN, one that its owner has closed if no program is dead. -/
def slotPerSyn (t : Tabella) : Tabella × Option Nat :=
  let r := tcpSlotNuovo s t
  if r.2.isSome then r
  else
    let o := tcpRiprendiOrfane s r.1
    if 0 < o.2 then tcpSlotNuovo s o.1
    else
      let k := tcpReclaimClosed s o.1
      if 0 < k.2 then tcpSlotNuovo s k.1 else (k.1, none)

/-- For a call that opens, a finished one first. -/
def slotPerApri (t : Tabella) : Tabella × Option Nat :=
  let r := tcpSlotNuovo s t
  if r.2.isSome then r
  else
    match (List.range r.1.posti.length).find? fun i =>
        (r.1.posti[i]?.any fun p => p.stato = .morta) && s.sciolto i with
    | some i => (r.1, some i)
    | none =>
      let o := slotORiprende s r.1
      if o.2.isSome then o
      else
        let k := tcpReclaimClosed s o.1
        if 0 < k.2 then tcpSlotNuovo s k.1 else (k.1, none)

/-! ## Requests -/

/-- The slot that a number stands for, if its owner asks. -/
def tcpDaId (t : Tabella) (id : Nat) (cliente : UInt32) : Option Posto :=
  if id = 0 then none
  else (t.posti[id - 1]?).filter fun c => c.stato ≠ .libera && c.padroneDi (s.gruppo cliente)

/-- Something new in a slot, which is cleared first. -/
def Tabella.nasce (t : Tabella) (i : Nat) (p : Posto) : Tabella :=
  let t := tcpSlotAzzera t i
  { t with posti := t.posti.set i { p with nascita := t.nascite }, nascite := t.nascite + 1 }

/-- One slot of the search for another listener on the port; `true`: there is one. -/
def occupataUno (porta : UInt32) (r : Tabella × Bool) (i : Nat) : Tabella × Bool :=
  if r.2 then r
  else
    match r.1.posti[i]? with
    | none => r
    | some p =>
      if p.stato = .ascolta ∧ p.porta = porta then
        let v := connViva s r.1 i
        if v.2 ≠ 0 then (v.1, true)
        else
          let o := tcpRiprendiOrfane s v.1
          (o.1, !(0 < o.2 && o.1.posti[i]?.any fun p => p.stato = .libera))
      else r

def ascoltaPosto (t : Tabella) (porta : UInt32) : Tabella × Option Nat :=
  if porta = 0 ∨ 65535 < porta then (t, none)
  else
    let r := (List.range t.posti.length).foldl (occupataUno s porta) (t, false)
    if r.2 then (r.1, none) else slotORiprende s r.1

def tcpAscolta (t : Tabella) (cliente porta : UInt32) : Tabella :=
  let r := ascoltaPosto s t porta
  match r.2 with
  | none => r.1
  | some i =>
    r.1.nasce i
      { Posto.azzerato with stato := .ascolta, porta := porta, proprietario := s.gruppo cliente }

def daAccettare (c : Posto) : Bool := c.stato = .aperta || c.stato = .finSuo

/-- The connections that a call of `accept()` on `id` may take. -/
def Posto.pronta (id : Nat) (c : Posto) : Bool :=
  !c.accettata && c.ascoltatore = id && daAccettare c

def tcpAccetta (t : Tabella) (cliente : UInt32) (id : Nat) (timeoutMs ora : UInt32) : Tabella :=
  let k := t.chiamate
  let t := { t with chiamate := k + 1 }
  match tcpDaId s t id cliente with
  | none => t.risponde { chiamata := k, esito := .errore (-einval) }
  | some asc =>
    if asc.stato ≠ .ascolta then t.risponde { chiamata := k, esito := .errore (-einval) }
    else
      let j := t.posti.findIdx (Posto.pronta id)
      match t.posti[j]? with
      | some c =>
        (t.risponde { chiamata := k, esito := .consegnata asc c }).cambia j (tcpDaiA s cliente)
      | none =>
        if timeoutMs = 0 then t.risponde { chiamata := k, esito := .errore (-eagain) }
        else if asc.attesaPid ≠ 0 ∧ asc.attesaPid ≠ cliente ∧ asc.attesaTipo = .accetta then
          match accAccoda s.memoria asc cliente (ora + timeoutMs) k with
          | none => t.risponde { chiamata := k, esito := .errore (-enomem) }
          | some asc => t.cambia (id - 1) fun _ => asc
        else
          t.cambia (id - 1) fun asc =>
            { asc with
              attesaPid := cliente, attesaTipo := .accetta, attesaScade := ora + timeoutMs,
              chiamata := k }

/-- The answer to the one in `attesa_pid`, if it is an `accept()` that waits. -/
def Posto.rispostaAttesa (codice : Int) : List Risposta :=
  if p.attesaPid ≠ 0 ∧ p.attesaTipo = .accetta then
    [{ chiamata := p.chiamata, esito := .errore codice }]
  else []

/-- Who waited is answered, and the next one waits. -/
def fineAttesa (t : Tabella) (i : Nat) (p : Posto) (codice : Int) : Tabella :=
  let libero := { p with attesaPid := 0 }
  { t with
    posti := t.posti.set i (if p.stato = .ascolta then accAvanza libero else libero)
    risposte := t.risposte ++ p.rispostaAttesa codice }

/-- The state after the close of the last owner. -/
def statoChiuso : StatoTcp → StatoTcp
  | .aperta => .finMio
  | .finSuo => .ultimoAck
  | .finMio => .finMio
  | .ultimoAck => .ultimoAck
  | _ => .morta

def chiudiDavvero (t : Tabella) (i : Nat) (c : Posto) : Tabella :=
  if c.chiusaCliente ∧ c.stato ≠ .ascolta then t
  else if c.stato = .ascolta then
    tcpSlotAzzera
      { t with
        posti := t.posti.set i { c with attesaPid := 0 }
        risposte := t.risposte ++ c.rispostaAttesa (-econnaborted) } i
  else
    { t with posti := t.posti.set i { c with chiusaCliente := true, stato := statoChiuso c.stato } }

def tcpChiudiPosto (t : Tabella) (cliente : UInt32) (id : Nat) (spegni : Bool) : Tabella :=
  match tcpDaId s t id cliente with
  | none => t
  | some c =>
    if ¬spegni ∧ c.altri ≠ [] then
      let r := (c.padroneLascia (s.gruppo cliente)).padroniVivi s.vivo
      if r.2 ≠ 0 then
        if r.1.attesaPid ≠ 0 ∧ s.gruppo r.1.attesaPid = s.gruppo cliente then
          fineAttesa t (id - 1) r.1 (-econnaborted)
        else { t with posti := t.posti.set (id - 1) r.1 }
      else
        let c := { r.1 with proprietario := s.gruppo cliente }
        chiudiDavvero { t with posti := t.posti.set (id - 1) c } (id - 1) c
    else chiudiDavvero t (id - 1) c

def tcpBussa (t : Tabella) (porta : UInt32) : Tabella :=
  let i := t.posti.findIdx fun p => p.stato = .ascolta && p.porta = porta
  match t.posti[i]? with
  | none => t
  | some asc =>
    let v := asc.padroniVivi s.vivo
    let t := t.cambia i fun _ => v.1
    if v.2 = 0 then (tcpRiprendiOrfane s t).1
    else
      let r := slotPerSyn s t
      match r.2 with
      | none => r.1
      | some k =>
        let t := tcpSlotAzzera r.1 k
        let asc := (t.posti[i]?).getD Posto.azzerato
        t.nasce k
          { Posto.azzerato with
            stato := .synRicev, porta := porta, proprietario := asc.proprietario,
            ascoltatore := i + 1, figlia := asc.nascita }

/-- The ACK of our SYN and ACK: the first one that waits gets the connection. -/
def tcpApre (t : Tabella) (j : Nat) : Tabella :=
  match t.posti[j]? with
  | none => t
  | some c =>
    if c.stato ≠ .synRicev then t
    else
      let t := { t with posti := t.posti.set j { c with stato := .aperta } }
      match tcpSuoAscoltatore t j c with
      | none => t
      | some i => accConsegna s t i j ((t.posti[i]?.map fun p => p.acc.length + 1).getD 0)

/-- One slot of a round of `tcp_scadenze`; of a connection, only whether it is freed. -/
def tcpGiro (t : Tabella) (j : Nat) (ora : UInt32) : Tabella :=
  match t.posti[j]? with
  | none => t
  | some c =>
    if c.stato = .morta ∧ s.sciolto j ∧ (c.chiusaCliente ∨ (c.ascoltatore ≠ 0 ∧ ¬c.accettata)) then
      tcpSlotAzzera t j
    else if c.stato = .ascolta then
      let r := accScadenze c ora
      let t := { t with posti := t.posti.set j r.1, risposte := t.risposte ++ r.2 }
      if r.1.attesaPid ≠ 0 ∧ r.1.attesaScade ≠ 0 ∧ scaduta ora r.1.attesaScade then
        fineAttesa t j r.1 (-etimedout)
      else t
    else t

/-- Where a connection may go by its own events. -/
def mossa : StatoTcp → StatoTcp → Bool
  | .synInvia, b => b = .synInvia || b = .aperta || b = .morta
  | .synRicev, b => b = .synRicev || b = .morta
  | .aperta, b => b = .aperta || b = .finSuo || b = .finMio || b = .morta
  | .finSuo, b => b = .finSuo || b = .ultimoAck || b = .morta
  | .finMio, b => b = .finMio || b = .ultimoAck || b = .morta
  | .ultimoAck, b => b = .ultimoAck || b = .morta
  | .morta, b => b = .morta
  | .libera, b => b = .libera
  | .ascolta, b => b = .ascolta

inductive EventoTabella where
  | ascolta (s : Sistema) (cliente porta : UInt32)
  | bussa (s : Sistema) (porta : UInt32)
  | apre (s : Sistema) (j : Nat)
  | muove (j : Nat) (stato : StatoTcp)
  | accetta (s : Sistema) (cliente : UInt32) (id : Nat) (timeoutMs ora : UInt32)
  | chiudi (s : Sistema) (cliente : UInt32) (id : Nat) (spegni : Bool)
  | giro (s : Sistema) (j : Nat) (ora : UInt32)
  | finOrfana (s : Sistema) (j : Nat)
  | ricevi (s : Sistema) (cliente : UInt32) (id : Nat)
  | eredita (s : Sistema) (cliente : UInt32) (id : Nat) (pid : UInt32)
  | apri (s : Sistema) (cliente porta : UInt32) (riesce : Bool)

def passoTabella (t : Tabella) : EventoTabella → Tabella
  | .ascolta s cliente porta => tcpAscolta s t cliente porta
  | .bussa s porta => tcpBussa s t porta
  | .apre s j => tcpApre s t j
  | .muove j stato =>
    t.cambia j fun c => if mossa c.stato stato then { c with stato := stato } else c
  | .accetta s cliente id timeoutMs ora => tcpAccetta s t cliente id timeoutMs ora
  | .chiudi s cliente id spegni => tcpChiudiPosto s t cliente id spegni
  | .giro s j ora => tcpGiro s t j ora
  | .finOrfana s j =>
    match t.posti[j]? with
    | none => t
    | some c =>
      if (c.stato = .aperta ∨ c.stato = .finSuo) ∧ ¬c.chiusaCliente then
        let v := connViva s t j
        if v.2 ≠ 0 then v.1
        else v.1.cambia j fun c => { c with chiusaCliente := true, stato := statoChiuso c.stato }
      else t
  -- A call to receive on a listener takes the place of the one that waits there.
  | .ricevi s cliente id =>
    match tcpDaId s t id cliente with
    | none => t
    | some c =>
      if c.stato = .ascolta then
        t.cambia (id - 1) fun c =>
          { c with attesaPid := cliente, attesaTipo := .ricevi, attesaScade := 0 }
      else t
  | .eredita s cliente id pid =>
    match tcpDaId s t id cliente with
    | none => t
    | some c =>
      if pid = 0 ∨ c.padroneDi (s.gruppo pid) ∨ ¬s.memoria then t
      else t.cambia (id - 1) fun c => { c with altri := c.altri ++ [s.gruppo pid] }
  | .apri s cliente porta riesce =>
    let r := slotPerApri s t
    match r.2 with
    | none => r.1
    | some i =>
      if riesce then
        r.1.nasce i
          { Posto.azzerato with
            stato := .synInvia, porta := porta, proprietario := s.gruppo cliente }
      else r.1

end ExOs.Net
