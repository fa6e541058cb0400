import ExOs.Library.RingBuffers
import ExOs.Ipc.Attese

/-!
# Pipes

`kernel/ipc/pipe.c`: one pipe, its two ends opened and closed, and the calls
that read, write and poll it.  A call is cut where the kernel has interrupts
on: each section with interrupts off is one step.
-/

namespace ExOs.Ipc

open ExOs.Library Function

def pipeDim : Nat := 4096

def pipeTranche : Nat := 1024

inductive Errno where
  | ebadf
  | eagain
  | epipe
  | enomem
  | eintr
deriving DecidableEq

inductive Lato where
  | lettura
  | scrittura
deriving DecidableEq

structure Pipe where
  usata : Bool
  testa : Nat
  quanti : Nat
  lettori : Nat
  scrittori : Nat
  attLettori : Attese
  attScrittori : Attese
  buf : Nat → UInt8

/-- Where a call goes on after a section, or what it returns. -/
inductive Esito where
  | dorme (aTempo : Bool)
  | cresce
  | letti (byte : List UInt8)
  | scritti (n : Nat)
  | pronto
  | errore (e : Errno)

namespace Pipe

variable (p : Pipe)

def att : Lato → Attese
  | .lettura => p.attLettori
  | .scrittura => p.attScrittori

variable (lato : Lato)

def conAtt (a : Attese) : Pipe :=
  match lato with
  | .lettura => { p with attLettori := a }
  | .scrittura => { p with attScrittori := a }

def contenuto : List UInt8 := ring pipeDim p.buf p.testa p.quanti

/-! ## Opening and closing -/

def liberaSeOrfana : Pipe :=
  if p.lettori = 0 ∧ p.scrittori = 0 then
    { p with
      usata := false
      testa := 0
      quanti := 0
      attLettori := { p.attLettori with uno := 0, altri := [] }
      attScrittori := { p.attScrittori with uno := 0, altri := [] } }
  else p

def crea : Pipe :=
  { p with
    usata := true
    testa := 0
    quanti := 0
    lettori := 1
    scrittori := 1
    attLettori := { p.attLettori with uno := 0, altri := [] }
    attScrittori := { p.attScrittori with uno := 0, altri := [] } }

def apriLettore : Pipe :=
  if p.usata then { p with lettori := p.lettori + 1 } else p

def apriScrittore : Pipe :=
  if p.usata then { p with scrittori := p.scrittori + 1 } else p

/-- The processes woken stand beside the pipe. -/
def chiudiLettore : Pipe × List Nat :=
  if p.usata then
    let p := { p with lettori := p.lettori - 1 }
    if p.lettori = 0 then
      ({ p with attScrittori := p.attScrittori.sveglia }.liberaSeOrfana, p.attScrittori.pid)
    else (p.liberaSeOrfana, [])
  else (p, [])

def chiudiScrittore : Pipe × List Nat :=
  if p.usata then
    let p := { p with scrittori := p.scrittori - 1 }
    if p.scrittori = 0 then
      ({ p with attLettori := p.attLettori.sveglia }.liberaSeOrfana, p.attLettori.pid)
    else (p.liberaSeOrfana, [])
  else (p, [])

def aspetta (pid : Nat) : Pipe × List Nat × Esito :=
  match (p.att lato).metti pid with
  | some a => (p.conAtt lato a, [], .dorme false)
  | none => (p, [], .cresce)

def leggi (pid n : Nat) (nonblocca : Bool) : Pipe × List Nat × Esito :=
  if !p.usata then (p, [], .errore .ebadf)
  else if 0 < p.quanti then
    let presi := min n p.quanti
    ({ p with
      testa := (p.testa + presi) % pipeDim
      quanti := p.quanti - presi
      attScrittori := p.attScrittori.sveglia },
      p.attScrittori.pid, .letti (ring pipeDim p.buf p.testa presi))
  else if p.scrittori = 0 then (p, [], .letti [])
  else if nonblocca then (p, [], .errore .eagain)
  else p.aspetta .lettura pid

/-- `appoggio` is the copy of the caller's bytes. -/
def scrivi (pid : Nat) (appoggio : List UInt8) (nonblocca : Bool) : Pipe × List Nat × Esito :=
  if !p.usata then (p, [], .errore .ebadf)
  else if p.lettori = 0 then (p, [], .errore .epipe)
  else if p.quanti < pipeDim then
    let messi := min appoggio.length (pipeDim - p.quanti)
    let inizio := (p.testa + p.quanti) % pipeDim
    ({ p with
      buf := ringWrite pipeDim p.buf inizio (appoggio.take messi)
      quanti := p.quanti + messi
      attLettori := p.attLettori.sveglia },
      p.attLettori.pid, .scritti messi)
  else if nonblocca then (p, [], .errore .eagain)
  else p.aspetta .scrittura pid

/-- `poll_guarda`: data or room if they are asked for, the end of the data or of the readers in
any case.  `chiesto` says whether `events` has `POLLIN` on a read end, `POLLOUT` on the other. -/
def pollGuarda (chiesto : Bool) : Lato → Bool
  | .lettura => chiesto && 0 < p.quanti || p.scrittori == 0
  | .scrittura => chiesto && p.quanti < pipeDim || p.lettori == 0

/-- What a read or a write waits for. -/
def pronta : Bool := p.pollGuarda true lato

/-- `poll_registra` takes a place only for the event that is asked for; without room in the list
`poll` looks again at the next tick. -/
def poll (chiesto : Bool) (pid : Nat) (scaduto : Bool) : Pipe × List Nat × Esito :=
  if !p.usata || p.pollGuarda chiesto lato || scaduto then (p, [], .pronto)
  else if !chiesto then (p, [], .dorme false)
  else
    match (p.att lato).metti pid with
    | some a => (p.conAtt lato a, [], .dorme false)
    | none => (p, [], .dorme true)

end Pipe

/-! ## Processes on the pipe -/

inductive Chiamata where
  | nessuna
  | leggi (n : Nat) (nonblocca : Bool)
  | scrivi (dati : List UInt8) (nonblocca : Bool)
  | poll (lato : Lato) (chiesto : Bool)

def Chiamata.lato : Chiamata → Option Lato
  | .nessuna => none
  | .leggi _ _ => some .lettura
  | .scrivi _ _ => some .scrittura
  | .poll lato _ => some lato

/-- Every call but a `poll` that does not ask for the event of its end. -/
def Chiamata.chiede : Chiamata → Bool
  | .poll _ chiesto => chiesto
  | _ => true

def Esito.presi : Esito → List UInt8
  | .letti byte => byte
  | _ => []

/-- The bytes that a call says it has written. -/
def Chiamata.messi (chiamata : Chiamata) (esito : Esito) : List UInt8 :=
  match chiamata, esito with
  | .scrivi dati _, .scritti n => dati.take n
  | _, _ => []

/-- `sezione` is before a section with interrupts off, `dorme` inside
`sched_block`, `sveglio` just after it, `misura` and `alloca` in
`attese_cresci`. -/
inductive Fase where
  | sezione
  | dorme (aTempo : Bool)
  | sveglio
  | misura
  | alloca (posti : Nat)
deriving DecidableEq

structure Processo where
  chiamata : Chiamata
  fase : Fase
  interrotto : Bool

def Processo.libero (p : Processo) : Processo := { p with chiamata := .nessuna, fase := .sezione }

def Processo.svegliato (p : Processo) : Processo :=
  match p.fase with
  | .dorme _ => { p with fase := .sveglio }
  | _ => p

/-- The pipe and the processes by pid; `letti` and `scritti` are the bytes that
the reads have returned and the writes have reported since the pipe was
made. -/
structure Tubo where
  pipe : Pipe
  proc : Nat → Processo
  letti : List UInt8
  scritti : List UInt8

namespace Tubo

variable (c : Tubo)

def sveglia (svegliati : List Nat) : Tubo :=
  { c with proc := fun q => if q ∈ svegliati then (c.proc q).svegliato else c.proc q }

def conFase (pid : Nat) (fase : Fase) : Tubo :=
  { c with proc := update c.proc pid { c.proc pid with fase := fase } }

/-- The call of `pid` returns, and what it returns is noted. -/
def ritorna (pid : Nat) (esito : Esito) : Tubo :=
  { c with
    proc := update c.proc pid (c.proc pid).libero
    letti := c.letti ++ esito.presi
    scritti := c.scritti ++ (c.proc pid).chiamata.messi esito }

/-- After a turn of the loop of `pid`: the system, and what the call
returns. -/
def dopo (pid : Nat) : Pipe × List Nat × Esito → Tubo × Option Esito
  | (p, svegliati, esito) =>
    let c := { c with pipe := p }
    match esito with
    | .dorme aTempo => ((c.conFase pid (.dorme aTempo)).sveglia svegliati, none)
    | .cresce => ((c.conFase pid .misura).sveglia svegliati, none)
    | _ => ((c.ritorna pid esito).sveglia svegliati, some esito)

/-- The next section of the call of `pid`; `memoria` says whether `kmalloc` has
an array, `scaduto` whether the time of a `poll` is over. -/
def avanza (pid : Nat) (memoria scaduto : Bool) : Tubo × Option Esito :=
  let io := c.proc pid
  match io.fase with
  | .sezione =>
    match io.chiamata with
    | .nessuna => (c, none)
    | .leggi n nonblocca =>
      if n = 0 then (c.ritorna pid (.letti []), some (.letti []))
      else c.dopo pid (c.pipe.leggi pid (min n pipeTranche) nonblocca)
    | .scrivi dati nonblocca =>
      if dati = [] then (c.ritorna pid (.scritti 0), some (.scritti 0))
      else c.dopo pid (c.pipe.scrivi pid (dati.take pipeTranche) nonblocca)
    | .poll lato chiesto => c.dopo pid (c.pipe.poll lato chiesto pid scaduto)
  | .dorme _ => (c, none)
  | .sveglio =>
    -- `poll` leaves the list first; the others stay in it.
    let c :=
      match io.chiamata with
      | .poll lato _ => { c with pipe := c.pipe.conAtt lato ((c.pipe.att lato).togli pid) }
      | _ => c
    if io.interrotto then (c.ritorna pid (.errore .eintr), some (.errore .eintr))
    else (c.conFase pid .sezione, none)
  | .misura =>
    match io.chiamata.lato with
    | none => (c, none)
    | some lato => (c.conFase pid (.alloca (c.pipe.att lato).cresciPosti), none)
  | .alloca posti =>
    match io.chiamata.lato with
    | none => (c, none)
    | some lato =>
      if memoria ∧ posti * 4 < 2 ^ 32 then
        ({ c with pipe := c.pipe.conAtt lato ((c.pipe.att lato).cresci posti) }.conFase
          pid .sezione, none)
      else (c.ritorna pid (.errore .enomem), some (.errore .enomem))

end Tubo

/-- `sveglia` is a wake-up from elsewhere, such as a message or a deadline;
`muore` takes the process out of its call. -/
inductive EventoPipe where
  | chiama (pid : Nat) (chiamata : Chiamata)
  | avanza (pid : Nat) (memoria scaduto : Bool)
  | sveglia (pid : Nat)
  | interrompi (pid : Nat)
  | ripristina (pid : Nat)
  | muore (pid : Nat)
  | crea
  | apriLettore
  | apriScrittore
  | chiudiLettore
  | chiudiScrittore

namespace Tubo

def conProc (c : Tubo) (pid : Nat) (p : Processo) : Tubo := { c with proc := update c.proc pid p }

def passo (c : Tubo) : EventoPipe → Tubo
  | .chiama pid chiamata =>
    match (c.proc pid).chiamata with
    | .nessuna =>
      if pid = 0 then c
      else c.conProc pid { c.proc pid with chiamata := chiamata, fase := .sezione }
    | _ => c
  | .avanza pid memoria scaduto => (c.avanza pid memoria scaduto).1
  | .sveglia pid => c.sveglia [pid]
  | .interrompi pid =>
    (c.conProc pid { c.proc pid with interrotto := true }).sveglia [pid]
  | .ripristina pid => c.conProc pid { c.proc pid with interrotto := false }
  | .muore pid => c.conProc pid (c.proc pid).libero
  | .crea =>
    if c.pipe.usata then c else { c with pipe := c.pipe.crea, letti := [], scritti := [] }
  | .apriLettore => { c with pipe := c.pipe.apriLettore }
  | .apriScrittore => { c with pipe := c.pipe.apriScrittore }
  | .chiudiLettore => { c with pipe := c.pipe.chiudiLettore.1 }.sveglia c.pipe.chiudiLettore.2
  | .chiudiScrittore =>
    { c with pipe := c.pipe.chiudiScrittore.1 }.sveglia c.pipe.chiudiScrittore.2

/-- A pipe just taken from memory and processes outside it. -/
def Iniziale (c : Tubo) : Prop :=
  c.pipe.usata = false ∧ c.pipe.quanti = 0 ∧ c.pipe.attLettori = Attese.vuote ∧
    c.pipe.attScrittori = Attese.vuote ∧
    ∀ pid, (c.proc pid).chiamata = .nessuna ∧ (c.proc pid).fase = .sezione

end Tubo

end ExOs.Ipc
