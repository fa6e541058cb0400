import ExOs.Library.RingBuffers
import ExOs.Ipc.Pipe

/-!
# Pseudo-terminals

`kernel/ipc/pty.c`: one pair, its two rings and its line discipline, the calls
on either end and `poll`.  As for a pipe, a call is cut where the kernel has
interrupts on.
-/

namespace ExOs.Ipc

open ExOs.Library

def ptyDim : Nat := 1024

def ptyRigaMax : Nat := 256

structure Anello where
  buf : Nat → UInt8
  testa : Nat
  quanti : Nat

namespace Anello

def vuoto : Anello := { buf := fun _ => 0, testa := 0, quanti := 0 }

def contenuto (a : Anello) : List UInt8 := ring ptyDim a.buf a.testa a.quanti

def metti (a : Anello) (c : UInt8) : Anello :=
  if ptyDim ≤ a.quanti then a
  else
    { a with
      buf := Function.update a.buf ((a.testa + a.quanti) % ptyDim) c
      quanti := a.quanti + 1 }

def prendi (a : Anello) (n : Nat) : Anello × List UInt8 :=
  let presi := min n a.quanti
  ({ a with testa := (a.testa + presi) % ptyDim, quanti := a.quanti - presi },
    ring ptyDim a.buf a.testa presi)

def svuota (a : Anello) : Anello := { a with quanti := 0 }

end Anello

/-! ## The modes -/

structure PtyTermios where
  iflag : UInt32
  oflag : UInt32
  lflag : UInt32
  cc : Nat → UInt8

namespace PtyTermios

variable (t : PtyTermios)

def istrip : Bool := t.iflag &&& 0x0020 != 0

def inlcr : Bool := t.iflag &&& 0x0040 != 0

def igncr : Bool := t.iflag &&& 0x0080 != 0

def icrnl : Bool := t.iflag &&& 0x0100 != 0

/-- `OPOST` and `ONLCR` together. -/
def onlcr : Bool := t.oflag &&& (0x0001 ||| 0x0004) == (0x0001 ||| 0x0004)

def isig : Bool := t.lflag &&& 0x0001 != 0

def icanon : Bool := t.lflag &&& 0x0002 != 0

def echo : Bool := t.lflag &&& 0x0008 != 0

def echoe : Bool := t.lflag &&& 0x0010 != 0

def echok : Bool := t.lflag &&& 0x0020 != 0

def noflsh : Bool := t.lflag &&& 0x0080 != 0

def vintr : UInt8 := t.cc 0

def verase : UInt8 := t.cc 2

def vkill : UInt8 := t.cc 3

def veof : UInt8 := t.cc 4

def vtime : UInt8 := t.cc 5

def vmin : UInt8 := t.cc 6

/-- What `memset` leaves. -/
def nessuno : PtyTermios := { iflag := 0, oflag := 0, lflag := 0, cc := fun _ => 0 }

def sano : PtyTermios where
  iflag := 0x0100
  oflag := 0x0001 ||| 0x0004
  lflag := 0x0001 ||| 0x0002 ||| 0x0008 ||| 0x0010 ||| 0x0020
  cc := fun i => [3, 28, 127, 21, 4, 0, 1, 0, 0, 0, 26].getD i 0

/-- `PTY_CTL_MODO`: without `PTY_CANONICO` the interrupt key goes too. -/
def modo (arg : UInt32) : PtyTermios :=
  let lflag := t.lflag &&& ~~~(0x0002 ||| 0x0008 ||| 0x0001)
  let lflag := if arg &&& 0x0001 != 0 then lflag ||| 0x0002 ||| 0x0001 else lflag
  { t with lflag := if arg &&& 0x0002 != 0 then lflag ||| 0x0008 else lflag }

end PtyTermios

inductive LatoPty where
  | ingresso
  | uscita
  | spazio
deriving DecidableEq

structure Pty where
  usata : Bool
  ingresso : Anello
  uscita : Anello
  riga : List UInt8
  t : PtyTermios
  pidFg : Nat
  masterAperti : Nat
  slaveAperti : Nat
  bloccato : Bool
  slaveAtteso : Bool
  attIn : Attese
  attOut : Attese
  attSpazio : Attese
  fineDati : Bool

/-- A pair after a section, the processes woken in it and those interrupted. -/
structure Effetto where
  pty : Pty
  svegliati : List Nat
  interrotti : List Nat

namespace Pty

variable (p : Pty)

def att : LatoPty → Attese
  | .ingresso => p.attIn
  | .uscita => p.attOut
  | .spazio => p.attSpazio

def conAtt (lato : LatoPty) (a : Attese) : Pty :=
  match lato with
  | .ingresso => { p with attIn := a }
  | .uscita => { p with attOut := a }
  | .spazio => { p with attSpazio := a }

def azzera : Pty where
  usata := false
  ingresso := Anello.vuoto
  uscita := Anello.vuoto
  riga := []
  t := PtyTermios.nessuno
  pidFg := 0
  masterAperti := 0
  slaveAperti := 0
  bloccato := false
  slaveAtteso := false
  attIn := { p.attIn with uno := 0, altri := [] }
  attOut := { p.attOut with uno := 0, altri := [] }
  attSpazio := { p.attSpazio with uno := 0, altri := [] }
  fineDati := false

def svegliaTutti : Pty × List Nat :=
  ({ p with
    attIn := p.attIn.sveglia
    attOut := p.attOut.sveglia
    attSpazio := p.attSpazio.sveglia },
    p.attIn.pid ++ p.attOut.pid ++ p.attSpazio.pid)

/-! ## The line discipline -/

def eco (c : UInt8) : Pty :=
  if p.t.echo then
    if c = 10 ∧ p.t.onlcr then { p with uscita := (p.uscita.metti 13).metti c }
    else { p with uscita := p.uscita.metti c }
  else p

def ecoStr (s : List UInt8) : Pty := s.foldl eco p

def consegnaRiga : Pty :=
  { p with ingresso := p.riga.foldl Anello.metti p.ingresso, riga := [] }

/-- The input processing: what the modes make of a byte. -/
def traduci (t : PtyTermios) (c : UInt8) : Option UInt8 :=
  let c := if t.istrip then c &&& 0x7F else c
  if c = 13 then
    if t.igncr then none
    else if t.icrnl then some 10
    else some 13
  else if c = 10 ∧ t.inlcr then some 13
  else some c

def cancella (mostra : Bool) : Pty :=
  let p := { p with riga := p.riga.dropLast }
  if mostra then p.ecoStr [8, 32, 8] else p

def uccidi (p : Pty) : Nat → Pty
  | 0 => p
  | n + 1 => (p.cancella p.t.echok).uccidi n

def tasto (c : UInt8) : Effetto :=
  if p.t.isig ∧ p.t.vintr ≠ 0 ∧ c = p.t.vintr then
    let p := p.ecoStr [94, 67, 10]
    let p := if p.t.noflsh then p else { p with riga := [], ingresso := p.ingresso.svuota }
    { pty := p, svegliati := [], interrotti := if p.pidFg = 0 then [] else [p.pidFg] }
  else if !p.t.icanon then
    { pty := { p with ingresso := p.ingresso.metti c }.eco c, svegliati := [], interrotti := [] }
  else if p.t.veof ≠ 0 ∧ c = p.t.veof then
    if p.riga = [] then
      { pty := { p with fineDati := true, attIn := p.attIn.sveglia }
        svegliati := p.attIn.pid, interrotti := [] }
    else { pty := p, svegliati := [], interrotti := [] }
  else if c = 8 ∨ c = 127 ∨ p.t.verase ≠ 0 ∧ c = p.t.verase then
    { pty := if p.riga = [] then p else p.cancella p.t.echoe, svegliati := [], interrotti := [] }
  else if p.t.vkill ≠ 0 ∧ c = p.t.vkill then
    { pty := p.uccidi p.riga.length, svegliati := [], interrotti := [] }
  else if c = 10 then
    let p := if p.riga.length < ptyRigaMax then { p with riga := p.riga ++ [10] } else p
    { pty := (p.eco 10).consegnaRiga, svegliati := [], interrotti := [] }
  -- The control characters stay out of a line of text.
  else if 32 ≤ c ∧ c ≠ 127 ∧ p.riga.length < ptyRigaMax - 1 then
    { pty := { p with riga := p.riga ++ [c] }.eco c, svegliati := [], interrotti := [] }
  else { pty := p, svegliati := [], interrotti := [] }

def disciplina (c : UInt8) : Effetto :=
  match traduci p.t c with
  | none => { pty := p, svegliati := [], interrotti := [] }
  | some c => p.tasto c

def batti (e : Effetto) (c : UInt8) : Effetto :=
  let d := e.pty.disciplina c
  { pty := d.pty
    svegliati := e.svegliati ++ d.svegliati
    interrotti := e.interrotti ++ d.interrotti }

/-- Whoever waits on a side is woken when `quando` holds. -/
def svegliaSe (quando : Bool) (lato : LatoPty) (e : Effetto) : Effetto :=
  if quando then
    { e with
      pty := e.pty.conAtt lato (e.pty.att lato).sveglia
      svegliati := e.svegliati ++ (e.pty.att lato).pid }
  else e

def scriviMaster (dati : List UInt8) : Effetto :=
  let e := dati.foldl batti { pty := p, svegliati := [], interrotti := [] }
  let e := svegliaSe (e.pty.ingresso.quanti ≠ 0) .ingresso e
  svegliaSe (e.pty.uscita.quanti ≠ 0) .uscita e

inductive Richiesta where
  | tcsets (t : PtyTermios)
  | tcsetsf (t : PtyTermios)
  | tcflsh (arg : Nat)
  | tiocsptlck (blocca : Bool)

/-- The modes set; leaving the canonical mode gives the half line. -/
def tcsets (t : PtyTermios) : Effetto :=
  let era := p.t.icanon
  let p := { p with t := t }
  let p := if era ∧ !t.icanon then p.consegnaRiga else p
  svegliaSe (p.ingresso.quanti ≠ 0) .ingresso { pty := p, svegliati := [], interrotti := [] }

def ioctl : Richiesta → Effetto
  | .tcsets t => p.tcsets t
  | .tcsetsf t =>
    { p with ingresso := p.ingresso.svuota, riga := [], fineDati := false }.tcsets t
  | .tcflsh arg =>
    let p :=
      if arg = 0 ∨ arg = 2 then { p with ingresso := p.ingresso.svuota, riga := [] } else p
    let p := if arg = 1 ∨ arg = 2 then { p with uscita := p.uscita.svuota } else p
    { pty := p, svegliati := [], interrotti := [] }
  | .tiocsptlck blocca =>
      { pty := { p with bloccato := blocca }, svegliati := [], interrotti := [] }

inductive Comando where
  | fg (pid : Nat)
  | modo (arg : UInt32)

def ctl : Comando → Pty
  | .fg pid => { p with pidFg := pid }
  | .modo arg => { p with t := p.t.modo arg, riga := [] }

/-! ## Opening and closing -/

/-- What `pty_apri` sets after its section. -/
def inizia : Pty := { p with t := PtyTermios.sano, masterAperti := 1, slaveAperti := 1 }

def apriPtmx : Pty := { p with slaveAperti := 0, slaveAtteso := true, bloccato := true }

def apriSlave : Pty :=
  if p.usata ∧ p.masterAperti ≠ 0 ∧ !p.bloccato then
    { p with slaveAperti := p.slaveAperti + 1, slaveAtteso := false }
  else p

def apriRiferimento (master : Bool) : Pty :=
  if !p.usata then p
  else if master then { p with masterAperti := p.masterAperti + 1 }
  else { p with slaveAperti := p.slaveAperti + 1 }

def lascia (master : Bool) : Pty :=
  if master then { p with masterAperti := p.masterAperti - 1 }
  else { p with slaveAperti := p.slaveAperti - 1 }

def azzeraSeOrfana : Pty :=
  if p.masterAperti = 0 ∧ p.slaveAperti = 0 then p.azzera else p

/-- The close of a process that dies, with interrupts off from end to end. -/
def chiudiLocked (master : Bool) : Pty × List Nat :=
  if !p.usata then (p, [])
  else
    let r := (p.lascia master).svegliaTutti
    (r.1.azzeraSeOrfana, r.2)

def prontoSlave : Bool :=
  if !p.t.icanon && 1 < p.t.vmin && p.t.vtime == 0 && 0 < p.ingresso.quanti &&
      p.ingresso.quanti < p.t.vmin.toNat && !p.fineDati && p.masterAperti != 0 then
    false
  else 0 < p.ingresso.quanti || p.fineDati || p.masterAperti == 0

def prontoMaster : Bool := 0 < p.uscita.quanti || p.slaveAperti == 0 && !p.slaveAtteso

end Pty

/-! ## Calls -/

/-- The variables of `pty_leggi_slave` that outlive a turn of its loop. -/
structure Lettura where
  canonico : Bool
  serve : Nat
  decimi : Nat
  inizio : UInt32
  visti : Nat
  partito : Bool
deriving DecidableEq

inductive ChiamataPty where
  | nessuna
  | leggiMaster (n : Nat)
  | leggiSlave (n : Nat) (l : Option Lettura)
  /-- The call of number `id` has written `scritti` of its bytes. -/
  | scriviSlave (id : Nat) (dati : List UInt8) (scritti : Nat)
  | poll (master : Bool)
  | chiudi (master : Bool)
  | apri (ptmx : Bool)

/-- What a call returns. -/
inductive Ritorno where
  | letti (byte : List UInt8)
  | scritti (n : Nat)
  | pronto
  | fatto
  | errore (e : Errno)

/-- Where a call goes on after a section. -/
inductive EsitoPty where
  | dorme
  | dormeFino
  | riposa
  | cresce
  | ancora
  | torna (r : Ritorno)

structure Turno where
  pty : Pty
  svegliati : List Nat
  chiamata : ChiamataPty
  esito : EsitoPty

namespace Lettura

inductive Sguardo where
  | prende
  | aspetta (aTempo : Bool)
deriving DecidableEq

def nuova (t : PtyTermios) (n : Nat) : Lettura where
  canonico := t.icanon
  serve := if t.icanon then 1 else min t.vmin.toNat n
  decimi := if t.icanon then 0 else t.vtime.toNat
  inizio := 0
  visti := 0
  partito := false

/-- The first half of a turn of the loop: whether what is there is enough. -/
def guarda (l : Lettura) (quanti : Nat) (ticks : UInt32) : Lettura × Sguardo :=
  if l.canonico ∨ 0 < l.serve ∧ l.decimi = 0 then
    (l, if (if l.canonico then 1 else l.serve) ≤ quanti then .prende else .aspetta false)
  else if l.serve = 0 ∧ l.decimi = 0 then (l, .prende)
  else if l.serve = 0 then
    if 0 < quanti then (l, .prende)
    else
      let l := if l.partito then l else { l with inizio := ticks, partito := true }
      (l, if l.decimi * 10 ≤ (ticks - l.inizio).toNat then .prende else .aspetta true)
  else if l.serve ≤ quanti then (l, .prende)
  else if 0 < quanti then
    let l := if quanti = l.visti then l else { l with visti := quanti, inizio := ticks }
    (l, if l.decimi * 10 ≤ (ticks - l.inizio).toNat then .prende else .aspetta true)
  else (l, .aspetta false)

end Lettura

namespace Pty

/-- The end of a turn that has to wait on a side. -/
def aspetta (p : Pty) (lato : LatoPty) (pid : Nat) (svegliati : List Nat)
    (chiamata : ChiamataPty) : Turno :=
  match (p.att lato).metti pid with
  | some a => ⟨p.conAtt lato a, svegliati, chiamata, .dorme⟩
  | none => ⟨p, svegliati, chiamata, .cresce⟩

def leggiMaster (p : Pty) (pid n : Nat) : Turno :=
  let io := ChiamataPty.leggiMaster n
  if !p.usata then ⟨p, [], io, .torna (.errore .ebadf)⟩
  else if 0 < p.uscita.quanti then
    let r := p.uscita.prendi (min n ptyDim)
    ⟨{ p with uscita := r.1, attSpazio := p.attSpazio.sveglia }, p.attSpazio.pid, io,
      .torna (.letti r.2)⟩
  else if p.slaveAperti = 0 ∧ !p.slaveAtteso then ⟨p, [], io, .torna (.letti [])⟩
  else p.aspetta .uscita pid [] io

/-- The bytes of `dati` that find room, and those left. -/
def versa (onlcr : Bool) (a : Anello) : List UInt8 → Anello × List UInt8
  | [] => (a, [])
  | c :: dati =>
    if ptyDim ≤ a.quanti then (a, c :: dati)
    else if c = 10 ∧ onlcr then
      if ptyDim - 2 < a.quanti then (a, c :: dati)
      else versa onlcr ((a.metti 13).metti c) dati
    else versa onlcr (a.metti c) dati

def scriviSlave (p : Pty) (pid id : Nat) (dati : List UInt8) (scritti : Nat) : Turno :=
  let io := ChiamataPty.scriviSlave id dati scritti
  if !p.usata then ⟨p, [], io, .torna (.errore .ebadf)⟩
  else if p.masterAperti = 0 then
    ⟨p, [], io, .torna (if scritti = 0 then .errore .epipe else .scritti scritti)⟩
  else
    let r := versa p.t.onlcr p.uscita (dati.drop scritti)
    let scritti := dati.length - r.2.length
    let io := ChiamataPty.scriviSlave id dati scritti
    let svegliati := p.attOut.pid
    let p := { p with uscita := r.1, attOut := p.attOut.sveglia }
    if r.2 = [] then ⟨p, svegliati, io, .torna (.scritti scritti)⟩
    else p.aspetta .spazio pid svegliati io

/-- The section before the loop of `pty_leggi_slave`. -/
def prepara (p : Pty) (n : Nat) : Turno :=
  if !p.usata then ⟨p, [], .leggiSlave n none, .torna (.errore .ebadf)⟩
  else ⟨p, [], .leggiSlave n (some (Lettura.nuova p.t (min n ptyDim))), .ancora⟩

def leggiSlave (p : Pty) (pid n : Nat) (l : Lettura) (ticks : UInt32) : Turno :=
  let visto := l.guarda p.ingresso.quanti ticks
  let io := ChiamataPty.leggiSlave n (some visto.1)
  let prende : Turno :=
    ⟨{ p with ingresso := (p.ingresso.prendi (min n ptyDim)).1 }, [], io,
      .torna (.letti (p.ingresso.prendi (min n ptyDim)).2)⟩
  if !p.usata then ⟨p, [], io, .torna (.errore .ebadf)⟩
  else
    match visto.2 with
    | .prende => prende
    | .aspetta aTempo =>
      if p.ingresso.quanti = 0 ∧ (p.fineDati ∨ p.masterAperti = 0) then
        ⟨{ p with fineDati := false }, [], io, .torna (.letti [])⟩
      else if 0 < p.ingresso.quanti ∧ p.masterAperti = 0 then prende
      else if aTempo then ⟨p, [], io, .riposa⟩
      else p.aspetta .ingresso pid [] io

/-- Without room in the list `poll` looks again at the next tick. -/
def poll (p : Pty) (pid : Nat) (master scaduto : Bool) : Turno :=
  let io := ChiamataPty.poll master
  let lato := if master then LatoPty.uscita else .ingresso
  if !p.usata || (if master then p.prontoMaster else p.prontoSlave) || scaduto then
    ⟨p, [], io, .torna .pronto⟩
  else
    match (p.att lato).metti pid with
    | some a => ⟨p.conAtt lato a, [], io, .dorme⟩
    | none => ⟨p, [], io, .dormeFino⟩

def turno (p : Pty) (pid : Nat) (ticks : UInt32) (scaduto : Bool) : ChiamataPty → Turno
  | .leggiMaster n =>
    if n = 0 then ⟨p, [], .leggiMaster n, .torna (.letti [])⟩ else p.leggiMaster pid n
  | .leggiSlave n none =>
    if n = 0 then ⟨p, [], .leggiSlave n none, .torna (.letti [])⟩ else p.prepara n
  | .leggiSlave n (some l) => p.leggiSlave pid n l ticks
  | .scriviSlave id dati scritti =>
    if dati = [] then ⟨p, [], .scriviSlave id dati scritti, .torna (.scritti 0)⟩
    else p.scriviSlave pid id dati scritti
  | .poll master => p.poll pid master scaduto
  | chiamata => ⟨p, [], chiamata, .ancora⟩

end Pty

/-! ## Processes on the pair -/

/-- `dorme` and `dormeFino` are blocked, the second until a tick; `riposa` is
asleep for a time and nobody else wakes it.  `chiude` is between the counter and
the section of `pty_chiudi`, `chiuso` after that section; `apre` and `ptmx` are
after the section of `pty_apri` and after its end. -/
inductive FasePty where
  | sezione
  | dorme
  | dormeFino
  | riposa
  | sveglio
  | misura
  | alloca (posti : Nat)
  | chiude
  | chiuso
  | apre
  | ptmx
deriving DecidableEq

structure ProcessoPty where
  chiamata : ChiamataPty
  fase : FasePty
  interrotto : Bool

namespace ProcessoPty

def libero (p : ProcessoPty) : ProcessoPty := { p with chiamata := .nessuna, fase := .sezione }

/-- A wake-up by pid finds only who is blocked. -/
def svegliato (p : ProcessoPty) : ProcessoPty :=
  match p.fase with
  | .dorme => { p with fase := .sveglio }
  | .dormeFino => { p with fase := .sveglio }
  | _ => p

end ProcessoPty

def Turno.processo (u : Turno) (io : ProcessoPty) : ProcessoPty :=
  match u.esito with
  | .dorme => { io with chiamata := u.chiamata, fase := .dorme }
  | .dormeFino => { io with chiamata := u.chiamata, fase := .dormeFino }
  | .riposa => { io with chiamata := u.chiamata, fase := .riposa }
  | .cresce => { io with chiamata := u.chiamata, fase := .misura }
  | .ancora => { io with chiamata := u.chiamata, fase := .sezione }
  | .torna _ => io.libero

/-- A byte that a write has been relieved of, and whether a newline became two
bytes then. -/
structure Presa where
  id : Nat
  byte : UInt8
  onlcr : Bool

def Presa.uscita (presa : Presa) : List UInt8 :=
  if presa.byte = 10 ∧ presa.onlcr then [13, 10] else [presa.byte]

/-- The pair, the processes by pid and the clock.  The rest is history:
`lettiMaster`, `lettiSlave` and `battuti` (the bytes typed, with the modes in
force) since the pair was opened, the data of the slave's writes by number, and
the bytes taken from them, of which `inizio` before the pair was opened. -/
structure Terminale where
  pty : Pty
  proc : Nat → ProcessoPty
  ticks : UInt32
  lettiMaster : List UInt8
  lettiSlave : List UInt8
  battuti : List (PtyTermios × UInt8)
  scritture : List (List UInt8)
  prese : List Presa
  inizio : Nat

namespace Terminale

variable (c : Terminale)

variable (pid : Nat)

def conProc (p : ProcessoPty) : Terminale :=
  { c with proc := Function.update c.proc pid p }

def conFase (fase : FasePty) : Terminale :=
  c.conProc pid { c.proc pid with fase := fase }

def libera : Terminale := c.conProc pid (c.proc pid).libero

def sveglia (svegliati : List Nat) : Terminale :=
  { c with proc := fun q => if q ∈ svegliati then (c.proc q).svegliato else c.proc q }

/-- `proc_interrompi_locked`. -/
def interrompi (interrotti : List Nat) : Terminale :=
  { c with
    proc := fun q =>
      if q ∈ interrotti then { (c.proc q).svegliato with interrotto := true } else c.proc q }

def effetto (e : Effetto) : Terminale :=
  ({ c with pty := e.pty }.sveglia e.svegliati).interrompi e.interrotti

/-- What a section has taken from a write, read off its counter. -/
def preseDa (p : Pty) : ChiamataPty → ChiamataPty → List Presa
  | .scriviSlave id dati prima, .scriviSlave _ _ dopo =>
    ((dati.drop prima).take (dopo - prima)).map fun byte => ⟨id, byte, p.t.onlcr⟩
  | _, _ => []

def annota (chiamata : ChiamataPty) (r : Ritorno) : Terminale :=
  match chiamata, r with
  | .leggiMaster _, .letti byte => { c with lettiMaster := c.lettiMaster ++ byte }
  | .leggiSlave _ _, .letti byte => { c with lettiSlave := c.lettiSlave ++ byte }
  | _, _ => c

/-- After a section of the call of `pid`: a process that wakes itself is still
running. -/
def dopo (u : Turno) : Terminale :=
  let d :=
    ({ c with
      pty := u.pty
      prese := c.prese ++ preseDa c.pty (c.proc pid).chiamata u.chiamata }.sveglia
        u.svegliati).conProc pid (u.processo (c.proc pid))
  match u.esito with
  | .torna r => d.annota u.chiamata r
  | _ => d

def lato : ChiamataPty → Option LatoPty
  | .leggiMaster _ => some .uscita
  | .leggiSlave _ _ => some .ingresso
  | .scriviSlave _ _ _ => some .spazio
  | .poll master => some (if master then .uscita else .ingresso)
  | _ => none

/-- After a wake-up `poll` leaves the list; the others stay in it. -/
def disregistra : Terminale :=
  match (c.proc pid).chiamata with
  | .poll master =>
    let lato := if master then LatoPty.uscita else .ingresso
    { c with pty := c.pty.conAtt lato ((c.pty.att lato).togli pid) }
  | _ => c

/-- After a wake-up: an interrupted read or write returns, a write with what it
has written. -/
def risveglio : ChiamataPty → Ritorno
  | .scriviSlave _ _ scritti => .scritti scritti
  | _ => .errore .eintr

def senzaMemoria : ChiamataPty → Ritorno
  | .scriviSlave _ _ scritti => if scritti = 0 then .errore .enomem else .scritti scritti
  | _ => .errore .enomem

/-- The next step of the call of `pid`, and what the call returns. -/
def avanza (memoria scaduto : Bool) : Terminale × Option Ritorno :=
  let io := c.proc pid
  match io.fase with
  | .sezione =>
    match io.chiamata with
    | .nessuna => (c, none)
    | .chiudi master =>
      if c.pty.usata then ({ c with pty := c.pty.lascia master }.conFase pid .chiude, none)
      else (c.libera pid, some .fatto)
    | .apri _ =>
      if c.pty.usata then (c, none)
      else
        ({ c with
          pty := { c.pty.azzera with usata := true }
          lettiMaster := []
          lettiSlave := []
          battuti := []
          inizio := c.prese.length }.conFase pid .apre, none)
    | chiamata =>
      let u := c.pty.turno pid c.ticks scaduto chiamata
      (c.dopo pid u, match u.esito with | .torna r => some r | _ => none)
  | .sveglio =>
    let c := c.disregistra pid
    if io.interrotto then (c.libera pid, some (risveglio io.chiamata))
    else (c.conFase pid .sezione, none)
  | .misura =>
    match lato io.chiamata with
    | none => (c, none)
    | some lato => (c.conFase pid (.alloca (c.pty.att lato).cresciPosti), none)
  | .alloca posti =>
    match lato io.chiamata with
    | none => (c, none)
    | some lato =>
      if memoria ∧ posti * 4 < 2 ^ 32 then
        ({ c with pty := c.pty.conAtt lato ((c.pty.att lato).cresci posti) }.conFase
          pid .sezione, none)
      else (c.libera pid, some (senzaMemoria io.chiamata))
  | .chiude =>
    let r := c.pty.svegliaTutti
    (({ c with pty := r.1 }.sveglia r.2).conFase pid .chiuso, none)
  | .chiuso => ({ c with pty := c.pty.azzeraSeOrfana }.libera pid, some .fatto)
  | .apre =>
    let c := { c with pty := c.pty.inizia }
    match io.chiamata with
    | .apri true => (c.conFase pid .ptmx, none)
    | _ => (c.libera pid, some .fatto)
  | .ptmx => ({ c with pty := c.pty.apriPtmx }.libera pid, some .fatto)
  | _ => (c, none)

end Terminale

/-- `sveglia` is a wake-up from elsewhere, such as a message or a deadline,
`scade` the end of a sleep; `muore` takes the process out of its call and
`chiudiLocked` closes one of its descriptors. -/
inductive EventoPty where
  | chiama (pid : Nat) (chiamata : ChiamataPty)
  | avanza (pid : Nat) (memoria scaduto : Bool)
  | scriviMaster (dati : List UInt8)
  | ioctl (richiesta : Pty.Richiesta)
  | ctl (comando : Pty.Comando)
  | apriSlave
  | apriRiferimento (master : Bool)
  | chiudiLocked (master : Bool)
  | sveglia (pid : Nat)
  | scade (pid : Nat)
  | interrompi (pid : Nat)
  | ripristina (pid : Nat)
  | muore (pid : Nat)
  | tick

namespace Terminale

/-- A call as it starts; a write is numbered. -/
def avvia (c : Terminale) (pid : Nat) (chiamata : ChiamataPty) : Terminale :=
  let io := fun chiamata : ChiamataPty =>
    { c.proc pid with chiamata := chiamata, fase := .sezione }
  match chiamata with
  | .scriviSlave _ dati _ =>
    { c.conProc pid (io (.scriviSlave c.scritture.length dati 0)) with
      scritture := c.scritture ++ [dati] }
  | .leggiSlave n _ => c.conProc pid (io (.leggiSlave n none))
  | chiamata => c.conProc pid (io chiamata)

def passo (c : Terminale) : EventoPty → Terminale
  | .chiama pid chiamata =>
    match (c.proc pid).chiamata, (c.proc pid).fase with
    | .nessuna, .sezione => if pid = 0 then c else c.avvia pid chiamata
    | _, _ => c
  | .avanza pid memoria scaduto => (c.avanza pid memoria scaduto).1
  | .scriviMaster dati =>
    if c.pty.usata then
      { c.effetto (c.pty.scriviMaster dati) with
        battuti := c.battuti ++ dati.map fun byte => (c.pty.t, byte) }
    else c
  | .ioctl richiesta => if c.pty.usata then c.effetto (c.pty.ioctl richiesta) else c
  | .ctl comando => if c.pty.usata then { c with pty := c.pty.ctl comando } else c
  | .apriSlave => { c with pty := c.pty.apriSlave }
  | .apriRiferimento master => { c with pty := c.pty.apriRiferimento master }
  | .chiudiLocked master =>
    { c with pty := (c.pty.chiudiLocked master).1 }.sveglia (c.pty.chiudiLocked master).2
  | .sveglia pid => c.sveglia [pid]
  | .scade pid =>
    match (c.proc pid).fase with
    | .riposa => c.conFase pid .sveglio
    | _ => c
  | .interrompi pid => c.interrompi [pid]
  | .ripristina pid => c.conProc pid { c.proc pid with interrotto := false }
  | .muore pid => c.libera pid
  | .tick => { c with ticks := c.ticks + 1 }

/-- A pair just taken from memory and processes outside it. -/
def Iniziale (c : Terminale) : Prop :=
  c.pty.usata = false ∧ c.pty.attIn = Attese.vuote ∧ c.pty.attOut = Attese.vuote ∧
    c.pty.attSpazio = Attese.vuote ∧
    (∀ pid, (c.proc pid).chiamata = .nessuna ∧ (c.proc pid).fase = .sezione) ∧
    c.scritture = [] ∧ c.prese = [] ∧ c.inizio = 0

end Terminale

end ExOs.Ipc
