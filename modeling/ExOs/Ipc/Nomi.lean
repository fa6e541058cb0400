import Mathlib.Data.Nat.Digits.Defs
import Mathlib.Logic.Function.Basic
import ExOs.Ipc.Processi
import ExOs.Library.Runs

/-!
# Service names

`ipc_register`, `ipc_lookup` and the names that `ipc_cleanup_process` gives
back, over the table of the processes: a slot is taken, gets its pid, lives,
becomes a zombie, is cleaned up and is free again.
-/

namespace ExOs.Ipc

open ExOs.Library Function

def ipcNameLen : Nat := 16

def ipcNomiMax : Nat := 128

/-- A string in memory, up to its first zero byte. -/
abbrev Stringa := Nat → UInt8

def nomeUgualeDa (a b : Stringa) (j : Nat) : Nat → Bool
  | 0 => true
  | resto + 1 =>
    if a j ≠ b j then false
    else if a j = 0 then true
    else nomeUgualeDa a b (j + 1) resto

def nomeUguale (a b : Stringa) : Bool := nomeUgualeDa a b 0 ipcNameLen

/-- The length of a string, looking at `resto` bytes at most. -/
def lunghezza (name : Stringa) (len : Nat) : Nat → Nat
  | 0 => len
  | resto + 1 => if name len = 0 then len else lunghezza name (len + 1) resto

/-- The name written into an entry; what was behind its zero stays. -/
def copiaNome (nome name : Stringa) (k : Nat) : Nat → Stringa
  | 0 => nome
  | resto + 1 =>
    let nome := update nome k (name k)
    if name k = 0 then nome else copiaNome nome name (k + 1) resto

def rovescia (v : Nat) : List UInt8 :=
  if v = 0 then [] else UInt8.ofNat (48 + v % 10) :: rovescia (v / 10)

/-- What the name of a user has to start with. -/
def atteso (uid : UInt32) : List UInt8 :=
  (if uid = 0 then [48] else (rovescia uid.toNat).reverse) ++ [58]

def combacia (name : Stringa) (k : Nat) : List UInt8 → Bool
  | [] => true
  | c :: resto => if name k ≠ c then false else combacia name (k + 1) resto

/-! ## The tables -/

/-- `numerato` and `raccolto` say how far `proc_create` and `proc_reap_zombie`
have got; `seriale` tells apart the processes that have been in the slot. -/
structure Posto extends Scheda where
  uid : UInt32
  numerato : Bool
  raccolto : Bool
  seriale : Nat

/-- A slot as `pcb_alloc` leaves it before it marks it. -/
def Posto.vuoto : Posto where
  pid := 0
  stato := .unused
  uid := 0
  numerato := false
  raccolto := false
  seriale := 0

/-- An entry is free with pid zero; `chi` is who wrote it. -/
structure Voce where
  pid : UInt32
  nome : Stringa
  chi : Nat

/-- A name accepted from the process `chi`, of user `uid` then. -/
structure Registrazione where
  chi : Nat
  uid : UInt32
  nome : List UInt8

/-- The tables; `nati` counts the pids given and `registrati` is the history of
the names accepted. -/
structure Anagrafe where
  posti : Nat
  proc : Nat → Posto
  nomi : Nat → Voce
  nextPid : UInt32
  nati : Nat
  registrati : List Registrazione

/-- The text of a name, of `resto` bytes at most. -/
def testoDa (a : Stringa) (j : Nat) : Nat → List UInt8
  | 0 => []
  | resto + 1 => if a j = 0 then [] else a j :: testoDa a (j + 1) resto

def testo (a : Stringa) : List UInt8 := testoDa a 0 ipcNameLen

namespace Anagrafe

variable (c : Anagrafe)

def voceViva (v : Voce) : Bool :=
  if v.pid = 0 then false
  else
    match procGetByPid c.posti (fun i => (c.proc i).toScheda) v.pid with
    | none => false
    | some p => (c.proc p).stato.vivo

def cercaNome (name : Stringa) : Option Nat :=
  (List.range ipcNomiMax).find? fun i =>
    c.voceViva (c.nomi i) && nomeUguale (c.nomi i).nome name

/-- The first entry that is free or of a process that is no more. -/
def voceLibera : Option Nat :=
  (List.range ipcNomiMax).find? fun i => !c.voceViva (c.nomi i)

def scrivi (self i : Nat) (name : Stringa) : Anagrafe :=
  { c with
    nomi := update c.nomi i
      { pid := (c.proc self).pid
        nome := copiaNome (c.nomi i).nome name 0 ipcNameLen
        chi := (c.proc self).seriale }
    registrati := c.registrati ++ [⟨(c.proc self).seriale, (c.proc self).uid, testo name⟩] }

/-- `ipc_register` called by the process in slot `self`. -/
def ipcRegister (self : Nat) (name : Option Stringa) : Anagrafe × Except ErroreIpc Unit :=
  match name with
  | none => (c, .error .einval)
  | some name =>
    if name 0 = 0 then (c, .error .einval)
    else if name (lunghezza name 0 (ipcNameLen - 1)) ≠ 0 then (c, .error .einval)
    else
      match c.cercaNome name with
      | some _ => (c, .error .eexist)
      | none =>
        if (c.proc self).uid ≠ 0 ∧ combacia name 0 (atteso (c.proc self).uid) = false then
          (c, .error .eperm)
        else
          match c.voceLibera with
          | none => (c, .error .enospc)
          | some i => (c.scrivi self i name, .ok ())

/-- `ipc_lookup`: the pid comes back as a signed number. -/
def ipcLookup (name : Option Stringa) : Except ErroreIpc Int :=
  match name with
  | none => .error .einval
  | some name =>
    if name 0 = 0 then .error .einval
    else
      match c.cercaNome name with
      | none => .error .enoent
      | some i => .ok (c.nomi i).pid.toInt32.toInt

/-- The names of a process given back by `ipc_cleanup_process`. -/
def ipcCleanupProcess (pid : UInt32) : Anagrafe :=
  { c with nomi := fun i => if (c.nomi i).pid = pid then { c.nomi i with pid := 0 } else c.nomi i }

def conPosto (p : Nat) (posto : Posto) : Anagrafe :=
  { c with proc := update c.proc p posto }

/-- The slot that `pcb_alloc` takes. -/
def primoLibero : Option Nat :=
  (List.range c.posti).find? fun i => (c.proc i).stato = .unused

end Anagrafe

/-- `cresce` is one more block of slots; `alloca`, `numera` and `fallisce` are the steps of the
creation of a process, `muta` a move of the scheduler, and `ripulisce` and `libera` the end of a
zombie. -/
inductive EventoNomi where
  | cresce (posti : Nat)
  | alloca
  | numera (p : Nat) (uid : UInt32)
  | fallisce (p : Nat)
  | muta (p : Nat) (stato : Stato)
  | setuid (p : Nat) (uid : UInt32)
  | registra (p : Nat) (name : Option Stringa)
  | esce (p : Nat)
  | ripulisce (p : Nat)
  | libera (p : Nat)

namespace Anagrafe

def passo (c : Anagrafe) : EventoNomi → Anagrafe
  | .cresce posti =>
    { c with
      posti := c.posti + posti
      proc := fun i => if i < c.posti then c.proc i else Posto.vuoto }
  | .alloca =>
    match c.primoLibero with
    | none => c
    | some p => c.conPosto p { Posto.vuoto with stato := .nascente }
  | .numera p uid =>
    if p < c.posti ∧ (c.proc p).stato = .nascente ∧ (c.proc p).numerato = false then
      { c.conPosto p
          { c.proc p with pid := c.nextPid, uid := uid, numerato := true, seriale := c.nati } with
        nextPid := c.nextPid + 1
        nati := c.nati + 1 }
    else c
  | .fallisce p =>
    if p < c.posti ∧ (c.proc p).stato = .nascente then
      c.conPosto p { c.proc p with stato := .unused }
    else c
  | .muta p stato =>
    if p < c.posti ∧ (c.proc p).stato.vivo = true ∧ (c.proc p).numerato = true ∧
        stato.vivo = true ∧ stato ≠ .nascente then
      c.conPosto p { c.proc p with stato := stato }
    else c
  | .setuid p uid =>
    if p < c.posti ∧ (c.proc p).stato.vivo = true then c.conPosto p { c.proc p with uid := uid }
    else c
  | .registra p name =>
    if p < c.posti ∧ (c.proc p).stato = .running ∧ (c.proc p).numerato = true then
      (c.ipcRegister p name).1
    else c
  | .esce p =>
    if p < c.posti ∧ (c.proc p).stato.vivo = true ∧ (c.proc p).numerato = true then
      c.conPosto p { c.proc p with stato := .zombie }
    else c
  | .ripulisce p =>
    if p < c.posti ∧ (c.proc p).stato = .zombie then
      (c.ipcCleanupProcess (c.proc p).pid).conPosto p { c.proc p with raccolto := true }
    else c
  | .libera p =>
    if p < c.posti ∧ (c.proc p).stato = .zombie ∧ (c.proc p).raccolto = true then
      c.conPosto p { c.proc p with stato := .unused, pid := 0 }
    else c

/-- The tables at the start: no process has a pid yet and no name is taken. -/
def Iniziale (c : Anagrafe) : Prop :=
  (∀ p < c.posti, c.proc p = Posto.vuoto) ∧ (∀ i < ipcNomiMax, (c.nomi i).pid = 0) ∧
    c.nextPid = 1 ∧ c.nati = 0 ∧ c.registrati = []

end Anagrafe

end ExOs.Ipc
