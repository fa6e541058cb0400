import ExOs.Library.Sequence

/-!
# The receive buffer of a TCP connection

`drivers/ip/tcp_rx.inc`: segments in order are appended to the good bytes; one
that arrives ahead is kept beyond them, at its distance, and a small list says
which stretches are there.  Reads move the offset of the good bytes.
-/

namespace ExOs.Net

open ExOs.Library

def tcpBuf : UInt32 := 4096

def tcpFs : Nat := 8

/-- A stretch out of order, in sequence numbers: from `da` to before `a`. -/
structure Tratto where
  da : UInt32
  a : UInt32
deriving DecidableEq

/-- The fields of a connection that the buffer uses. -/
structure Ricezione where
  rx : Option (Nat → UInt8)
  rxDim : UInt32
  rxRiserva : Nat → UInt8
  rxLen : UInt32
  rxOff : UInt32
  rcvNxt : UInt32
  fs : List Tratto

/-- What `rx_cap` finds the first time: the size asked for, the large buffers
already taken and how many there may be, and what `malloc` gives. -/
structure Ambiente where
  gRxDim : UInt32
  gRxGrandi : UInt32
  rxGrandiMax : UInt32
  malloc : Option (Nat → UInt8)

/-- No large buffer is ever given. -/
def ambRiserva : Ambiente := { gRxDim := 4096, gRxGrandi := 0, rxGrandiMax := 0, malloc := none }

/-- A connection just opened: the slot was cleared. -/
def Ricezione.nuova (rcvNxt : UInt32) : Ricezione :=
  { rx := none, rxDim := 0, rxRiserva := fun _ => 0, rxLen := 0, rxOff := 0, rcvNxt := rcvNxt,
    fs := [] }

variable (c : Ricezione)

def Ricezione.byte : Nat → UInt8 := c.rx.getD c.rxRiserva

def memcpy (buffer : Nat → UInt8) (dove : Nat) (dati : Nat → UInt8) (n : Nat) : Nat → UInt8 :=
  fun i => if dove ≤ i ∧ i < dove + n then dati (i - dove) else buffer i

def rxCap (amb : Ambiente) (c : Ricezione) : Ricezione :=
  if c.rx.isNone then
    let grande := tcpBuf < amb.gRxDim ∧ ¬amb.rxGrandiMax ≤ amb.gRxGrandi
    let rx := if grande then amb.malloc else none
    { c with
      rx := some (rx.getD c.rxRiserva)
      rxDim := if rx.isSome then amb.gRxDim else tcpBuf }
  else c

/-- How far beyond the good bytes the stretches reach. -/
def estensione : UInt32 :=
  c.fs.foldl (fun est t => if est < t.a - c.rcvNxt then t.a - c.rcvNxt else est) 0

/-- The good bytes to the head of the buffer, and the stretches with them. -/
def rxCompatta : Ricezione :=
  if c.rxOff = 0 then c
  else
    { c with
      rx := some (memcpy c.byte 0 (fun i => c.byte (c.rxOff.toNat + i))
        (c.rxLen + estensione c).toNat)
      rxOff := 0 }

def avanti (x : UInt32) : Bool := x ≠ 0 && !isNegative x

/-- An element taken out: the last one goes to its place. -/
def togliTratto (fs : List Tratto) (i : Nat) : List Tratto :=
  match fs.getLast? with
  | none => fs
  | some ultimo => (fs.set i ultimo).dropLast

/-- One stretch, at place `i`, that is no longer ahead. -/
def assorbiUno (t : Tratto) (i : Nat) : Ricezione :=
  if avanti (t.a - c.rcvNxt) then
    { c with
      rxLen := c.rxLen + (t.a - c.rcvNxt)
      rcvNxt := t.a
      fs := togliTratto c.fs i }
  else { c with fs := togliTratto c.fs i }

/-- The loop of `rx_assorbi`: the first stretch that is not ahead, and again from
the start.  Each round takes one out. -/
def assorbiGiri : Nat → Ricezione → Ricezione
  | 0, c => c
  | giri + 1, c =>
    let i := c.fs.findIdx fun t => !avanti (t.da - c.rcvNxt)
    match c.fs[i]? with
    | none => c
    | some t => assorbiGiri giri (assorbiUno c t i)

def rxAssorbi : Ricezione := assorbiGiri c.fs.length c

/-- A piece that arrived `d` bytes ahead is kept. -/
def rxTieni (amb : Ambiente) (c : Ricezione) (seq d : UInt32) (dati : Nat → UInt8) (n : UInt32) :
    Ricezione :=
  let c := rxCompatta (rxCap amb c)
  let scritto := { c with rx := some (memcpy c.byte (c.rxLen + d).toNat dati n.toNat) }
  if c.rxDim < c.rxLen + d + n then c
  else if { da := seq, a := seq + n } ∈ c.fs then scritto
  else if tcpFs ≤ c.fs.length then c
  else { scritto with fs := c.fs ++ [{ da := seq, a := seq + n }] }

inductive EsitoRx where
  | vecchio
  | buono
  | tenuto
  | pieno
deriving DecidableEq

/-- A piece that starts where the good bytes end. -/
def rxInOrdine (dati : Nat → UInt8) (n : UInt32) : Ricezione × EsitoRx :=
  if c.rxDim < c.rxLen + n then (c, .pieno)
  else
    let c := if 0 < c.rxOff ∧ c.rxDim < c.rxOff + c.rxLen + n then rxCompatta c else c
    (rxAssorbi { c with
        rx := some (memcpy c.byte (c.rxOff + c.rxLen).toNat dati n.toNat)
        rxLen := c.rxLen + n
        rcvNxt := c.rcvNxt + n },
      .buono)

def rxDati (amb : Ambiente) (c : Ricezione) (seq : UInt32) (dati : Nat → UInt8) (n : UInt32) :
    Ricezione × EsitoRx :=
  let c := rxCap amb c
  let d := seq - c.rcvNxt
  if isNegative d then
    -- Seen already, all or in part: only the new tail is kept.
    let visti := 0 - d
    if n ≤ visti then (c, .vecchio)
    else rxInOrdine c (fun i => dati (visti.toNat + i)) (n - visti)
  else if d ≠ 0 then (rxTieni amb c seq d dati n, .tenuto)
  else rxInOrdine c dati n

/-- What the reader takes, `massimo` bytes at most. -/
def letti (massimo : UInt32) : UInt32 := if massimo < c.rxLen then massimo else c.rxLen

/-- The read, as `tcp_consegna` does it. -/
def leggi (massimo : UInt32) : Ricezione × List UInt8 :=
  let n := letti c massimo
  let dopo := { c with rxOff := c.rxOff + n, rxLen := c.rxLen - n }
  (if dopo.rxLen = 0 ∧ dopo.fs = [] then { dopo with rxOff := 0 } else dopo,
    (List.range n.toNat).map fun i => c.byte (c.rxOff.toNat + i))

end ExOs.Net
