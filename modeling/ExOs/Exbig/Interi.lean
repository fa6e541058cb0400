import Mathlib.Logic.Function.Basic
import ExOs.Library.Words

/-!
# Long integers

`lib/exbig/exbig.c`: numbers of at most 4096 bits in words of 32, Montgomery's
product and the modular operations.  `somma` and `sottrai` write through a
pointer that may be one of those they read, so they work on a memory of named
variables; the other functions are functions of the numbers.
-/

namespace ExOs.Exbig

open Function

def exbigParole : Nat := 128

structure ExBig where
  n : Nat
  p : Nat → UInt32

/-- A variable of the caller, or one of the function that is running. -/
inductive Variabile where
  | di (i : Nat)
  | locale (i : Nat)
deriving DecidableEq

abbrev Memoria := Variabile → ExBig

/-! ## The elementary things -/

def normalizzaDa (p : Nat → UInt32) : Nat → Nat
  | 0 => 0
  | n + 1 => if p n = 0 then normalizzaDa p n else n + 1

def normalizza (a : ExBig) : ExBig := { a with n := normalizzaDa a.p a.n }

def exbigZero : ExBig := { n := 0, p := fun _ => 0 }

def exbigDaParola (v : UInt32) : ExBig :=
  if v ≠ 0 then { n := 1, p := update exbigZero.p 0 v } else exbigZero

def cmpDa (a b : Nat → UInt32) : Nat → Int
  | 0 => 0
  | i + 1 => if a i ≠ b i then (if b i < a i then 1 else -1) else cmpDa a b i

def exbigCmp (a b : ExBig) : Int :=
  if a.n ≠ b.n then (if b.n < a.n then 1 else -1) else cmpDa a.p b.p a.n

/-- How many times a word can be halved, of `giri` at most. -/
def contaBit : Nat → UInt32 → Nat
  | 0, _ => 0
  | giri + 1, alta => if alta = 0 then 0 else contaBit giri (alta >>> 1) + 1

def exbigBit (a : ExBig) : Nat :=
  if a.n = 0 then 0 else (a.n - 1) * 32 + contaBit 32 (a.p (a.n - 1))

def ExBig.parola (a : ExBig) (i : Nat) : UInt32 := if i < a.n then a.p i else 0

/-! ## Sum and difference -/

variable (mem : Memoria)

def scrivi (r : Variabile) (i : Nat) (v : UInt32) : Memoria :=
  update mem r { mem r with p := update (mem r).p i v }

/-- The end of a sum or a difference of `n` words: those above are cleared. -/
def chiudi (r : Variabile) (n : Nat) : Memoria :=
  update mem r
    (normalizza { n := n, p := fun i => if n ≤ i ∧ i < exbigParole then 0 else (mem r).p i })

def sommaGiri (mem : Memoria) (r a b : Variabile) : Nat → Memoria × UInt64
  | 0 => (mem, 0)
  | i + 1 =>
    let prima := sommaGiri mem r a b i
    let t := prima.2 + (((prima.1 a).parola i).toUInt64 + ((prima.1 b).parola i).toUInt64)
    (scrivi prima.1 r i t.toUInt32, t >>> 32)

/-- The sum, and what is left of the carry when there is no word for it. -/
def somma (r a b : Variabile) : Memoria × UInt32 :=
  let n := if (mem b).n < (mem a).n then (mem a).n else (mem b).n
  let giri := sommaGiri mem r a b n
  if giri.2 ≠ 0 ∧ n < exbigParole then (chiudi (scrivi giri.1 r n giri.2.toUInt32) r (n + 1), 0)
  else (chiudi giri.1 r n, giri.2.toUInt32)

def sottraiGiri (mem : Memoria) (r a b : Variabile) : Nat → Memoria × UInt64
  | 0 => (mem, 0)
  | i + 1 =>
    let prima := sottraiGiri mem r a b i
    let t := ((prima.1 a).p i).toUInt64 - ((prima.1 b).parola i).toUInt64 - prima.2
    (scrivi prima.1 r i t.toUInt32, (t >>> 32) &&& 1)

def sottrai (r a b : Variabile) : Memoria :=
  chiudi (sottraiGiri mem r a b (mem a).n).1 r (mem a).n

/-- Two numbers in two variables, beside the one for the result. -/
def locali (x y : ExBig) : Memoria
  | .locale 1 => x
  | .locale 2 => y
  | _ => exbigZero

def sommaIn (x y : ExBig) : ExBig × UInt32 :=
  let r := somma (locali x y) (.locale 0) (.locale 1) (.locale 2)
  (r.1 (.locale 0), r.2)

def sottraiIn (x y : ExBig) : ExBig :=
  sottrai (locali x y) (.locale 0) (.locale 1) (.locale 2) (.locale 0)

def togliGiri (p : Nat → UInt32) (m : ExBig) : Nat → (Nat → UInt32) × UInt64
  | 0 => (p, 0)
  | i + 1 =>
    let prima := togliGiri p m i
    let s := (prima.1 i).toUInt64 - (m.parola i).toUInt64 - prima.2
    (update prima.1 i s.toUInt32, (s >>> 32) &&& 1)

/-- `m` taken from a number that has one more word than it shows. -/
def togliM (r m : ExBig) (n : Nat) : ExBig := normalizza { n := n, p := (togliGiri r.p m n).1 }

/-! ## Montgomery -/

def newton (m : UInt32) : Nat → UInt32
  | 0 => m
  | i + 1 => newton m i * (2 - m * newton m i)

def n0Inverso (m : UInt32) : UInt32 := 0 - newton m 5

/-- The products of a row added to the accumulator, and the carry out of it. -/
def riga (t a : Nat → UInt32) (x : UInt32) : Nat → (Nat → UInt32) × UInt64
  | 0 => (t, 0)
  | j + 1 =>
    let prima := riga t a x j
    let s := (prima.1 j).toUInt64 + (a j).toUInt64 * x.toUInt64 + prima.2
    (update prima.1 j s.toUInt32, s >>> 32)

/-- The row, with its carry in the two words above. -/
def aggiungi (t a : Nat → UInt32) (x : UInt32) (n : Nat) : Nat → UInt32 :=
  let r := riga t a x n
  let s := (r.1 n).toUInt64 + r.2
  let t := update r.1 n s.toUInt32
  update t (n + 1) (t (n + 1) + (s >>> 32).toUInt32)

def scorri (t : Nat → UInt32) (n : Nat) : Nat → UInt32 :=
  fun j => if j ≤ n then t (j + 1) else if j = n + 1 then 0 else t j

def montGiro (t : Nat → UInt32) (a b m : ExBig) (n0 : UInt32) (n i : Nat) : Nat → UInt32 :=
  let t := aggiungi t a.p (b.parola i) n
  let u := ((t 0).toUInt64 * n0.toUInt64).toUInt32
  scorri (aggiungi t m.p u n) n

def montGiri (a b m : ExBig) (n0 : UInt32) (n : Nat) : Nat → Nat → UInt32
  | 0 => fun _ => 0
  | i + 1 => montGiro (montGiri a b m n0 n i) a b m n0 n i

def montMul (a b m : ExBig) (n0 : UInt32) (n : Nat) : ExBig :=
  let t := montGiri a b m n0 n n
  let r := normalizza { n := n, p := fun i => if i < n then t i else 0 }
  if t n ≠ 0 then togliM r m n
  else if 0 ≤ exbigCmp r m then sottraiIn r m
  else r

/-- A number doubled, the modulus taken from it where it is reached. -/
def raddoppia (rr m : ExBig) (n : Nat) : ExBig :=
  let d := sommaIn rr rr
  if d.2 ≠ 0 then togliM d.1 m n
  else if 0 ≤ exbigCmp d.1 m then sottraiIn d.1 m
  else d.1

def raddoppiGiri (m : ExBig) (n : Nat) : Nat → ExBig
  | 0 => exbigDaParola 1
  | i + 1 => raddoppia (raddoppiGiri m n i) m n

def erreQuadro (m : ExBig) (n : Nat) : ExBig := raddoppiGiri m n (64 * n)

/-- Whether bit `i` of a number is on. -/
def ExBig.acceso (e : ExBig) (i : Nat) : Bool := (e.p (i / 32) >>> UInt32.ofNat (i % 32)) &&& 1 ≠ 0

/-- The bits of the exponent below `i`, from the highest. -/
def potenzaGiri (x e m : ExBig) (n0 : UInt32) (n : Nat) (acc : ExBig) : Nat → ExBig
  | 0 => acc
  | i + 1 =>
    let quadrato := montMul acc acc m n0 n
    potenzaGiri x e m n0 n (if e.acceso i then montMul quadrato x m n0 n else quadrato) i

/-- The result, if the function does not refuse its arguments. -/
def exbigModexp (base e m : ExBig) : Option ExBig :=
  if m.n = 0 ∨ m.p 0 &&& 1 = 0 then none
  else if exbigParole < m.n then none
  else if 0 ≤ exbigCmp base m then none
  else
    let n := m.n
    let n0 := n0Inverso (m.p 0)
    if e.n = 0 then some (if 0 ≤ exbigCmp (exbigDaParola 1) m then exbigZero else exbigDaParola 1)
    else
      let rr := erreQuadro m n
      let x := montMul base rr m n0 n
      let uno := exbigDaParola 1
      let acc := montMul uno rr m n0 n
      some (montMul (potenzaGiri x e m n0 n acc (exbigBit e)) uno m n0 n)

structure ExBigMod where
  m : ExBig
  rr : ExBig
  n : Nat
  n0 : UInt32

def exbigModPrepara (m : ExBig) : Option ExBigMod :=
  if m.n = 0 ∨ m.p 0 &&& 1 = 0 then none
  else if exbigParole < m.n then none
  else some { m := m, rr := erreQuadro m m.n, n := m.n, n0 := n0Inverso (m.p 0) }

def exbigModMul (r a b : Variabile) (c : ExBigMod) : Memoria :=
  let t := montMul (mem a) (mem b) c.m c.n0 c.n
  update mem r (montMul t c.rr c.m c.n0 c.n)

def exbigModAdd (r a b : Variabile) (c : ExBigMod) : Memoria :=
  let mem := (somma mem r a b).1
  if 0 ≤ exbigCmp (mem r) c.m then update mem r (sottraiIn (mem r) c.m) else mem

/-- When `a - b` is below zero the modulus is added first, in the variable `t` of
the function. -/
def exbigModSub (r a b : Variabile) (c : ExBigMod) : Memoria :=
  let t := Variabile.locale 0
  let mem :=
    if 0 ≤ exbigCmp (mem a) (mem b) then sottrai mem r a b
    else sottrai (update mem t (sommaIn (mem a) c.m).1) r t b
  update mem r (normalizza (mem r))

end ExOs.Exbig
