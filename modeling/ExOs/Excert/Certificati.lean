import ExOs.Exbig.Byte

/-!
# Certificates

`lib/excert/excert.c`, with what it uses of `lib/exasn1/exasn1.c`: the
signature of a certificate, the chain up to a root of the store, and the name
of the site.  The hashes and the curves are parameters; a slice is its bytes,
nothing when its pointer is null.
-/

namespace ExOs.Excert

open ExOs.Exbig

/-- A C string: its bytes before the terminator. -/
structure Stringa where
  byte : List UInt8
  senzaNul : 0 ∉ byte

abbrev ExDer := Option (List UInt8)

inductive AlgFirma where
  | ignoto
  | rsaSha256
  | rsaSha384
  | rsaSha512
  | rsaSha1
  | ecdsaSha256
  | ecdsaSha384
deriving DecidableEq

inductive TipoChiave where
  | ignota
  | rsa
  | ecP256
  | ecP384
deriving DecidableEq

structure ExCert where
  tbs : ExDer
  emittente : ExDer
  soggetto : ExDer
  tipoChiave : TipoChiave
  chiaveModulo : ExDer
  chiaveEsponente : ExDer
  chiavePunto : ExDer
  algFirma : AlgFirma
  firma : ExDer
  nonPrima : Stringa
  nonDopo : Stringa
  eCa : Bool
  san : ExDer

def ExCert.vuoto : ExCert where
  tbs := none
  emittente := none
  soggetto := none
  tipoChiave := .ignota
  chiaveModulo := none
  chiaveEsponente := none
  chiavePunto := none
  algFirma := .ignoto
  firma := none
  nonPrima := ⟨[], List.not_mem_nil⟩
  nonDopo := ⟨[], List.not_mem_nil⟩
  eCa := false
  san := none

inductive Curva where
  | p256
  | p384
deriving DecidableEq

/-- The functions that are not of this library. -/
structure Primitive where
  sha256 : List UInt8 → List UInt8
  sha384 : List UInt8 → List UInt8
  sha512 : List UInt8 → List UInt8
  sha256_length : ∀ m, (sha256 m).length = 32
  sha384_length : ∀ m, (sha384 m).length = 48
  sha512_length : ∀ m, (sha512 m).length = 64
  /-- The curve, the point, the digest, `r` and `s`. -/
  excurvaVerifica : Curva → List UInt8 → List UInt8 → List UInt8 → List UInt8 → Bool

inductive EsitoCert where
  | ok
  | malformato
  | firmaSbagliata
  | nomeDiverso
  | nonECa
  | scaduto
  | nonAncora
  | senzaRadice
  | algRifiutato
  | chiaveRifiutata
  | troppoLunga
  | annullato
deriving DecidableEq

structure ExDerElem where
  tag : UInt8
  valore : List UInt8
  intestazione : Nat

/-- The value, of `lung` bytes after the header. -/
def exderValore (d : List UInt8) (off : Nat) (tag : UInt8) (lung byteLung : Nat) :
    Option ExDerElem :=
  if d.length - off - 1 - byteLung < lung then none
  else some ⟨tag, (d.drop (off + (1 + byteLung))).take lung, 1 + byteLung⟩

def exderLeggi (d : List UInt8) (off : Nat) : Option ExDerElem :=
  if d.length ≤ off ∨ d.length - off < 2 then none
  else if d.getD off 0 &&& 0x1F = 0x1F then none
  else if d.getD (off + 1) 0 < 0x80 then
    exderValore d off (d.getD off 0) (d.getD (off + 1) 0).toNat 1
  else
    let byteLung := (d.getD (off + 1) 0 &&& 0x7F).toNat
    if byteLung = 0 ∨ 4 < byteLung then none
    else if d.length - off - 2 < byteLung then none
    else
      let lung := ((d.drop (off + 2)).take byteLung).foldl (fun lung b => lung * 256 + b.toNat) 0
      if d.length < lung then none else exderValore d off (d.getD off 0) lung (byteLung + 1)

def exderDentro (d : List UInt8) (off : Nat) (tagAtteso : UInt8) : Option (List UInt8) := do
  let e ← exderLeggi d off
  if e.tag ≠ tagAtteso then none else return e.valore

def excertStessoNome : ExDer → ExDer → Bool
  | some a, some b => a = b
  | _, _ => false

/-! ## Signatures -/

def digestinfoSha256 : List UInt8 :=
  [0x30, 0x31, 0x30, 0x0d, 0x06, 0x09, 0x60, 0x86, 0x48, 0x01, 0x65, 0x03, 0x04, 0x02, 0x01, 0x05,
    0x00, 0x04, 0x20]

def digestinfoSha384 : List UInt8 :=
  [0x30, 0x41, 0x30, 0x0d, 0x06, 0x09, 0x60, 0x86, 0x48, 0x01, 0x65, 0x03, 0x04, 0x02, 0x02, 0x05,
    0x00, 0x04, 0x30]

def digestinfoSha512 : List UInt8 :=
  [0x30, 0x51, 0x30, 0x0d, 0x06, 0x09, 0x60, 0x86, 0x48, 0x01, 0x65, 0x03, 0x04, 0x02, 0x03, 0x05,
    0x00, 0x04, 0x40]

/-- `confronta`, of strings of one length. -/
def confronta (a b : List UInt8) : Bool := (a.zipWith (· ^^^ ·) b).foldl (· ||| ·) 0 = 0

/-- The two integers of a signature on a curve. -/
def ecdsaRS (firma : List UInt8) : Option (List UInt8 × List UInt8) := do
  let dentro ← exderDentro firma 0 0x30
  let a ← exderLeggi dentro 0
  if a.tag ≠ 0x02 then none
  let b ← exderLeggi dentro (a.intestazione + a.valore.length)
  if b.tag ≠ 0x02 then none
  return (a.valore, b.valore)

variable (pr : Primitive)

def firmaEcdsa (curva : Curva) (figlio padre : ExCert) : EsitoCert :=
  match figlio.tbs, figlio.firma, padre.chiavePunto with
  | some tbs, some firma, some punto =>
    match ecdsaRS firma with
    | none => .malformato
    | some (r, s) =>
      let imp := if figlio.algFirma = .ecdsaSha384 then pr.sha384 tbs else pr.sha256 tbs
      if pr.excurvaVerifica curva punto imp r s then .ok else .firmaSbagliata
  | _, _, _ => .malformato

/-- The envelope that must be there, from the number of its padding bytes. -/
def atteso (riempimento : Nat) (digestinfo impronta : List UInt8) : List UInt8 :=
  [0x00, 0x01] ++ List.replicate riempimento 0xFF ++ [0x00] ++ digestinfo ++ impronta

def firmaRsa (digestinfo : List UInt8) (sha : List UInt8 → List UInt8) (figlio padre : ExCert) :
    EsitoCert :=
  if padre.tipoChiave ≠ .rsa then .chiaveRifiutata
  else
    match figlio.tbs, figlio.firma, padre.chiaveModulo with
    | some tbs, some byteFirma, some byteModulo =>
      let k := byteModulo.length
      if k < 64 ∨ exbigParole * 4 < k then .malformato
      else if k < byteFirma.length then .malformato
      else
        match exbigDaByte byteModulo, exbigDaByte (padre.chiaveEsponente.getD []),
          exbigDaByte byteFirma with
        | some modulo, some esp, some firma =>
          match (exbigModexp firma esp modulo).bind fun risultato => exbigAByte risultato k with
          | none => .firmaSbagliata
          | some busta =>
            let impronta := sha tbs
            if k < 3 + digestinfo.length + impronta.length then .malformato
            else
              let riempimento := k - 3 - digestinfo.length - impronta.length
              if riempimento < 8 then .malformato
              else if confronta busta (atteso riempimento digestinfo impronta) then .ok
              else .firmaSbagliata
        | _, _, _ => .malformato
    | _, _, _ => .malformato

def excertFirmaValida (figlio padre : ExCert) : EsitoCert :=
  match figlio.algFirma with
  | .rsaSha1 => .algRifiutato
  | .ecdsaSha256 | .ecdsaSha384 =>
    match padre.tipoChiave with
    | .ecP256 => firmaEcdsa pr .p256 figlio padre
    | .ecP384 => firmaEcdsa pr .p384 figlio padre
    | _ => .chiaveRifiutata
  | .rsaSha256 => firmaRsa digestinfoSha256 pr.sha256 figlio padre
  | .rsaSha384 => firmaRsa digestinfoSha384 pr.sha384 figlio padre
  | .rsaSha512 => firmaRsa digestinfoSha512 pr.sha512 figlio padre
  | .ignoto => .algRifiutato

/-! ## The chain -/

def primaDa : Nat → List UInt8 → List UInt8 → Bool
  | 0, _, _ => false
  | giri + 1, a, b =>
    if a.headD 0 ≠ b.headD 0 then (a.headD 0).toInt8 < (b.headD 0).toInt8
    else if a.headD 0 = 0 then false
    else primaDa giri a.tail b.tail

def prima (a b : Stringa) : Bool := primaDa 14 a.byte b.byte

def dateAPosto (c : ExCert) (adesso : Option Stringa) : EsitoCert :=
  match adesso with
  | none => .ok
  | some ora =>
    if ora.byte = [] then .ok
    else if prima ora c.nonPrima then .nonAncora
    else if prima c.nonDopo ora then .scaduto
    else .ok

def radiceDi (c : ExCert) (magazzino : List ExCert) : Option ExCert :=
  magazzino.find? fun m =>
    excertStessoNome c.emittente m.soggetto && m.eCa && excertFirmaValida pr c m = .ok

/-- The chain from link `i` on; `passo` is what the caller answers at each link. -/
def catenaDa (pr : Primitive) (magazzino : List ExCert) (adesso : Option Stringa)
    (passo : Nat → Bool) :
    Nat → List ExCert → EsitoCert × Nat
  | i, [] => (.senzaRadice, i)
  | i, figlio :: dopo =>
    if dateAPosto figlio adesso ≠ .ok then (dateAPosto figlio adesso, i)
    else if passo i = false then (.annullato, i)
    else if (radiceDi pr figlio magazzino).isSome then (.ok, 0)
    else
      match dopo with
      | [] => (.senzaRadice, i)
      | padre :: _ =>
        if excertStessoNome figlio.emittente padre.soggetto = false then (.nomeDiverso, i)
        else if padre.eCa = false then (.nonECa, i)
        else if excertFirmaValida pr figlio padre ≠ .ok then (excertFirmaValida pr figlio padre, i)
        else catenaDa pr magazzino adesso passo (i + 1) dopo

/-- What it returns, and the link it stopped at. -/
def excertCatenaValida (catena magazzino : List ExCert) (adesso : Option Stringa)
    (passo : Nat → Nat → Bool) : EsitoCert × Nat :=
  if catena.length = 0 then (.malformato, 0)
  else if 10 < catena.length then (.troppoLunga, 0)
  else catenaDa pr magazzino adesso (fun i => passo i catena.length) 0 catena

def giu (c : UInt8) : UInt8 := if 65 ≤ c ∧ c ≤ 90 then c - 65 + 97 else c

def nomeUguale : List UInt8 → List UInt8 → Bool
  | [], host => host.headD 0 = 0
  | b :: cert, host =>
    if host.headD 0 = 0 then false
    else if giu b ≠ giu (host.headD 0) then false
    else nomeUguale cert host.tail

def jollyUguale (cert host : List UInt8) : Bool :=
  match cert with
  | 42 :: 46 :: resto =>
    if 46 ∈ resto then
      let punto := host.dropWhile (· ≠ 46)
      if punto.headD 0 ≠ 46 then false else nomeUguale (46 :: resto) punto
    else false
  | _ => false

/-- The names of the extension from `off` on; nothing when the loop does not end. -/
def nomiDa (san host : List UInt8) : Nat → Nat → Option EsitoCert
  | 0, _ => none
  | fuel + 1, off =>
    if san.length ≤ off then some .nomeDiverso
    else
      match exderLeggi san off with
      | none => some .nomeDiverso
      | some g =>
        if g.tag = 0x82 ∧ g.valore ≠ [] ∧
          (nomeUguale g.valore host ∨ jollyUguale g.valore host) then
          some .ok
        else nomiDa san host fuel (off + (g.intestazione + g.valore.length))

def excertNomeCombacia (c : ExCert) (host : Stringa) : Option EsitoCert :=
  if host.byte = [] then some .nomeDiverso
  else
    match c.san with
    | none => some .nomeDiverso
    | some san =>
      if san.length = 0 then some .nomeDiverso else nomiDa san host.byte (san.length + 1) 0

end ExOs.Excert
