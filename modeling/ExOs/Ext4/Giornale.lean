import ExOs.Ext4.Somme
import Mathlib.Algebra.Ring.Nat

/-!
# The ext3 journal

`kernel/moduli/ext4/giornale.c`: the transaction in memory, the commands a
commit gives the disk, and the three passes of the replay at mount.  Memory
allocation succeeds and no command fails.
-/

namespace ExOs.Ext4.Gio

open ExOs.Library ExOs.Library.Buffer ExOs.Fs

def gioMagia : Nat := 0xC03B3998

def gioDescrittore : Nat := 1

def gioCommit : Nat := 2

def gioSuperV1 : Nat := 3

def gioSuperV2 : Nat := 4

def gioRevoca : Nat := 5

def gioInc64Bit : Nat := 0x02

def gioIncCsumV3 : Nat := 0x10

/-- `GIO_INC_NOTI`: revoke records, 64-bit tags, version 3 sums. -/
def gioIncNoti : Nat := 0x13

def tagEscape : Nat := 0x01

def tagStessoUuid : Nat := 0x02

def tagUltimo : Nat := 0x08

def gioCorse : Nat := 32

def gioByte : Nat := 262144

def gioRiserva : Nat := 32

def gioRevoche : Nat := 512

/-- Journal blocks `log` to `log + n - 1` are at `fis` and after. -/
structure Corsa where
  log : Nat
  fis : Nat
  n : Nat
deriving DecidableEq

/-- `Giornale`; `slot` is the open transaction, `slot_blk` and `slot_dati`
together, and the runs are kept with the last one first. -/
structure Giornale where
  maxlen : Nat
  primo : Nat
  seq : Nat
  incompat : Nat
  tag : Nat
  uuid : Buffer
  somme : Bool
  seme : UInt32
  corse : List Corsa
  maxSlot : Nat
  slot : List (Nat × Buffer)
  jsb : Buffer
  guasto : Bool

/-! ## The journal's own blocks -/

def fisicoCorse : List Corsa → Nat → Nat
  | [], _ => 0
  | c :: altre, log =>
    if c.log ≤ log ∧ log < c.log + c.n then c.fis + (log - c.log)
    else fisicoCorse altre log

def fisico (g : Giornale) (log : Nat) : Nat := fisicoCorse g.corse log

def gioLeggi (g : Giornale) (d : Disco) (log : Nat) : Option Buffer :=
  if fisico g log = 0 then none else some (blocco d (fisico g log))

def sommaJsb (jsb : Buffer) : UInt32 :=
  crc32cGrezzo
    (crc32cGrezzo (crc32cGrezzo 0xFFFFFFFF (segment jsb 0 0xFC)) [0, 0, 0, 0])
    (segment jsb 0x100 (1024 - 0x100))

/-- The superblock of the journal goes to the disk with its sum in it. -/
def sommato (g : Giornale) (log : Nat) (src : Buffer) : Buffer :=
  if log = 0 ∧ g.somme then putBe32 src 0xFC (sommaJsb src).toNat else src

/-- `gio_scrivi`: the command, or nothing for a block that is not mapped. -/
def gioScrivi (g : Giornale) (log : Nat) (src : Buffer) : Option Scrittura :=
  if fisico g log = 0 then none
  else some (scriviTutto (fisico g log) (sommato g log src))

variable (m : Ext2Mount)

/-- Of block 0 the first 1024 bytes are not the volume's. -/
def alSuoPosto (n : Nat) (src : Buffer) : Option Scrittura :=
  if n = 0 ∧ m.dimBlocco = 1024 ∨ m.nBlocchi ≤ n then none
  else if n = 0 then some fun c => if c.1 = 0 ∧ superOffset ≤ c.2 then some (src c.2) else none
  else some (scriviTutto n src)

def avanti (g : Giornale) (log : Nat) : Nat :=
  if log + 1 ≥ g.maxlen then g.primo else log + 1

/-- `segna_recover(m, 1)`: the superblock read back with the flag set. -/
def segnaRecover (d : Disco) : Scrittura :=
  let sb := superblocco m d
  scriviSuper m (sommaSuper m (putLe32 sb 96 (le32 sb 96 ||| incompatRecover)))

def sommaBlocco (g : Giornale) (b : Buffer) (n buco : Nat) : UInt32 :=
  crc32cGrezzo
    (crc32cGrezzo (crc32cGrezzo g.seme (segment b 0 buco)) [0, 0, 0, 0])
    (segment b (buco + 4) (n - buco - 4))

def sommaCommit (g : Giornale) (b : Buffer) (n : Nat) : UInt32 :=
  let c := crc32cGrezzo g.seme (segment b 0 0x0C)
  let c := crc32cGrezzo c [0, 0]
  let c := crc32cGrezzo c (segment b 0x0E 2)
  let c := crc32cGrezzo c [0, 0, 0, 0]
  crc32cGrezzo c (segment b 0x14 (n - 0x14))

def sommaCopia (g : Giornale) (seq : Nat) (b : Buffer) (n : Nat) : UInt32 :=
  crc32cGrezzo
    (crc32cGrezzo g.seme (segment (putBe32 (fun _ => 0) 0 seq) 0 4))
    (segment b 0 n)

/-- `(int32_t)(a - b) <= 0`. -/
def nonDopo (a b : Nat) : Bool :=
  let diff := (a + 2 ^ 32 - b) % 2 ^ 32
  diff = 0 || 2 ^ 31 ≤ diff

def revocato (revoche : List (Nat × Nat)) (blk seq : Nat) : Bool :=
  match revoche.find? fun r => r.1 = blk with
  | some r => nonDopo seq r.2
  | none => false

/-- What one pass carries: the disk as it reads it, the commands it has given
and the revoke records collected so far; `pieno` when they did not fit. -/
structure Ripresa where
  disco : Disco
  traccia : List Scrittura
  revoche : List (Nat × Nat)
  pieno : Bool

def revocaSegna (r : Ripresa) (blk seq : Nat) : Ripresa :=
  match r.revoche.find? fun v => v.1 = blk with
  | some _ =>
    { r with
      revoche := r.revoche.map fun v =>
        if v.1 = blk ∧ nonDopo seq v.2 = false then (blk, seq) else v }
  | none =>
    if r.revoche.length ≥ gioRevoche then { r with pieno := true }
    else { r with revoche := r.revoche ++ [(blk, seq)] }

/-- The records of one revoke block from offset `off` on. -/
def revocheDa (b : Buffer) (dim usati seq : Nat) : Nat → Nat → Ripresa → Ripresa
  | 0, _, r => r
  | giri + 1, off, r =>
    if off + dim ≤ usati then
      let blk := if dim = 8 then be32 b (off + 4) else be32 b off
      revocheDa b dim usati seq giri (off + dim) (revocaSegna r blk seq)
    else r

inductive Passo where
  | scan
  | revoca
  | ripristino
deriving DecidableEq

def ripristinaTag (g : Giornale) (seq : Nat) (b : Buffer)
    (off qui : Nat) (r : Ripresa) : Except Ripresa Ripresa :=
  match gioLeggi g r.disco qui with
  | none => .error r
  | some dato =>
    if g.somme ∧ be32 b (off + 12) ≠ (sommaCopia g seq dato m.dimBlocco).toNat then .error r
    else
      let dato' :=
        if be16 b (off + 6) &&& tagEscape ≠ 0 then putBe32 dato 0 gioMagia
        else dato
      match alSuoPosto m (be32 b off) dato' with
      | none => .error r
      | some w =>
        .ok { r with disco := w.apply r.disco, traccia := r.traccia ++ [w] }

/-- The tags of a descriptor from offset `off` on, whose copies start at
journal block `qui`; every tag takes at least eight bytes, so `dim_blocco`
rounds are enough. -/
def tagDa (m : Ext2Mount) (g : Giornale) (quale : Passo) (seq : Nat)
    (b : Buffer) :
    Nat → Nat → Nat → Ripresa → Except Ripresa (Nat × Ripresa)
  | 0, _, qui, r => .ok (qui, r)
  | giri + 1, off, qui, r =>
    if off + g.tag ≤ m.dimBlocco - (if g.somme then 4 else 0) then
      if g.incompat &&& gioInc64Bit ≠ 0 ∧ be32 b (off + 8) ≠ 0 then .error r
      else
        let fatto :=
          if quale = .ripristino ∧ revocato r.revoche (be32 b off) seq = false
          then ripristinaTag m g seq b off qui r
          else .ok r
        match fatto with
        | .error r' => .error r'
        | .ok r' =>
          if be16 b (off + 6) &&& tagUltimo ≠ 0 then .ok (avanti g qui, r')
          else
            tagDa m g quale seq b giri
              (off + g.tag + if be16 b (off + 6) &&& tagStessoUuid = 0 then 16 else 0)
              (avanti g qui) r'
    else .ok (qui, r)

/-- How many bytes of a revoke block hold records. -/
def revocheUsate (g : Giornale) (b : Buffer) : Nat :=
  let usati := be32 b 12
  let usati :=
    if g.somme ∧ usati > m.dimBlocco - 4 then m.dimBlocco - 4 else usati
  if usati > m.dimBlocco then m.dimBlocco else usati

/-- `passo` from journal block `pos`, with `giri` rounds of the ring left;
it returns the sequence number at which it stopped. -/
def passo (m : Ext2Mount) (g : Giornale) (quale : Passo) (fine : Nat) :
    Nat → Nat → Nat → Ripresa → Except Ripresa (Nat × Ripresa)
  | 0, _, seq, r => .ok (seq, r)
  | giri + 1, pos, seq, r =>
    if quale ≠ .scan ∧ seq = fine then .ok (seq, r)
    else
      match gioLeggi g r.disco pos with
      | none => .error r
      | some b =>
        if be32 b 0 ≠ gioMagia ∨ be32 b 8 ≠ seq then .ok (seq, r)
        else if be32 b 4 = gioDescrittore then
          if g.somme ∧ be32 b (m.dimBlocco - 4) ≠
              (sommaBlocco g b m.dimBlocco (m.dimBlocco - 4)).toNat then
            .ok (seq, r)
          else
            match tagDa m g quale seq b m.dimBlocco 12 (avanti g pos) r with
            | .error r' => .error r'
            | .ok (qui, r') => passo m g quale fine giri qui seq r'
        else if be32 b 4 = gioCommit then
          if g.somme ∧ be32 b 0x10 ≠ (sommaCommit g b m.dimBlocco).toNat then .ok (seq, r)
          else passo m g quale fine giri (avanti g pos) ((seq + 1) % 2 ^ 32) r
        else if be32 b 4 = gioRevoca then
          let r' :=
            if quale = .revoca then
              revocheDa b (if g.incompat &&& gioInc64Bit ≠ 0 then 8 else 4)
                (revocheUsate m g b) seq m.dimBlocco 16 r
            else r
          passo m g quale fine giri (avanti g pos) seq r'
        else .ok (seq, r)

/-- `ripristina`: the transaction after the last committed one, and what the
passes leave. -/
def ripristina (g : Giornale) (d : Disco) (inizio seq0 : Nat) : Except Ripresa (Nat × Ripresa) :=
  let r := { disco := d, traccia := [], revoche := [], pieno := false }
  match passo m g .scan seq0 g.maxlen inizio seq0 r with
  | .error r' => .error r'
  | .ok (fine, r) =>
    if fine = seq0 then .ok (seq0, r)
    else
      match passo m g .revoca fine g.maxlen inizio seq0 r with
      | .error r' => .error r'
      | .ok (_, r) =>
        if r.pieno then .error r
        else
          match passo m g .ripristino fine g.maxlen inizio seq0 r with
          | .error r' => .error r'
          | .ok (_, r) => .ok (fine, r)

/-! ## Mount -/

/-- The runs of the journal file: block by block, extending the last run or
opening another. -/
def corseDa (mappa : Nat → Nat) : Nat → Nat → List Corsa → Option (List Corsa)
  | 0, _, corse => some corse
  | restanti + 1, i, corse =>
    let f := mappa i
    if f = 0 then none
    else
      match corse with
      | c :: altre =>
        if f = c.fis + c.n then corseDa mappa restanti (i + 1) ({ c with n := c.n + 1 } :: altre)
        else if corse.length ≥ gioCorse then none
        else corseDa mappa restanti (i + 1) ({ log := i, fis := f, n := 1 } :: corse)
      | [] => corseDa mappa restanti (i + 1) [{ log := i, fis := f, n := 1 }]

/-- The journal file as the superblock and its inode name it: the block map
and the length in blocks, a 32-bit size over at least 1024 bytes a block. -/
structure FileGiornale where
  mappa : Nat → Nat
  dimFile : Nat
  corto : dimFile < 2 ^ 22

/-- What the journal superblock says about features: the incompatible ones,
or nothing if they are not handled. -/
def gioFunzioni (jsb : Buffer) : Option Nat :=
  if be32 jsb 4 = gioSuperV2 then
    let inc := be32 jsb 0x28
    if be32 jsb 0x24 ≠ 0 ∨ be32 jsb 0x2C ≠ 0 ∨ inc &&& gioIncNoti ≠ inc then none
    else if inc &&& gioIncCsumV3 ≠ 0 ∧ (jsb 0x50 ≠ 4 ∨ be32 jsb 0xFC ≠ (sommaJsb jsb).toNat) then
      none
    else some inc
  else some 0

/-- Bytes of a descriptor tag, by the journal's features. -/
def gioTag (inc : Nat) : Nat :=
  if inc &&& gioIncCsumV3 ≠ 0 then 16
  else if inc &&& gioInc64Bit ≠ 0 then 12
  else 8

/-- Room for one transaction: the memory set aside for it, the tags of one
descriptor, and the journal itself. -/
def gioMaxSlot (inc maxlen primo : Nat) : Nat :=
  let perDesc := (m.dimBlocco - 12 - 16 - if inc &&& gioIncCsumV3 ≠ 0 then 4 else 0) / gioTag inc
  min (min (gioByte / m.dimBlocco) perDesc) ((maxlen + 2 ^ 33 - primo - 2) % 2 ^ 32)

/-- The record `giornale_monta` builds from an accepted superblock. -/
def giornaleDi (jsb : Buffer) (inc : Nat) (corse : List Corsa) : Giornale :=
  let uuid : Buffer := fun k => if be32 jsb 4 = gioSuperV2 ∧ k < 16 then jsb (0x30 + k) else 0
  { maxlen := be32 jsb 0x10, primo := be32 jsb 0x14, seq := be32 jsb 0x18
    incompat := inc, tag := gioTag inc, uuid := uuid
    somme := inc &&& gioIncCsumV3 ≠ 0
    seme :=
      if inc &&& gioIncCsumV3 ≠ 0 then crc32cGrezzo 0xFFFFFFFF (segment uuid 0 16)
      else 0
    corse := corse
    maxSlot := gioMaxSlot m inc (be32 jsb 0x10) (be32 jsb 0x14)
    slot := [], jsb := jsb, guasto := false }

/-- The checks of `giornale_monta` on the journal superblock, before any
replay. -/
def giornaleApri (file : FileGiornale) (jsb : Buffer) : Option Giornale :=
  let maxlen := be32 jsb 0x10
  let primo := be32 jsb 0x14
  if be32 jsb 0 ≠ gioMagia ∨ be32 jsb 4 ≠ gioSuperV1 ∧ be32 jsb 4 ≠ gioSuperV2 then none
  else if be32 jsb 0x0C ≠ m.dimBlocco ∨ primo = 0 ∨
      (primo + 3) % 2 ^ 32 > maxlen ∨ maxlen > file.dimFile then
    none
  else
    match gioFunzioni jsb, corseDa file.mappa maxlen 0 [] with
    | some inc, some corse =>
      if gioMaxSlot m inc maxlen primo < gioRiserva + 8 then none
      else some (giornaleDi m jsb inc corse)
    | _, _ => none

/-- The journal superblock with a sequence number and a start. -/
def conInizio (jsb : Buffer) (seq start : Nat) : Buffer := putBe32 (putBe32 jsb 0x18 seq) 0x1C start

/-- The end of `giornale_monta`: an empty journal, and the volume marked. -/
def giornaleVuoto (g : Giornale) (d : Disco) : List Comando × Option Giornale :=
  let jsb := conInizio g.jsb g.seq 0
  match gioScrivi g 0 jsb with
  | none => ([], none)
  | some w =>
    ([.write w, .flush, .write (segnaRecover m (w.apply d)), .flush],
      some { g with jsb := sommato g 0 jsb })

/-- `giornale_monta` on a volume with a journal of its own: the commands it
gives the disk and the journal, or nothing when the volume stays read-only.
`recover` is the flag in `m->incompat`. -/
def giornaleMonta (recover : Bool) (file : FileGiornale)
    (d : Disco) : List Comando × Option Giornale :=
  if file.mappa 0 = 0 then ([], none)
  else
    match giornaleApri m file (blocco d (file.mappa 0)) with
    | none => ([], none)
    | some g =>
      let start := be32 g.jsb 0x1C
      if recover = true ∧ start ≠ 0 then
        if start < g.primo ∨ g.maxlen ≤ start then ([], none)
        else
          match ripristina m g d start g.seq with
          | .error r => (r.traccia.map .write, none)
          | .ok (fine, r) =>
            let resto := giornaleVuoto m { g with seq := (fine + 1) % 2 ^ 32 } r.disco
            (r.traccia.map .write ++ (if fine = g.seq then [] else [.flush]) ++ resto.1, resto.2)
      else giornaleVuoto m g d

/-- A mount of the volume: `ext2_mount_come` reads `m->incompat` from the
superblock before the journal is opened. -/
def rimonta (file : FileGiornale) (d : Disco) : List Comando × Option Giornale :=
  giornaleMonta m (le32 (superblocco m d) 96 &&& incompatRecover != 0) file d

/-! ## Commit -/

/-- The commands of a program that stops at the first one it cannot give. -/
def esegui : List (Option Comando) → List Comando × Bool
  | [] => ([], true)
  | none :: _ => ([], false)
  | some c :: resto => (c :: (esegui resto).1, (esegui resto).2)

def tagFlags (i n : Nat) (c : Buffer) : Nat :=
  (if 0 < i then tagStessoUuid else 0) |||
    (if i + 1 = n then tagUltimo else 0) |||
    (if be32 c 0 = gioMagia then tagEscape else 0)

/-- The sum of a copy as it goes into the journal: of an escaped one the
first word counts as zero. -/
def sommaTag (g : Giornale) (seq : Nat) (c : Buffer) : UInt32 :=
  if be32 c 0 = gioMagia then
    crc32cGrezzo
      (crc32cGrezzo (crc32cGrezzo g.seme (segment (putBe32 (fun _ => 0) 0 seq) 0 4)) [0, 0, 0, 0])
      (segment c 4 (m.dimBlocco - 4))
  else sommaCopia g seq c m.dimBlocco

def scriviTag (g : Giornale) (seq n i : Nat) (s : Nat × Buffer) (d : Buffer) (off : Nat) : Buffer :=
  let d := putBe32 d off s.1
  let d := putBe16 d (off + 6) (tagFlags i n s.2)
  if g.somme then putBe32 d (off + 12) (sommaTag m g seq s.2).toNat else d

/-- The tags of a descriptor; the UUID follows the first one only. -/
def descriviDa (m : Ext2Mount) (g : Giornale) (seq n : Nat) :
    List (Nat × Buffer) → Nat → Nat → Buffer → Buffer
  | [], _, _, d => d
  | s :: resto, i, off, d =>
    let d := scriviTag m g seq n i s d off
    if i = 0 then
      descriviDa m g seq n resto (i + 1) (off + g.tag + 16)
        (Buffer.copy d (off + g.tag) g.uuid 0 16)
    else descriviDa m g seq n resto (i + 1) (off + g.tag) d

/-- A block with the journal's magic number, a type and a sequence number. -/
def intestazione (tipo seq : Nat) : Buffer :=
  putBe32 (putBe32 (putBe32 (fun _ => 0) 0 gioMagia) 4 tipo) 8 seq

def descrittore (g : Giornale) (seq : Nat) : Buffer :=
  let d := descriviDa m g seq g.slot.length g.slot 0 12 (intestazione gioDescrittore seq)
  if g.somme then putBe32 d (m.dimBlocco - 4) (sommaBlocco g d m.dimBlocco (m.dimBlocco - 4)).toNat
  else d

/-- A copy that would look like a journal block loses its first word. -/
def copiaGiornale (c : Buffer) : Buffer :=
  if be32 c 0 = gioMagia then putBe32 c 0 0 else c

/-- The copies, one after the other after journal block `log`. -/
def copieDa (g : Giornale) : List (Nat × Buffer) → Nat → List (Option Comando)
  | [], _ => []
  | s :: resto, log =>
    (gioScrivi g (avanti g log) (copiaGiornale s.2)).map .write :: copieDa g resto (avanti g log)

def ultimaCopia (g : Giornale) : List (Nat × Buffer) → Nat → Nat
  | [], log => log
  | _ :: resto, log => ultimaCopia g resto (avanti g log)

def bloccoCommit (g : Giornale) (seq ora : Nat) : Buffer :=
  let d := putBe32 (intestazione gioCommit seq) 0x34 ora
  if g.somme then putBe32 d 0x10 (sommaCommit g d m.dimBlocco).toNat else d

/-- Steps 1 to 4 of `commit`: the transaction exists when they are done. -/
def commitScrive (g : Giornale) (ora : Nat) : List (Option Comando) :=
  [(gioScrivi g 0 (conInizio g.jsb g.seq g.primo)).map .write,
    (gioScrivi g g.primo (descrittore m g g.seq)).map .write] ++
    copieDa g g.slot g.primo ++
    [some .flush, (gioScrivi g (avanti g (ultimaCopia g g.slot g.primo))
        (bloccoCommit m g g.seq ora)).map .write, some .flush]

def commitPosa (g : Giornale) : List (Option Comando) :=
  g.slot.map (fun s => (alSuoPosto m s.1 s.2).map .write) ++ [some .flush]

/-- The journal superblock as steps 1 and 6 write it. -/
def jsbAperto (g : Giornale) : Buffer := sommato g 0 (conInizio g.jsb g.seq g.primo)

def jsbChiuso (g : Giornale) : Buffer := conInizio (jsbAperto g) ((g.seq + 1) % 2 ^ 32) 0

def commesso (g : Giornale) : Giornale :=
  { g with
    seq := (g.seq + 1) % 2 ^ 32, jsb := sommato g 0 (jsbChiuso g), slot := [] }

def commit (g : Giornale) (ora : Nat) : List Comando × Giornale × Bool :=
  if g.slot.isEmpty then ([], g, true)
  else if g.guasto then ([], g, false)
  else
    let fatto :=
      esegui (commitScrive m g ora ++ commitPosa m g ++ [(gioScrivi g 0 (jsbChiuso g)).map .write])
    if fatto.2 then (fatto.1, commesso g, true)
    else (fatto.1, { g with guasto := true }, false)

/-- The loop of `giornale_leggi` over the slots. -/
def copre (slot : List (Nat × Buffer)) (n : Nat) (dst : Buffer) : Buffer :=
  slot.foldl (fun dst s => if s.1 = n then s.2 else dst) dst

/-- `giornale_leggi` for one block: the transaction's copy over the disk's. -/
def giornaleLeggi (g : Giornale) (n : Nat) (dst : Buffer) : Buffer := copre g.slot n dst

/-- A copy of a block the transaction holds is replaced in its slot. -/
def sostituisci (n : Nat) (src : Buffer) : List (Nat × Buffer) → Option (List (Nat × Buffer))
  | [] => none
  | s :: resto =>
    if s.1 = n then some ((n, src) :: resto)
    else (sostituisci n src resto).map (s :: ·)

def giornaleScrivi (g : Giornale) (n : Nat) (src : Buffer)
    (ora : Nat) : List Comando × Giornale × Bool :=
  if g.guasto then ([], g, false)
  else
    match sostituisci n src g.slot with
    | some slot => ([], { g with slot := slot }, true)
    | none =>
      if g.slot.length ≥ g.maxSlot then
        match commit m g ora with
        | (comandi, g', false) => (comandi, g', false)
        | (comandi, g', true) =>
          (comandi, { g' with slot := g'.slot ++ [(n, src)] }, true)
      else ([], { g with slot := g.slot ++ [(n, src)] }, true)

end ExOs.Ext4.Gio
