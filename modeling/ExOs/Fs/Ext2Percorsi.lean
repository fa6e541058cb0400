import ExOs.Ext4.Giornale
import ExOs.Fs.Ext2Lettura

/-!
# The ext2 driver's state and its path cache

The mounted volumes, the block of pointers kept in memory and the last paths
resolved, as `kernel/fs/ext2.c` keeps them; metadata writes, the mount and the
registration of the write module with its journal replay.
-/

namespace ExOs.Fs

open ExOs.Library ExOs.Library.Buffer ExOs.Ext4

def ext2MaxMount : Nat := 4

def risVoci : Nat := 16

def risNome : Nat := 116

/-- A mounted volume: its device, whether `mount -r` was asked, and its
journal once the module has opened it. -/
structure Volume where
  m : Ext2Mount
  blkdev : Nat
  roChiesto : Bool
  giornale : Option Gio.Giornale

/-- `VoceRisolvi`; `nome` is the text before its terminator. -/
structure VoceRisolvi where
  mnt : Nat
  gen : Nat
  ino : Nat
  inode : Buffer
  nome : List UInt8

/-- The driver: the devices as reads see them, `g_mnt`, whether a write module
is registered, the block of pointers in `b_ind` with its mount and number, and
the cache of paths. -/
structure Driver where
  dischi : Nat → Disco
  mnt : Nat → Option Volume
  ops : Bool
  ind : Option (Nat × Nat × Buffer)
  ris : List VoceRisolvi
  prossima : Nat
  gen : Nat

def Volume.tronca (v : Volume) (b : Buffer) : Buffer :=
  fun pos => if pos < v.m.dimBlocco then b pos else 0

/-- The block on the device, with the open transaction's copy over it. -/
def Volume.vede (v : Volume) (d : Disco) (n : Nat) : Buffer :=
  match v.giornale with
  | none => blocco d n
  | some g => Gio.giornaleLeggi g n (blocco d n)

/-- `leggi_blocco`. -/
def Volume.leggi (v : Volume) (d : Disco) (n : Nat) : Option Buffer :=
  if n = 0 ∨ v.m.nBlocchi ≤ n then none
  else some (v.tronca (v.vede d n))

variable (s : Driver)

variable (mnt : Nat)

/-- How reads of mount `mnt` are served: `leggi_indiretto` keeps the last block
of pointers. -/
def Driver.servi (v : Volume)
    (ind : Option (Nat × Nat × Buffer)) :
    Lettura → Option Buffer × Option (Nat × Nat × Buffer)
  | .blocco n => (v.leggi (s.dischi v.blkdev) n, ind)
  | .indiretto n =>
    let letto := v.leggi (s.dischi v.blkdev) n
    match ind with
    | some (altro, numero, b) =>
      if altro = mnt ∧ numero = n then (some b, ind)
      else (letto, letto.map fun b => (mnt, n, b))
    | none => (letto, letto.map fun b => (mnt, n, b))

/-- A program of reads on mount `mnt`. -/
def Driver.esegui {Esito : Type} (s : Driver) (mnt : Nat) (v : Volume)
    (programma : Programma Esito) : Esito × Driver :=
  let esito := programma.run (s.servi mnt v) s.ind
  (esito.1, { s with ind := esito.2 })

def Driver.ricorda (nome : List UInt8) : Option VoceRisolvi :=
  s.ris.find? fun v =>
    v.ino ≠ 0 ∧ v.gen = s.gen ∧ v.mnt = mnt ∧ v.nome = nome

def Driver.risolvi (v : Volume) (percorso : Option (List UInt8)) :
    Option (Nat × Option Buffer) × Driver :=
  match percorso with
  | none => s.esegui mnt v (risolviDalDisco v.m none)
  | some nome =>
    if risNome ≤ nome.length then s.esegui mnt v (risolviDalDisco v.m percorso)
    else
      match s.ricorda mnt nome with
      | some voce => (some (voce.ino, some voce.inode), s)
      | none =>
        match s.esegui mnt v (risolviDalDisco v.m percorso) with
        | (some (ino + 1, some inode), s') =>
          (some (ino + 1, some inode), { s' with
              ris := s'.ris.set s'.prossima
                { mnt := mnt, gen := s'.gen, ino := ino + 1, inode := inode, nome := nome }
              prossima := (s'.prossima + 1) % risVoci })
        | altro => altro

def Driver.conDisco (blkdev : Nat) (d : Disco) : Driver :=
  { s with dischi := fun dev => if dev = blkdev then d else s.dischi dev }

def Driver.conVolume (v : Volume) : Driver :=
  { s with mnt := fun i => if i = mnt then some v else s.mnt i }

/-- A metadata block to the open transaction, or to the device where there is
no journal. -/
def Driver.metti (v : Volume) (n : Nat) (src : Buffer) (ora : Nat) : Bool × Driver :=
  match v.giornale with
  | none =>
    (true, s.conDisco v.blkdev ((scriviTutto n src).apply (s.dischi v.blkdev)))
  | some g =>
    let esito := Gio.giornaleScrivi v.m g n src ora
    (esito.2.2, (s.conDisco v.blkdev
        (Write.applyAll (Command.writes esito.1) (s.dischi v.blkdev))).conVolume
        mnt { v with giornale := some esito.2.1 })

/-- `g_ris_gen++`. -/
def Driver.invecchia : Driver := { s with gen := (s.gen + 1) % 2 ^ 32 }

def Driver.scriviBlocco (v : Volume) (n : Nat) (src : Buffer) (ora : Nat) : Bool × Driver :=
  if n = 0 ∨ v.m.nBlocchi ≤ n then (false, s)
  else
    -- The block of pointers in memory is dropped when it is this one.
    let s := { s with ind := s.ind.filter fun tenuto => tenuto.2.1 ≠ n }
    s.invecchia.metti mnt v n src ora

/-- New pointers in the block that `b_ind` holds, and `ind_riversa`. -/
def Driver.indRiversa (v : Volume) (n : Nat) (b : Buffer) (ora : Nat) : Bool × Driver :=
  { s with ind := some (mnt, n, v.tronca b) }.invecchia.metti mnt v n b ora

/-! ## Can a volume be written? -/

/-- The features the module writes: `COMPAT_SCRIVE` and its companions. -/
def compatScrive : Nat := 0x123F

def incompatScrive : Nat := 0x22C6

def roCompatScrive : Nat := 0x047B

def soloFra (funzioni noti : Nat) : Bool := funzioni &&& noti == funzioni

/-- `vol_monta`: with checksums, the superblock's own must be right. -/
def volMonta (m : Ext2Mount) (d : Disco) : Bool :=
  let sb := superblocco m d
  if m.roCompat &&& roCompatMetadataCsum ≠ 0 then
    sb 0x175 == 1 && le32 sb 0x3FC == (crc32cGrezzo 0xFFFFFFFF (segment sb 0 0x3FC)).toNat
  else true

/-- The physical blocks of a file from block `i` on, `quanti` of them. -/
def mappatura (m : Ext2Mount) (inode : Buffer) : Nat → Nat → Programma (List Nat)
  | 0, _ => pure []
  | quanti + 1, i => do
      let primo := (← mappaBlocco m inode i).blocco
      let resto ← mappatura m inode quanti (i + 1)
      pure (primo :: resto)

/-- The journal file: its length in blocks and where they lie. -/
def fileGiornale (m : Ext2Mount) (inode : Buffer) (blocchi : List Nat) : Gio.FileGiornale :=
  { mappa := fun i => blocchi.getD i 0
    dimFile := le32 inode 4 / m.dimBlocco
    corto := by
      have bytes := le32_lt inode 4
      rcases m.grandezza with size | size | size <;> rw [size] <;> omega }

/-- `giornale_monta` once the journal's inode is read. -/
def Driver.apriGiornale (v : Volume) (inode : Buffer) : Driver :=
  let d := s.dischi v.blkdev
  let quanti :=
    -- The journal's own superblock says how many blocks are mapped.
    be32 (blocco d ((s.esegui mnt v (mappaBlocco v.m inode 0)).1.blocco)) 0x10
  let letti := s.esegui mnt v (mappatura v.m inode (min quanti (le32 inode 4 / v.m.dimBlocco)) 0)
  let recover := v.m.incompat &&& incompatRecover != 0
  let file := fileGiornale v.m inode letti.1
  let esito := Gio.giornaleMonta v.m recover file d
  let ripreso := esito.2.isSome && recover && be32 (blocco d (file.mappa 0)) 0x1C != 0
  -- A replay may have changed the block of pointers.
  let s := { letti.2 with ind := if ripreso then none else letti.2.ind }
  (s.conDisco v.blkdev (Write.applyAll (Command.writes esito.1) d)).conVolume mnt
    { v with giornale := esito.2 }

/-- `giornale_monta`: without a journal there is nothing to open. -/
def Driver.giornaleMonta (v : Volume) : Driver :=
  let sb := superblocco v.m (s.dischi v.blkdev)
  if v.m.compat &&& compatHasJournal = 0 ∨ le32 sb 0xE0 = 0 ∨ le32 sb 0xE4 ≠ 0 then
    s.conVolume mnt { v with giornale := none }
  else
    match s.esegui mnt v (leggiInode v.m (le32 sb 0xE0)) with
    | (none, s') => s'.conVolume mnt { v with giornale := none }
    | (some inode, s') => s'.apriGiornale mnt v inode

/-- `valuta`: the module is asked for a volume it may write. -/
def Driver.valuta : Driver :=
  match s.mnt mnt with
  | none => s
  | some v =>
    if s.ops && !v.roChiesto && soloFra v.m.compat compatScrive &&
        soloFra v.m.incompat incompatScrive &&
        soloFra v.m.roCompat roCompatScrive &&
        volMonta v.m (s.dischi v.blkdev) then
      s.giornaleMonta mnt v
    else s

/-- `ext2_rivaluta_montaggi` from mount `i` on. -/
def Driver.rivalutaDa : Nat → Nat → Driver → Driver
  | 0, _, s => s
  | restanti + 1, i, s => Driver.rivalutaDa restanti (i + 1) (s.valuta i)

def Driver.registra : Driver :=
  if s.ops then s else Driver.rivalutaDa ext2MaxMount 0 { s with ops := true }

/-- The first free place of `g_mnt`. -/
def Driver.libero : Option Nat :=
  (List.range ext2MaxMount).find? fun i => (s.mnt i).isNone

/-- The volume in its place, before `valuta`. -/
def Driver.montato (slot blkdev : Nat) (roChiesto : Bool) (m : Ext2Mount) : Driver :=
  { s.invecchia with ind := none }.conVolume slot
    { m := m, blkdev := blkdev, roChiesto := roChiesto, giornale := none }

/-- `ext2_mount_come` of a device on which it finds the volume `m`, or none it
accepts. -/
def Driver.mountCome (blkdev : Nat) (roChiesto : Bool) (m : Option Ext2Mount) : Driver :=
  match s.libero, m with
  | some slot, some m => (s.montato slot blkdev roChiesto m).valuta slot
  | _, _ => s.invecchia

/-- A read of a file's blocks, a path resolved, a metadata block written, new
pointers in the block in memory, a mount, the module's registration. -/
inductive Evento where
  | legge (mnt : Nat) (programma : Programma Unit)
  | risolve (mnt : Nat) (percorso : Option (List UInt8))
  | scrive (mnt n : Nat) (src : Buffer) (ora : Nat)
  | punta (mnt n : Nat) (b : Buffer) (ora : Nat)
  | monta (blkdev : Nat) (roChiesto : Bool) (m : Option Ext2Mount)
  | registra

def Driver.passa : Evento → Driver
  | .legge mnt programma =>
    match s.mnt mnt with
    | none => s
    | some v => (s.esegui mnt v programma).2
  | .risolve mnt percorso =>
    match s.mnt mnt with
    | none => s
    | some v => (s.risolvi mnt v percorso).2
  | .scrive mnt n src ora =>
    match s.mnt mnt with
    | none => s
    | some v => (s.scriviBlocco mnt v n src ora).2
  | .punta mnt n b ora =>
    match s.mnt mnt, s.ind with
    | some v, some (altro, numero, _) =>
      if altro = mnt ∧ numero = n then (s.indRiversa mnt v n b ora).2 else s
    | _, _ => s
  | .monta blkdev roChiesto m => s.mountCome blkdev roChiesto m
  | .registra => s.registra

/-- The driver before the first mount. -/
structure Driver.Vuoto (s : Driver) : Prop where
  mnt : ∀ i, s.mnt i = none
  ops : s.ops = false
  ind : s.ind = none
  ris : ∀ e ∈ s.ris, e.ino = 0

end ExOs.Fs
