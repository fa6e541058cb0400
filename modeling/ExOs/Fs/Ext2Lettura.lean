import ExOs.Fs.Ext2
import ExOs.Library.Queries

/-!
# Reading inodes, block maps and paths

The read side of `kernel/fs/ext2.c` as programs that ask for blocks: inodes,
the blocks of a file through pointers or an extent tree, directory entries and
paths.  How a block is read, with the last block of pointers and the copies of
an open transaction, is left to whoever runs the program.
-/

namespace ExOs.Fs

open ExOs.Library ExOs.Library.Buffer

/-- `leggi_blocco` into a working buffer, or `leggi_indiretto`. -/
inductive Lettura where
  | blocco (n : Nat)
  | indiretto (n : Nat)
deriving DecidableEq

def Lettura.numero : Lettura → Nat
  | .blocco n => n
  | .indiretto n => n

abbrev Programma (Esito : Type) := Query Lettura (Option Buffer) Esito

def leggiBlocco (n : Nat) : Programma (Option Buffer) := .ask (.blocco n) .done

def leggiIndiretto (n : Nat) : Programma (Option Buffer) := .ask (.indiretto n) .done

def inodeRadice : Nat := 2

def modeTipo : Nat := 0xF000

def modeDir : Nat := 0x4000

def inodeFlExtents : Nat := 0x00080000

def extentMagic : Nat := 0xF30A

variable (m : Ext2Mount)

def leggiInode (numero : Nat) : Programma (Option Buffer) :=
  if numero = 0 ∨ m.nInode < numero then pure none
  else
    let gruppo := (numero - 1) / m.inodePerGruppo
    let indice := (numero - 1) % m.inodePerGruppo
    if m.nGruppi ≤ gruppo then pure none
    else do
      let descOff := gruppo * m.dimDesc % 2 ^ 32
      match ← leggiBlocco ((m.gdtPrimo + descOff / m.dimBlocco) % 2 ^ 32) with
      | none => pure none
      | some desc =>
        let itab := le32 desc (descOff % m.dimBlocco + 8)
        let off := indice * m.dimInode % 2 ^ 32
        match ← leggiBlocco ((itab + off / m.dimBlocco) % 2 ^ 32) with
        | none => pure none
        | some b =>
          pure (some fun i =>
            if i < 128 then b (off % m.dimBlocco + i) else 0)

/-! ## Block maps -/

/-- The physical block, 0 for a hole; `resto` is `g_ext_resto` where the block
comes from an extent and `errore` is `g_mappa_errore`. -/
structure Mappato where
  blocco : Nat
  resto : Nat
  errore : Bool
deriving DecidableEq

def Mappato.buco : Mappato := { blocco := 0, resto := 0, errore := false }

def Mappato.guasto : Mappato := { blocco := 0, resto := 0, errore := true }

/-- The last entry that starts at or before `n`, entries from `i` on. -/
def sceltaDa (nodo : Buffer) (n : Nat) : Nat → Nat → Option Nat → Option Nat
  | 0, _, scelta => scelta
  | restanti + 1, i, scelta =>
    if le32 nodo (12 + i * 12) ≤ n then sceltaDa nodo n restanti (i + 1) (some i)
    else scelta

/-- One node of an extent tree: where the block is, or the node below. -/
def nodoEsteso (nodo : Buffer) (spazio n : Nat) : Mappato ⊕ Nat :=
  if le16 nodo 0 ≠ extentMagic then .inl .guasto
  else
    let voci := le16 nodo 2
    if voci = 0 ∨ 12 + voci * 12 > spazio then .inl .buco
    else
      match sceltaDa nodo n voci 0 none with
      | none => .inl .buco
      | some i =>
        let e := 12 + i * 12
        if le16 nodo 6 = 0 then
          let primo := le32 nodo e
          let lung := le16 nodo (e + 4)
          if lung > 32768 ∨ n - primo ≥ lung ∨ le16 nodo (e + 6) ≠ 0 then .inl .buco
          else
            .inl
              { blocco := (le32 nodo (e + 8) + (n - primo)) % 2 ^ 32
                resto := lung - (n - primo), errore := false }
        else if le16 nodo (e + 8) ≠ 0 ∨ le32 nodo (e + 4) = 0 then .inl .buco
        else .inr (le32 nodo (e + 4))

/-- `extent_map` from a node on, with `giri` levels left. -/
def extentMapDa (m : Ext2Mount) (n : Nat) : Nat → Buffer → Nat → Programma Mappato
  | 0, nodo, spazio =>
    match nodoEsteso nodo spazio n with
    | .inl esito => pure esito
    | .inr _ => pure .buco
  | giri + 1, nodo, spazio =>
    match nodoEsteso nodo spazio n with
    | .inl esito => pure esito
    | .inr foglia => do
        match ← leggiBlocco foglia with
        | none => pure .guasto
        | some b => extentMapDa m n giri b m.dimBlocco

def extentMap (inode : Buffer) (n : Nat) : Programma Mappato :=
  extentMapDa m n 5 (fun pos => inode (40 + pos)) 60

/-- Pointer `i` of the block of pointers `p`, where there is one. -/
def segui (p i : Nat) (poi : Nat → Programma Mappato) : Programma Mappato :=
  if p = 0 then pure .buco
  else do
    match ← leggiIndiretto p with
    | none => pure .guasto
    | some b => poi (le32 b (i * 4))

def trovato (blocco : Nat) : Programma Mappato :=
  pure { blocco := blocco, resto := 0, errore := false }

def mappaBlocco (inode : Buffer) (n : Nat) : Programma Mappato :=
  let ppb := m.dimBlocco / 4
  if le32 inode 32 &&& inodeFlExtents ≠ 0 then extentMap m inode n
  else if n < 12 then trovato (le32 inode (40 + n * 4))
  else if n - 12 < ppb then segui (le32 inode (40 + 12 * 4)) (n - 12) trovato
  else if n - 12 - ppb < ppb * ppb then
    let n := n - 12 - ppb
    segui (le32 inode (40 + 13 * 4)) (n / ppb) fun p => segui p (n % ppb) trovato
  else
    let n := n - 12 - ppb - ppb * ppb
    segui (le32 inode (40 + 14 * 4)) (n / (ppb * ppb)) fun p =>
      segui p (n / ppb % ppb) fun p => segui p (n % ppb) trovato

/-- The entries of one directory block from offset `p` on; each takes at least
eight bytes, so `dim_blocco` rounds are enough. -/
def cercaNelBlocco (m : Ext2Mount) (b : Buffer) (seg : List UInt8) : Nat → Nat → Option Nat
  | 0, _ => none
  | giri + 1, p =>
    if m.dimBlocco ≤ p then none
    else if le16 b (p + 4) < 8 ∨ m.dimBlocco < p + le16 b (p + 4) then none
    else if le32 b p ≠ 0 ∧ segment b (p + 8) (b (p + 6)).toNat = seg then some (le32 b p)
    else cercaNelBlocco m b seg giri (p + le16 b (p + 4))

/-- The blocks of a directory from number `i` on, `restanti` of them: the inode
number, 0 when there is no such entry. An offset that goes round the 32 bits
starts again at the first block: such a search that finds nothing does not
end. -/
def cercaVoceDa (m : Ext2Mount) (inodeDir : Buffer) (seg : List UInt8) :
    Nat → Nat → Programma (Option Nat)
  | 0, _ =>
    pure (if 2 ^ 32 - m.dimBlocco < le32 inodeDir 4 then none else some 0)
  | restanti + 1, i => do
      let blk := (← mappaBlocco m inodeDir i).blocco
      if blk = 0 then cercaVoceDa m inodeDir seg restanti (i + 1)
      else
        match ← leggiBlocco blk with
        | none => pure (some 0)
        | some b =>
          match cercaNelBlocco m b seg m.dimBlocco 0 with
          | some ino => pure (some ino)
          | none => cercaVoceDa m inodeDir seg restanti (i + 1)

def cercaVoce (inodeDir : Buffer) (seg : List UInt8) : Programma (Option Nat) :=
  cercaVoceDa m inodeDir seg ((le32 inodeDir 4 + m.dimBlocco - 1) / m.dimBlocco) 0

/-- The segments between slashes; an empty one does not count. -/
def segmentiDa (corrente : List UInt8) : List UInt8 → List (List UInt8)
  | [] => if corrente = [] then [] else [corrente]
  | c :: resto =>
    if c ≠ 47 then segmentiDa (corrente ++ [c]) resto
    else if corrente = [] then segmentiDa [] resto
    else corrente :: segmentiDa [] resto

/-- From the directory `ino` down the segments: the inode number, 0 when there
is no such path, and what `out` holds. -/
def scendi (m : Ext2Mount) :
    List (List UInt8) → Nat → Buffer → Programma (Option (Nat × Option Buffer))
  | [], ino, out => pure (some (ino, some out))
  | seg :: resto, _, out => do
      if le16 out 0 &&& modeTipo ≠ modeDir then pure (some (0, some out))
      else
        match ← cercaVoce m out seg with
        | none => pure none
        | some 0 => pure (some (0, some out))
        | some (ino + 1) =>
          match ← leggiInode m (ino + 1) with
          | none => pure (some (0, some out))
          | some inode => scendi m resto (ino + 1) inode

/-- `risolvi_dal_disco`: nothing when it does not end, else the inode number
and the inode where `out` was written. -/
def risolviDalDisco (percorso : Option (List UInt8)) :
    Programma (Option (Nat × Option Buffer)) := do
  match ← leggiInode m inodeRadice with
  | none => pure (some (0, none))
  | some out =>
    match percorso with
    | some (47 :: resto) => scendi m (segmentiDa [] resto) inodeRadice out
    | _ => pure (some (0, some out))

end ExOs.Fs
