import ExOs.Fs.Ext2

/-!
# Checksums

`crc32c_grezzo` of `kernel/moduli/ext4/somme.c`, the raw register without the
final inversion, and the sum of the superblock.
-/

namespace ExOs.Ext4

open ExOs.Library ExOs.Fs

def crcBit (c : UInt32) : UInt32 :=
  if c &&& 1 = 1 then c >>> 1 ^^^ 0x82F63B78 else c >>> 1

/-- Entry `i` of the table that `tabelle` fills. -/
def gCrc32c (i : UInt32) : UInt32 := crcBit^[8] i

def crc32cGrezzo (crc : UInt32) (dati : List UInt8) : UInt32 :=
  dati.foldl (fun crc p => crc >>> 8 ^^^ gCrc32c ((crc ^^^ p.toUInt32) &&& 0xFF)) crc

theorem crc32cGrezzo_append {crc : UInt32} {fst snd : List UInt8} :
    crc32cGrezzo (crc32cGrezzo crc fst) snd = crc32cGrezzo crc (fst ++ snd) :=
  List.foldl_append.symm

def sommaSuper (m : Ext2Mount) (sb : Buffer) : Buffer :=
  if m.roCompat &&& roCompatMetadataCsum ≠ 0 then
    Buffer.putLe32 sb 0x3FC (crc32cGrezzo 0xFFFFFFFF (Buffer.segment sb 0 0x3FC)).toNat
  else sb

end ExOs.Ext4
