import ExOs.Library.Buffers
import ExOs.Library.WriteCaches
import Mathlib.Algebra.Ring.Nat

/-!
# The ext2 driver's mounted volume

`Ext2Mount` and the constants of `kernel/include/ext2_interno.h` that the
reader in `kernel/fs/ext2.c` and the write module share.
-/

namespace ExOs.Fs

open ExOs.Library List

/-- Byte `c.2` of block `c.1` of a volume. -/
abbrev Disco := Nat × Nat → UInt8

abbrev Scrittura := Write (Nat × Nat) UInt8

abbrev Comando := Command (Nat × Nat) UInt8

def blocco (d : Disco) (n : Nat) : Buffer := fun pos => d (n, pos)

def scriviTutto (n : Nat) (src : Buffer) : Scrittura :=
  fun c => if c.1 = n then some (src c.2) else none

def superOffset : Nat := 1024

def compatHasJournal : Nat := 0x0004

def incompatRecover : Nat := 0x0004

def roCompatMetadataCsum : Nat := 0x0400

/-- The fields of `Ext2Mount` that path resolution and the journal read.
`ext2_mount_come` accepts a block size of `1024 << log_bs` with `log_bs` at
most two. -/
structure Ext2Mount where
  dimBlocco : Nat
  nBlocchi : Nat
  nInode : Nat
  nGruppi : Nat
  inodePerGruppo : Nat
  dimInode : Nat
  dimDesc : Nat
  gdtPrimo : Nat
  compat : Nat
  incompat : Nat
  roCompat : Nat
  grandezza : dimBlocco = 1024 ∨ dimBlocco = 2048 ∨ dimBlocco = 4096
  contati : nBlocchi < 2 ^ 32

/-- The 1024 bytes of the superblock, at offset 1024 of the volume. -/
def superblocco (m : Ext2Mount) (d : Disco) : Buffer :=
  if m.dimBlocco = 1024 then blocco d 1 else fun pos => d (0, superOffset + pos)

/-- Two sectors written at offset 1024 of the volume. -/
def scriviSuper (m : Ext2Mount) (sb : Buffer) : Scrittura :=
  if m.dimBlocco = 1024 then scriviTutto 1 sb
  else
    fun c =>
      if c.1 = 0 ∧ superOffset ≤ c.2 ∧ c.2 < superOffset + 1024 then some (sb (c.2 - superOffset))
      else none

theorem blocco_scriviTutto {n : Nat} {src : Buffer} {d : Disco} :
    blocco ((scriviTutto n src).apply d) n = src := by
  funext pos
  simp [blocco, Write.apply, scriviTutto]

variable {voci : List (Nat × Buffer)} {n : Nat}

theorem blocco_apply_of_untouched {w : Scrittura}
    (untouched : ∀ pos, w (n, pos) = none) (d : Disco) :
    blocco (w.apply d) n = blocco d n := by
  funext pos
  exact Write.apply_outside (untouched pos)

theorem scriviTutto_untouched {n n' : Nat} (ne : n' ≠ n) (src : Buffer)
    (pos : Nat) : scriviTutto n src (n', pos) = none := by
  simp [scriviTutto, ne]

theorem blocco_applyAll_of_untouched {ws : List Scrittura}
    (untouched : ∀ w ∈ ws, ∀ pos, w (n, pos) = none) {d : Disco} :
    blocco (Write.applyAll ws d) n = blocco d n := by
  funext pos
  exact Write.applyAll_outside d fun w mem => untouched w mem pos

theorem blocco_applyAll_mem (d : Disco)
    (nodup : (voci.map Prod.fst).Nodup) {v : Nat × Buffer} (mem : v ∈ voci) :
    blocco (Write.applyAll (voci.map fun v => scriviTutto v.1 v.2) d) v.1 = v.2 := by
  funext pos
  refine Write.applyAll_mem nodup mem ?_ (fun other _ ne => scriviTutto_untouched ne other.2 pos)
  simp [scriviTutto]

theorem blocco_applyAll_not_mem (absent : n ∉ voci.map Prod.fst) {d : Disco} :
    blocco (Write.applyAll (voci.map fun v => scriviTutto v.1 v.2) d) n = blocco d n := by
  apply blocco_applyAll_of_untouched
  intro w wMember pos
  obtain ⟨other, otherMember, shape⟩ := mem_map.mp wMember
  rw [← shape]
  apply scriviTutto_untouched
  intro same
  exact absent (same ▸ mem_map_of_mem otherMember)

end ExOs.Fs
