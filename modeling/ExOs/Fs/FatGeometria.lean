import ExOs.Library.Buffers

/-!
# The geometry of a FAT volume

Embedding of `fat_mount`, `fat_voce` and `clus_lba` in `kernel/fs/fat.c`: what
a boot sector makes of the volume, and where an entry of the FAT is read.  The
number of clusters and the size of the FAT come from fields that are never
compared.
-/

namespace ExOs.Fs.Fat

open ExOs.Library ExOs.Library.Buffer

section Fields

variable (s : Buffer)

def spc : Nat := (s 13).toNat

def resvd : Nat := le16 s 14

def nFat : Nat := (s 16).toNat

def rootEnt : Nat := le16 s 17

def tot : Nat := if le16 s 19 ≠ 0 then le16 s 19 else le32 s 32

def fatsz : Nat := if le16 s 22 ≠ 0 then le16 s 22 else le32 s 36

def rootDirSec : Nat := (rootEnt s * 32 + 511) / 512

/-- `meta`: the sectors before the data, in 32 bits. -/
def metaSec : Nat := (resvd s + nFat s * fatsz s + rootDirSec s) % 2 ^ 32

def clusters : Nat := (tot s - metaSec s) / spc s

def tipoDi (n : Nat) : Nat := if n < 4085 then 12 else if n < 65525 then 16 else 32

def tipo : Nat := tipoDi (clusters s)

def rootClus : Nat := le32 s 44 % 2 ^ 28

/-- None of the tests of `fat_mount` that return -1 holds. -/
def Accettato : Prop :=
  (s 510 = 0x55 ∧ s 511 = 0xAA) ∧ le16 s 11 = 512 ∧ (spc s ≠ 0 ∧ spc s &&& (spc s - 1) = 0) ∧
    spc s ≤ 128 ∧ resvd s ≠ 0 ∧ (nFat s ≠ 0 ∧ nFat s ≤ 4) ∧ (tot s ≠ 0 ∧ fatsz s ≠ 0) ∧
    metaSec s < tot s ∧ clusters s ≠ 0 ∧
    if tipo s = 32 then 2 ≤ rootClus s ∧ rootClus s < (clusters s + 2) % 2 ^ 32
    else rootEnt s ≠ 0

instance : Decidable (Accettato s) := inferInstanceAs (Decidable (_ ∧ _))

/-- The copy `BPB_ExtFlags` names, where mirroring is off. -/
def copiaAttiva : Nat :=
  if tipo s = 32 ∧ le16 s 40 &&& 0x80 ≠ 0 ∧ le16 s 40 &&& 0xF < nFat s then le16 s 40 &&& 0xF
  else 0

end Fields

structure FatMount where
  dev : Nat
  tipo : Nat
  bytsPerSec : Nat
  secPerClus : Nat
  nFat : Nat
  fatInizio : Nat
  fatSett : Nat
  fatAttiva : Nat
  rootInizio : Nat
  rootSett : Nat
  rootClus : Nat
  datiInizio : Nat
  nCluster : Nat

def volume (s : Buffer) (blkdev : Nat) : FatMount where
  dev := blkdev
  tipo := tipo s
  bytsPerSec := le16 s 11
  secPerClus := spc s
  nFat := nFat s
  fatInizio := resvd s
  fatSett := fatsz s
  fatAttiva := copiaAttiva s
  rootInizio := (resvd s + nFat s * fatsz s) % 2 ^ 32
  rootSett := rootDirSec s
  rootClus := if tipo s = 32 then rootClus s else 0
  datiInizio := ((resvd s + nFat s * fatsz s) % 2 ^ 32 + rootDirSec s) % 2 ^ 32
  nCluster := clusters s

/-- `fat_mount`: the slot and what goes into it; `settore` is sector 0, if it can
be read. -/
def fatMount (mnt : List (Option FatMount)) (settore : Option Buffer) (blkdev : Nat) :
    Option (Nat × FatMount) := do
  let slot ← mnt.findIdx? Option.isNone
  let s ← settore
  if Accettato s then some (slot, volume s blkdev) else none

/-- The offset of an entry before it is cut to 32 bits. -/
def voceOff (tipo clus : Nat) : Nat :=
  if tipo = 12 then clus + clus / 2 else if tipo = 16 then clus * 2 else clus * 4

variable (m : FatMount)

/-- The sectors and the bytes in them that make up an entry. -/
def voceByte (clus : Nat) : List (Nat × Nat) :=
  let off := voceOff m.tipo clus % 2 ^ 32
  let sett := (m.fatInizio + m.fatAttiva * m.fatSett + off / m.bytsPerSec) % 2 ^ 32
  let dentro := off % m.bytsPerSec
  if m.tipo = 16 then [(sett, dentro), (sett, dentro + 1)]
  else if m.tipo = 32 then
    [(sett, dentro), (sett, dentro + 1), (sett, dentro + 2), (sett, dentro + 3)]
  else
    [(sett, dentro),
      if dentro + 1 < m.bytsPerSec then (sett, dentro + 1) else ((sett + 1) % 2 ^ 32, 0)]

def clusLba (clus : Nat) : Nat := (m.datiInizio + (clus - 2) * m.secPerClus) % 2 ^ 32

/-! ## What a volume should be -/

def FatMount.attiva : Nat := m.fatInizio + m.fatAttiva * m.fatSett

/-- The copies of the FAT, the root and the data, each with the sector past it. -/
def FatMount.aree : List (Nat × Nat) :=
  (List.range m.nFat).map
      (fun i => (m.fatInizio + i * m.fatSett, m.fatInizio + (i + 1) * m.fatSett)) ++
    [(m.rootInizio, m.rootInizio + m.rootSett),
      (m.datiInizio, m.datiInizio + m.nCluster * m.secPerClus)]

structure Geometria (s : Buffer) (m : FatMount) : Prop where
  voci : ∀ c < m.nCluster + 2, ∀ p ∈ voceByte m c,
    m.attiva ≤ p.1 ∧ p.1 < m.attiva + m.fatSett ∧ p.2 < 512
  disgiunte : m.aree.Pairwise fun a b => ∀ n, ¬((a.1 ≤ n ∧ n < a.2) ∧ b.1 ≤ n ∧ n < b.2)
  sotto : ∀ a ∈ m.aree, a.2 ≤ tot s
  campi : rootEnt s * 32 + 511 < 2 ^ 32 ∧ resvd s + nFat s * fatsz s + rootDirSec s < 2 ^ 32 ∧
    m.nCluster + 2 < 2 ^ 32
  interi : ∀ c < m.nCluster + 2, voceOff m.tipo c < 2 ^ 32 ∧
    m.attiva + voceOff m.tipo c / 512 < 2 ^ 32 ∧ clusLba m c = m.datiInizio + (c - 2) * m.secPerClus

/-- The number of the sectors before the data has 32 bits; the last entry, in exact
numbers, has an offset of 32 bits and ends within the FAT. -/
def Regolare (s : Buffer) : Prop :=
  let prima := resvd s + nFat s * fatsz s + rootDirSec s
  let n := (tot s - prima) / spc s
  let fine := voceOff (tipoDi n) (n + 1)
  prima < 2 ^ 32 ∧ fine < 2 ^ 32 ∧ fine + (if tipoDi n = 32 then 4 else 2) ≤ 512 * fatsz s

/-! ## When it is -/

theorem voceOff_le (tipo : Nat) {c d : Nat} (below : c ≤ d) : voceOff tipo c ≤ voceOff tipo d := by
  unfold voceOff
  split
  · omega
  · split <;> omega

variable {m : FatMount} {s : Buffer}

theorem voceByte_iff {c : Nat} (sectors : m.bytsPerSec = 512)
    (kinds : m.tipo = 12 ∨ m.tipo = 16 ∨ m.tipo = 32) (start : 0 < m.fatInizio)
    (short : voceOff m.tipo c < 2 ^ 32) (room : m.attiva + m.fatSett < 2 ^ 32)
    (below : m.attiva + voceOff m.tipo c / 512 < 2 ^ 32) :
    (∀ p ∈ voceByte m c, m.attiva ≤ p.1 ∧ p.1 < m.attiva + m.fatSett ∧ p.2 < 512) ↔
      voceOff m.tipo c + (if m.tipo = 32 then 4 else 2) ≤ 512 * m.fatSett := by
  unfold FatMount.attiva at *
  rw [voceByte, sectors, Nat.mod_eq_of_lt short, Nat.mod_eq_of_lt below]
  rcases kinds with isKind | isKind | isKind
  · simp [isKind, voceOff] at below ⊢
    split <;> omega
  · simp [isKind, voceOff]
    omega
  · simp [isKind, voceOff]
    omega

theorem le16_lt (s : Buffer) (i : Nat) : le16 s i < 2 ^ 16 := by
  obtain ⟨fst, snd, _⟩ := bytes_lt s i
  unfold le16
  omega

theorem tot_lt (s : Buffer) : tot s < 2 ^ 32 := by
  have small := le16_lt s 19
  have large := le32_lt s 32
  rw [tot]
  split <;> omega

theorem copiaAttiva_lt (ne : nFat s ≠ 0) : copiaAttiva s < nFat s := by
  rw [copiaAttiva]
  split
  · next named => exact named.2.2
  · exact Nat.pos_of_ne_zero ne

theorem aree_ordinate (root : m.fatInizio + m.nFat * m.fatSett ≤ m.rootInizio)
    (data : m.rootInizio + m.rootSett ≤ m.datiInizio) :
    m.aree.Pairwise (fun a b => a.2 ≤ b.1) ∧
      ∀ a ∈ m.aree, a.2 ≤ m.datiInizio + m.nCluster * m.secPerClus := by
  have copy : ∀ i < m.nFat, m.fatInizio + (i + 1) * m.fatSett ≤ m.rootInizio := fun i below =>
    Nat.le_trans (Nat.add_le_add_left (Nat.mul_le_mul_right _ below) _) root
  rw [FatMount.aree]
  constructor
  · rw [List.pairwise_append, List.pairwise_map]
    refine ⟨List.pairwise_lt_range.imp fun less =>
      Nat.add_le_add_left (Nat.mul_le_mul_right _ less) _, ?_, ?_⟩
    · simpa using data
    · simp only [List.forall_mem_map, List.mem_range]
      intro i below
      have less := copy i below
      simp
      omega
  · simp only [List.forall_mem_append, List.forall_mem_map, List.mem_range]
    refine ⟨fun i below => ?_, ?_⟩
    · have less := copy i below
      omega
    · simp
      omega

theorem tipo_cases (s : Buffer) : tipo s = 12 ∨ tipo s = 16 ∨ tipo s = 32 := by
  unfold tipo tipoDi
  split
  · exact Or.inl rfl
  · split <;> simp

theorem volume_iff {blkdev : Nat} (accepted : Accettato s) :
    Geometria s (volume s blkdev) ↔ Regolare s := by
  obtain ⟨_, sectors, ⟨unit, _⟩, _, start, ⟨copies, _⟩, ⟨_, large⟩, fits, _⟩ := accepted
  by_cases sum : resvd s + nFat s * fatsz s + rootDirSec s < 2 ^ 32
  swap
  · exact ⟨fun geo => absurd geo.campi.2.1 sum, fun regular => absurd regular.1 sum⟩
  have isMeta : metaSec s = resvd s + nFat s * fatsz s + rootDirSec s := Nat.mod_eq_of_lt sum
  have isClusters : clusters s =
    (tot s - (resvd s + nFat s * fatsz s + rootDirSec s)) / spc s := by rw [clusters, isMeta]
  have total := tot_lt s
  have data : clusters s * spc s ≤ tot s - metaSec s := Nat.div_mul_le_self _ _
  have few : clusters s ≤ clusters s * spc s := Nat.le_mul_of_pos_right _ (Nat.pos_of_ne_zero unit)
  have active : (copiaAttiva s + 1) * fatsz s ≤ nFat s * fatsz s :=
    Nat.mul_le_mul_right _ (copiaAttiva_lt copies)
  rw [Nat.succ_mul] at active
  have room : (volume s blkdev).attiva + fatsz s < 2 ^ 32 := by
    show resvd s + copiaAttiva s * fatsz s + fatsz s < 2 ^ 32
    omega
  have place := fun c => voceByte_iff (m := volume s blkdev) (c := c) sectors
    (tipo_cases s) (Nat.pos_of_ne_zero start)
  have regular : Regolare s ↔ voceOff (tipo s) (clusters s + 1) < 2 ^ 32 ∧
      voceOff (tipo s) (clusters s + 1) + (if tipo s = 32 then 4 else 2) ≤ 512 * fatsz s := by
    rw [tipo, isClusters]
    exact and_iff_right sum
  rw [regular]
  constructor
  · intro geo
    obtain ⟨short, below, _⟩ := geo.interi (clusters s + 1) (Nat.lt_succ_self _)
    exact ⟨short, (place _ short room below).mp (geo.voci _ (Nat.lt_succ_self _))⟩
  rintro ⟨short, ends⟩
  have isRoot : (volume s blkdev).rootInizio = resvd s + nFat s * fatsz s :=
    Nat.mod_eq_of_lt (by omega)
  have isData : (volume s blkdev).datiInizio = metaSec s :=
    congrArg (fun x => (x + rootDirSec s) % 2 ^ 32) isRoot
  have each : ∀ c < clusters s + 2, voceOff (tipo s) c < 2 ^ 32 ∧
      (volume s blkdev).attiva + voceOff (tipo s) c / 512 < 2 ^ 32 ∧
      voceOff (tipo s) c + (if tipo s = 32 then 4 else 2) ≤ 512 * fatsz s := by
    intro c below
    have less := voceOff_le (tipo s) (Nat.le_of_lt_succ below)
    omega
  obtain ⟨ordered, within⟩ := aree_ordinate (m := volume s blkdev) (Nat.le_of_eq isRoot.symm)
    (by rw [isData, isRoot, isMeta]; exact Nat.le_refl _)
  have last : (volume s blkdev).datiInizio + clusters s * spc s ≤ tot s := by omega
  refine ⟨fun c below => ?_, ordered.imp fun less n both => ?_,
    fun a mem => Nat.le_trans (within a mem) last, ⟨?_, sum, ?_⟩, fun c below => ?_⟩
  · obtain ⟨shortC, belowC, endsC⟩ := each c below
    exact (place c shortC room belowC).mpr endsC
  · omega
  · have entries := le16_lt s 17
    rw [rootEnt]
    omega
  · show clusters s + 2 < 2 ^ 32
    omega
  · obtain ⟨shortC, belowC, _⟩ := each c below
    have before : (c - 2) * spc s ≤ clusters s * spc s :=
      Nat.mul_le_mul_right _ (Nat.sub_le_of_le_add (Nat.le_of_lt below))
    refine ⟨shortC, belowC, Nat.mod_eq_of_lt ?_⟩
    show (volume s blkdev).datiInizio + (c - 2) * spc s < 2 ^ 32
    omega

theorem fatMount_geometria_iff {mnt : List (Option FatMount)} {s : Buffer} {blkdev slot : Nat}
    {m : FatMount} (mounted : fatMount mnt (some s) blkdev = some (slot, m)) :
    Geometria s m ↔ Regolare s := by
  rw [fatMount] at mounted
  cases isSlot : mnt.findIdx? Option.isNone with
  | none =>
    rw [isSlot] at mounted
    cases mounted
  | some free =>
    rw [isSlot] at mounted
    change (if Accettato s then _ else _) = _ at mounted
    split at mounted
    · next accepted =>
      cases mounted
      exact volume_iff accepted
    · cases mounted

/-- A floppy disk with this many sectors in its FAT. -/
def dischetto (n : UInt8) : Buffer := fun i =>
  ([(12, 2), (13, 1), (14, 1), (16, 2), (17, 224), (19, 0x40), (20, 0x0B), (22, n), (510, 0x55),
    (511, 0xAA)].lookup i).getD 0

theorem dischetto_geometria : Geometria (dischetto 9) (volume (dischetto 9) 0) := by
  have mounted : fatMount [none] (some (dischetto 9)) 0 = some (0, volume (dischetto 9) 0) := rfl
  apply (fatMount_geometria_iff mounted).mpr
  unfold Regolare
  decide

/-- With a FAT of one sector, entry 342 is read from sector 2, past the active copy. -/
theorem dischetto_corto : (fatMount [none] (some (dischetto 1)) 0).isSome ∧
    ¬Geometria (dischetto 1) (volume (dischetto 1) 0) := by
  have facts : (fatMount [none] (some (dischetto 1)) 0).isSome ∧
      342 < (volume (dischetto 1) 0).nCluster + 2 ∧
      (2, 1) ∈ voceByte (volume (dischetto 1) 0) 342 ∧
      (volume (dischetto 1) 0).attiva + (volume (dischetto 1) 0).fatSett = 2 := by
    decide +kernel
  refine ⟨facts.1, fun geometria => ?_⟩
  have entry := (geometria.voci 342 facts.2.1 (2, 1) facts.2.2.1).2.1
  omega

end ExOs.Fs.Fat
