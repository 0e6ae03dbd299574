import SerpaeOS.Disk.Streamer
import SerpaeOS.Lib.Word
import Mathlib.Tactic.Ring

/-!
# FAT volumes

The two drivers `fat16.c` and `fat32.c` have the same structure.  What differs between
them in the functions on cluster chains (the size of a table entry, the values with a
special meaning, where the data area starts) is collected in a `FatKind`; each function is
defined once for a kind and then named for the two drivers.
-/

namespace SerpaeOS

open Bytes Word

/-- The sector size of the disk and the fields of the boot sector that the drivers use. -/
structure FatVolume where
  sectorSize : ℕ
  sectorsPerCluster : ℕ
  reservedSectors : ℕ
  fatCopies : ℕ
  sectorsPerFat : ℕ
  rootDirEntries : ℕ
  rootCluster : ℕ
  sectorsBig : ℕ
  clusterBytes_pos : 0 < sectorsPerCluster * sectorSize
  fatCopies_pos : 0 < fatCopies

/-- `size_of_cluster_bytes`. -/
def FatVolume.clusterBytes (v : FatVolume) : ℕ := v.sectorsPerCluster * v.sectorSize

lemma FatVolume.clusterBytes_ne_zero (v : FatVolume) : v.clusterBytes ≠ 0 :=
  Nat.pos_iff_ne_zero.mp v.clusterBytes_pos

/-- What differs between the drivers. -/
structure FatKind where
  /-- The size of a table entry in bytes. -/
  entrySize : ℕ
  /-- The value of an entry that could not be read. -/
  entryError : ℤ → ℤ
  /-- The first sector of the data area. -/
  dataSector : FatVolume → ℕ
  /-- Entries at which the walk along a chain gives up. -/
  stops : ℤ → Bool
  /-- Entries from this value on end a chain. -/
  endOfChain : ℕ
  /-- The last number of a data cluster. -/
  maxCluster : ℕ
  /-- Whether the search for a name passes over volume labels. -/
  skipsLabels : Bool
  /-- Whether `read_internal_from_stream` keeps the size of a cluster in an unsigned word, so that
  what is compared with it or divided by it is unsigned too. -/
  unsignedClusterBytes : Bool
  table_le : ∀ v : FatVolume, v.reservedSectors + v.sectorsPerFat ≤ dataSector v
  maxCluster_lt : maxCluster < endOfChain
  endOfChain_lt : endOfChain < 256 ^ entrySize

/-- The values tested in `fat16_get_cluster_for_offset`. -/
def fat16Stops (entry : ℤ) : Bool :=
  entry == 0xFF8 || entry == 0xFFF || entry == 0xFFF7 || entry == 0xFF0 || entry == 0xFF6 ||
    entry == 0x00

/-- The values tested in `fat32_get_cluster_for_offset`. -/
def fat32Stops (entry : ℤ) : Bool :=
  0x0FFFFFF8 ≤ entry || entry == 0x0FFFFFF7 || entry == 0x0FFFFFF0 || entry == 0x0FFFFFF6 ||
    entry == 0x00

/-- The end of the root directory, `root_directory.ending_sector_pos`, as
`fat16_get_root_directory` sets it. -/
def fat16EndingSectorPos (v : FatVolume) : ℕ :=
  v.fatCopies * v.sectorsPerFat + v.reservedSectors + v.rootDirEntries * 32 / v.sectorSize

lemma FatVolume.sectorsPerFat_le (v : FatVolume) :
    v.sectorsPerFat ≤ v.fatCopies * v.sectorsPerFat :=
  Nat.le_mul_of_pos_left _ v.fatCopies_pos

def fat16 : FatKind where
  entrySize := 2
  entryError res := res
  dataSector := fat16EndingSectorPos
  stops := fat16Stops
  endOfChain := 0xFFF8
  maxCluster := 0xFFEF
  skipsLabels := false
  unsignedClusterBytes := false
  table_le v := by
    rw [fat16EndingSectorPos, Nat.add_comm v.reservedSectors]
    exact Nat.le_add_right_of_le (Nat.add_le_add_right v.sectorsPerFat_le _)
  maxCluster_lt := by decide
  endOfChain_lt := by decide

def fat32 : FatKind where
  entrySize := 4
  entryError _ := 0xFFFFFFFF
  dataSector v := v.reservedSectors + v.fatCopies * v.sectorsPerFat
  stops := fat32Stops
  endOfChain := 0x0FFFFFF8
  maxCluster := 0x0FFFFFEF
  skipsLabels := true
  unsignedClusterBytes := true
  table_le v := Nat.add_le_add_left v.sectorsPerFat_le _
  maxCluster_lt := by decide
  endOfChain_lt := by decide

namespace FatKind

variable (k : FatKind) (v : FatVolume)

/-- The position of a table entry. -/
def entryPos (cluster : ℤ) : ℤ := v.reservedSectors * v.sectorSize + cluster * k.entrySize

/-- The value of the table entry of a cluster, as an `int`. -/
def getFatEntry (disk : Disk) (cluster : ℤ) : ℤ :=
  let read := diskstreamerRead disk (i32 (k.entryPos v cluster)) k.entrySize
  if read.1 < 0 then k.entryError read.1 else number read.2.1

/-- The loop of the walk along a chain over `n` clusters. -/
def clusterLoop (disk : Disk) : ℕ → ℤ → ℤ
  | 0, cluster => cluster
  | n + 1, cluster =>
    let entry := k.getFatEntry v disk cluster
    if k.stops entry then -eio else clusterLoop disk n entry

/-- The cluster of a chain with the given offset in the file, or an error. -/
def getClusterForOffset (disk : Disk) (startingCluster : ℤ) (offset : ℕ) : ℤ :=
  let clustersAhead := offset / v.clusterBytes
  k.clusterLoop v disk clustersAhead startingCluster

def clusterToSector (cluster : ℤ) : ℤ := k.dataSector v + (cluster - 2) * v.sectorsPerCluster

/-- The position of the first byte of a cluster, `sector_to_absolute` of its sector. -/
def clusterPos (cluster : ℤ) : ℤ := k.clusterToSector v cluster * v.sectorSize

end FatKind

def fat16GetFatEntry := fat16.getFatEntry
def fat16GetClusterForOffset := fat16.getClusterForOffset

/-! ## Chains -/

namespace FatKind

variable (k : FatKind) (v : FatVolume) (disk : Disk)

/-- The value of a table entry on the volume. -/
def fatEntry (cluster : ℕ) : ℕ :=
  number (slice disk.byte (v.reservedSectors * v.sectorSize + cluster * k.entrySize) k.entrySize)

/-- The first byte of a data cluster. -/
def dataPos (cluster : ℕ) : ℕ :=
  (k.dataSector v + (cluster - 2) * v.sectorsPerCluster) * v.sectorSize

/-- The data cluster and its table entry lie below the position `2 ^ 31`. -/
structure OnVolume (cluster : ℕ) : Prop where
  two_le : 2 ≤ cluster
  le_max : cluster ≤ k.maxCluster
  entry_lt : v.reservedSectors * v.sectorSize + (cluster + 1) * k.entrySize < 2 ^ 31
  data_lt : k.dataPos v cluster + v.clusterBytes < 2 ^ 31

/-- The clusters form an acyclic chain that is terminated in the table. -/
structure IsChain (chain : List ℕ) : Prop where
  nodup : chain.Nodup
  onVolume : ∀ c ∈ chain, k.OnVolume v c
  next : ∀ i, i + 1 < chain.length → k.fatEntry v disk (chain.getD i 0) = chain.getD (i + 1) 0
  last : ∀ i, i + 1 = chain.length → k.endOfChain ≤ k.fatEntry v disk (chain.getD i 0)

/-- The content of a file: its clusters in the order of the chain. -/
def contentByte (chain : List ℕ) (i : ℕ) : UInt8 :=
  disk.byte (k.dataPos v (chain.getD (i / v.clusterBytes) 0) + i % v.clusterBytes)

variable {k v disk} {chain : List ℕ} {c : ℕ}

lemma OnVolume.clusterPos_eq (h : k.OnVolume v c) : k.clusterPos v c = k.dataPos v c := by
  have h2 := h.two_le
  simp only [clusterPos, clusterToSector, dataPos]
  push_cast [Nat.cast_sub h2]
  ring

/-- The number of a cluster on the volume is not negative as an `int`. -/
lemma OnVolume.i32_eq (h : k.OnVolume v c) : i32 (c : ℤ) = c := by
  have hsize : 0 < k.entrySize := by
    rcases Nat.eq_zero_or_pos k.entrySize with hzero | hpos
    · have hlt := k.maxCluster_lt.trans k.endOfChain_lt
      have hmax := h.two_le.trans h.le_max
      rw [hzero, Nat.pow_zero] at hlt
      omega
    · exact hpos
  have hentry := h.entry_lt
  have hle : c + 1 ≤ (c + 1) * k.entrySize := Nat.le_mul_of_pos_right _ hsize
  exact i32_of_lt (by omega) (by omega)

/-- On a volume without faults the driver sees the entries of the table. -/
lemma OnVolume.getFatEntry_eq (h : k.OnVolume v c) (hf : disk.FaultFree) :
    k.getFatEntry v disk c = k.fatEntry v disk c := by
  have hlt := h.entry_lt
  have hpos : i32 (k.entryPos v c) =
      ((v.reservedSectors * v.sectorSize + c * k.entrySize : ℕ) : ℤ) := by
    have hle : c * k.entrySize ≤ (c + 1) * k.entrySize := Nat.mul_le_mul_right _ (Nat.le_succ c)
    have hcast : k.entryPos v c =
        ((v.reservedSectors * v.sectorSize + c * k.entrySize : ℕ) : ℤ) := by
      rw [entryPos]
      push_cast
      rfl
    rw [hcast, i32_of_lt (by omega) (by omega)]
  rw [getFatEntry, hpos, diskstreamerRead_ok hf]
  rfl

lemma IsChain.getD_mem {i : ℕ} (hi : i < chain.length) : chain.getD i 0 ∈ chain := by
  have hget : chain.getD i 0 = chain[i] := by simp [List.getD, hi]
  rw [hget]
  exact List.getElem_mem hi

lemma IsChain.onVolume_getD (h : k.IsChain v disk chain) {i : ℕ} (hi : i < chain.length) :
    k.OnVolume v (chain.getD i 0) :=
  h.onVolume _ (getD_mem hi)

/-- Walking along a chain past entries that do not stop the walk. -/
lemma IsChain.clusterLoop_eq (h : k.IsChain v disk chain) (hf : disk.FaultFree) :
    ∀ n i, i + n < chain.length → (∀ j, i < j → j ≤ i + n → k.stops (chain.getD j 0) = false) →
      k.clusterLoop v disk n (chain.getD i 0) = chain.getD (i + n) 0 := by
  intro n
  induction n with
  | zero => exact fun i _ _ => rfl
  | succ n ih =>
    intro i hlen hstop
    have hi := h.onVolume_getD (i := i) (by omega)
    rw [clusterLoop, hi.getFatEntry_eq hf, h.next i (by omega)]
    rw [hstop (i + 1) (by omega) (by omega), if_neg (by decide),
      ih (i + 1) (by omega) fun j hj hj' => hstop j (by omega) (by omega), Nat.add_right_comm,
      Nat.add_assoc]

/-- Walking along a chain with an entry that stops the walk. -/
lemma IsChain.clusterLoop_stops (h : k.IsChain v disk chain) (hf : disk.FaultFree) :
    ∀ n i, i + n < chain.length → (∃ j, i < j ∧ j ≤ i + n ∧ k.stops (chain.getD j 0) = true) →
      k.clusterLoop v disk n (chain.getD i 0) = -eio := by
  intro n
  induction n with
  | zero =>
    rintro i _ ⟨j, hj, hj', -⟩
    omega
  | succ n ih =>
    rintro i hlen ⟨j, hj, hj', hstop⟩
    have hi := h.onVolume_getD (i := i) (by omega)
    rw [clusterLoop, hi.getFatEntry_eq hf, h.next i (by omega)]
    by_cases hfirst : k.stops (chain.getD (i + 1) 0) = true
    · rw [if_pos hfirst]
    · rw [if_neg hfirst]
      refine ih (i + 1) (by omega) ⟨j, ?_, by omega, hstop⟩
      rcases Nat.lt_or_ge (i + 1) j with hlt | hge
      · exact hlt
      · obtain rfl : j = i + 1 := by omega
        exact absurd hstop hfirst

end FatKind

end SerpaeOS
