import SerpaeOS.Fs.Fat.Volume

/-!
# Sector numbers

From a cluster and an offset in it to the number of a sector: `fat16_read` and `fat16_write`
compute the position of the cluster in bytes, `diskstreamer_seek` takes it as an `int`, and
`diskstreamer_read` and `write_byte` divide the position by the size of a sector.  All of these
are 32-bit computations; from `2 ^ 31` on a position is negative, and the division leads to a
sector that is not that of the cluster.
-/

namespace SerpaeOS

open Word

/-! ## Positions and requests -/

/-- The number of the sector that the stream at the position asks the disk for, as
`disk_read_block` gets it, and the index of the byte in the sector. -/
def streamRequest (pos : ℤ) : ℕ × ℤ :=
  (u32 (pos.tdiv defaultSectorSize), pos.tmod defaultSectorSize)

/-- The position of a stream after transfers of the given numbers of bytes: `diskstreamer_read`
moves it on sector by sector, and `diskstreamer_write` byte by byte. -/
def streamPosition (start : ℤ) (transfers : List ℕ) : ℤ :=
  transfers.foldl (fun (pos : ℤ) (n : ℕ) => i32 (pos + n)) start

/-- The position that `fat16_read_internal_from_stream` seeks to. -/
def fat16ReadSeek (v : FatVolume) (cluster : ℤ) (offsetFromCluster : ℕ) : ℤ :=
  let startingSector := i32 (fat16.clusterToSector v cluster)
  i32 (i32 (startingSector * v.sectorSize) + offsetFromCluster)

/-- The position that `fat16_write` seeks to. -/
def fat16WriteSeek (v : FatVolume) (cluster : ℤ) (offsetFromCluster : ℕ) : ℤ :=
  let offset := u32 (i32 (i32 (fat16.clusterToSector v cluster) * v.sectorSize))
  i32 (u32 ((offset : ℤ) + offsetFromCluster))

/-- The values that are computed on the way from a cluster and an offset to a position. -/
def fat16Intermediates (v : FatVolume) (cluster : ℤ) (offsetFromCluster : ℕ) : List ℤ :=
  [cluster - 2, (cluster - 2) * v.sectorsPerCluster, fat16.clusterToSector v cluster,
    fat16.clusterToSector v cluster * v.sectorSize,
    fat16.clusterToSector v cluster * v.sectorSize + offsetFromCluster]

/-- The sector of the volume where a cluster begins. -/
def fat16SectorOf (v : FatVolume) (cluster : ℕ) : ℕ :=
  fat16EndingSectorPos v + (cluster - 2) * v.sectorsPerCluster

/-- The sector and the index in it of the byte `o` from a sector on. -/
def byteRequest (sector o : ℕ) : ℕ × ℤ :=
  (sector + o / defaultSectorSize, ((o % defaultSectorSize : ℕ) : ℤ))

/-- Reads and writes that come to the byte `o` of the cluster, wherever they start in it, ask the
disk for the sector of this byte, and no computation overflows. -/
structure SectorAddressed (v : FatVolume) (cluster o : ℕ) : Prop where
  read : ∀ start transfers, start + transfers.sum = o →
    streamRequest (streamPosition (fat16ReadSeek v cluster start) transfers) =
      byteRequest (fat16SectorOf v cluster) o
  write : ∀ start transfers, start + transfers.sum = o →
    streamRequest (streamPosition (fat16WriteSeek v cluster start) transfers) =
      byteRequest (fat16SectorOf v cluster) o
  no_overflow : ∀ x ∈ fat16Intermediates v cluster o, -2 ^ 31 ≤ x ∧ x < 2 ^ 31

variable {v : FatVolume} {cluster o : ℕ}

/-! ## The position of a byte -/

/-- The transfers move the position on by their bytes, modulo `2 ^ 32`. -/
lemma streamPosition_i32 (transfers : List ℕ) : ∀ x : ℤ,
    streamPosition (i32 x) transfers = i32 (x + transfers.sum) := by
  induction transfers with
  | nil =>
    intro x
    rw [List.sum_nil, Nat.cast_zero, Int.add_zero]
    rfl
  | cons n transfers ih =>
    intro x
    rw [streamPosition, List.foldl_cons, i32_add_i32]
    refine (ih (x + n)).trans ?_
    rw [List.sum_cons, Nat.cast_add, Int.add_assoc]

lemma clusterToSector_eq (hc : 2 ≤ cluster) :
    fat16.clusterToSector v cluster = fat16SectorOf v cluster := by
  rw [FatKind.clusterToSector, fat16SectorOf]
  push_cast [Nat.cast_sub hc]
  rfl

lemma fat16ReadSeek_eq (hv : v.sectorSize = defaultSectorSize) (hc : 2 ≤ cluster) (start : ℕ) :
    fat16ReadSeek v cluster start =
      i32 (fat16SectorOf v cluster * defaultSectorSize + start) := by
  have hmul : i32 (i32 (fat16SectorOf v cluster) * defaultSectorSize) =
      i32 (fat16SectorOf v cluster * defaultSectorSize) := Int.bmod_mul_bmod
  rw [fat16ReadSeek, clusterToSector_eq hc, hv]
  simp only [hmul, i32_add_i32]

lemma fat16WriteSeek_eq (hv : v.sectorSize = defaultSectorSize) (hc : 2 ≤ cluster) (start : ℕ) :
    fat16WriteSeek v cluster start =
      i32 (fat16SectorOf v cluster * defaultSectorSize + start) := by
  have hmul : i32 (i32 (fat16SectorOf v cluster) * defaultSectorSize) =
      i32 (fat16SectorOf v cluster * defaultSectorSize) := Int.bmod_mul_bmod
  rw [fat16WriteSeek, clusterToSector_eq hc, hv]
  simp only [hmul, i32_u32]
  rw [← i32_add_i32, i32_u32, i32_add_i32, i32_add_i32]

/-- The request for a byte of the volume below `2 ^ 31`. -/
lemma streamRequest_low {sector o : ℕ} (h : sector * defaultSectorSize + o < 2 ^ 31) :
    streamRequest (i32 (sector * defaultSectorSize + o)) = byteRequest sector o := by
  rw [defaultSectorSize] at *
  have hpos : i32 (sector * (512 : ℕ) + o) = (sector * 512 + o : ℕ) :=
    i32_of_lt (by omega) (by omega)
  rw [hpos, streamRequest, byteRequest, Int.tdiv_eq_ediv_of_nonneg (by omega),
    Int.tmod_eq_emod_of_nonneg (by omega), u32]
  simp only [defaultSectorSize]
  refine Prod.ext ?_ ?_
  · simp only
    omega
  · simp only
    omega

/-- From `2 ^ 31` on another sector is asked for. -/
lemma streamRequest_high {sector o : ℕ} (h : 2 ^ 31 ≤ sector * defaultSectorSize + o)
    (hlt : sector * defaultSectorSize + o < 2 ^ 32) :
    (streamRequest (i32 (sector * defaultSectorSize + o))).1 ≠ sector + o / defaultSectorSize := by
  rw [defaultSectorSize] at *
  have hpos : i32 (sector * (512 : ℕ) + o) = -((2 ^ 32 - (sector * 512 + o) : ℕ) : ℤ) := by
    rw [i32_of_ge (by omega) (by omega)]
    omega
  rw [hpos, streamRequest, Int.neg_tdiv, Int.tdiv_eq_ediv_of_nonneg (by omega), u32]
  simp only [defaultSectorSize]
  omega

/-- Inside the first `2 ^ 32` bytes of a volume, reads and writes reach the sector of a byte
exactly if the byte lies below `2 ^ 31`. -/
theorem fat16_sector_iff (hv : v.sectorSize = defaultSectorSize) (hc : 2 ≤ cluster)
    (ho : o < v.clusterBytes)
    (hend : fat16SectorOf v (cluster + 1) * defaultSectorSize ≤ 2 ^ 32) :
    SectorAddressed v cluster o ↔ fat16SectorOf v cluster * defaultSectorSize + o < 2 ^ 31 := by
  have hnext : fat16SectorOf v (cluster + 1) =
      fat16SectorOf v cluster + v.sectorsPerCluster := by
    rw [fat16SectorOf, fat16SectorOf, show cluster + 1 - 2 = cluster - 2 + 1 by omega,
      Nat.succ_mul, Nat.add_assoc]
  have hlt : fat16SectorOf v cluster * defaultSectorSize + o < 2 ^ 32 := by
    rw [FatVolume.clusterBytes, hv] at ho
    rw [hnext, Nat.add_mul] at hend
    omega
  constructor
  · intro h
    by_contra hge
    refine streamRequest_high (not_lt.mp hge) hlt ?_
    have hread := h.read o [] rfl
    rw [fat16ReadSeek_eq hv hc, streamPosition_i32, List.sum_nil, Nat.cast_zero,
      Int.add_zero] at hread
    exact congrArg Prod.fst hread
  · intro h
    have hrequest : ∀ start transfers, start + transfers.sum = o →
        streamRequest (streamPosition (i32 (fat16SectorOf v cluster * defaultSectorSize + start))
          transfers) = byteRequest (fat16SectorOf v cluster) o := by
      intro start transfers hsum
      rw [streamPosition_i32, Int.add_assoc, ← Nat.cast_add, hsum]
      exact streamRequest_low h
    refine ⟨fun start transfers hsum => ?_, fun start transfers hsum => ?_, fun x hx => ?_⟩
    · rw [fat16ReadSeek_eq hv hc]
      exact hrequest start transfers hsum
    · rw [fat16WriteSeek_eq hv hc]
      exact hrequest start transfers hsum
    · have hsector : (cluster - 2) * v.sectorsPerCluster ≤ fat16SectorOf v cluster :=
        Nat.le_add_left _ _
      have hcluster : cluster - 2 ≤ (cluster - 2) * v.sectorsPerCluster :=
        Nat.le_mul_of_pos_right _ (Nat.pos_of_mul_pos_right v.clusterBytes_pos)
      have hsub : (cluster : ℤ) - 2 = (cluster - 2 : ℕ) := by omega
      rw [fat16Intermediates, clusterToSector_eq hc, hv, hsub] at hx
      rw [defaultSectorSize] at h hx
      simp only [List.mem_cons, List.not_mem_nil, or_false] at hx
      rcases hx with rfl | rfl | rfl | rfl | rfl
      · omega
      · rw [← Nat.cast_mul]
        omega
      · omega
      · omega
      · omega

/-- The volume of `boot.asm`: `0x800000` sectors in clusters of `0x80`. -/
def bootVolume : FatVolume where
  sectorSize := 512
  sectorsPerCluster := 0x80
  reservedSectors := 28672
  fatCopies := 0x02
  sectorsPerFat := 0x100
  rootDirEntries := 0x40
  rootCluster := 0
  sectorsBig := 0x800000
  clusterBytes_pos := by decide
  fatCopies_pos := by decide

/-- The last cluster of the image of which some bytes lie below `2 ^ 31`. -/
theorem fat16_sector_iff_boot : SectorAddressed bootVolume 32541 63487 ↔
    fat16SectorOf bootVolume 32541 * defaultSectorSize + 63487 < 2 ^ 31 :=
  fat16_sector_iff rfl (by decide) (by decide) (by decide)

/-- For a cluster in the upper half of the image a sector beyond its end is asked for. -/
theorem not_fat16_sector_boot : fat16SectorOf bootVolume 40001 ≤ bootVolume.sectorsBig ∧
    ¬ SectorAddressed bootVolume 40000 0 := by
  refine ⟨by decide, fun h => ?_⟩
  have hread := h.read 0 [] rfl
  exact absurd hread (by decide)

end SerpaeOS
