import SerpaeOS.Fs.Fat.Item
import SerpaeOS.Fs.Fat.Volume

/-!
# Reading files

`fat16_read` and `fat32_read` read a file cluster by cluster.  Every step reads up to one
cluster size from where the position lies in its cluster, also when that is not the
beginning of the cluster.
-/

namespace SerpaeOS

open Bytes Word

namespace FatKind

variable (k : FatKind) (v : FatVolume)

/-- The recursion of `read_internal_from_stream`: the result and the bytes stored.  Each
call reads at least one byte when there are any to read. -/
def readInternalLoop (disk : Disk) (cluster : ℤ) : ℕ → ℕ → ℕ → ℤ × List UInt8
  | 0, _, _ => (0, [])
  | calls + 1, offset, total =>
    let clusterToUse := k.getClusterForOffset v disk cluster offset
    if clusterToUse < 0 then (clusterToUse, [])
    else
      let offsetFromCluster := offset % v.clusterBytes
      let startingPos := k.clusterPos v clusterToUse + offsetFromCluster
      let totalToRead := if total > v.clusterBytes then v.clusterBytes else total
      let read := diskstreamerRead disk (i32 startingPos) totalToRead
      if read.1 ≠ 0 then (read.1, read.2.1)
      else if total - totalToRead > 0 then
        let rest := readInternalLoop disk cluster calls (offset + totalToRead) (total - totalToRead)
        (rest.1, read.2.1 ++ rest.2)
      else (read.1, read.2.1)

def readInternal (disk : Disk) (startingCluster : ℤ) (offset total : ℕ) : ℤ × List UInt8 :=
  k.readInternalLoop v disk startingCluster (total + 1) offset total

/-- The loop over the members still to read. -/
def readLoop (disk : Disk) (cluster : ℤ) (size : ℕ) : ℕ → ℕ → ℤ × List UInt8 × ℕ
  | 0, offset => (0, [], offset)
  | nmemb + 1, offset =>
    let read := k.readInternal v disk cluster offset size
    if read.1 < 0 then (read.1, read.2, offset)
    else
      let rest := readLoop disk cluster size nmemb (offset + size)
      (rest.1, read.2 ++ rest.2.1, rest.2.2)

/-- The read function of a driver: the result, the bytes stored and the descriptor. -/
def read (disk : Disk) (desc : FatFileDescriptor) (size nmemb : ℕ) :
    ℤ × List UInt8 × FatFileDescriptor :=
  let r := k.readLoop v disk desc.item.firstClusterInt size nmemb desc.pos
  if r.1 < 0 then (r.1, r.2.1, desc) else (r.1, r.2.1, { desc with pos := r.2.2 })

end FatKind

def fat16Read := fat16.read
def fat32Read := fat32.read

/-! ## What is read -/

namespace FatKind

variable {k : FatKind} {v : FatVolume} {disk : Disk} {chain : List ℕ}

/-- The byte that is read for position `offset + i` of a file: the step that reads it
starts at `offset % clusterBytes` in its cluster and may run over the end of it. -/
def rawByte (k : FatKind) (v : FatVolume) (disk : Disk) (chain : List ℕ) (offset i : ℕ) : UInt8 :=
  disk.byte (k.dataPos v (chain.getD (offset / v.clusterBytes + i / v.clusterBytes) 0) +
    offset % v.clusterBytes + i % v.clusterBytes)

/-- The walk to none of the clusters that hold the bytes from `offset` on is stopped. -/
def Walkable (k : FatKind) (v : FatVolume) (chain : List ℕ) (offset size : ℕ) : Prop :=
  ∀ j, 0 < j → j ≤ offset / v.clusterBytes + (size - 1) / v.clusterBytes →
    k.stops (chain.getD j 0) = false

/-- The bytes that lie behind a cluster on the volume are, as far as they are read, the
bytes of the next cluster of the file. -/
def FollowedByNext (k : FatKind) (v : FatVolume) (disk : Disk) (chain : List ℕ)
    (offset size : ℕ) : Prop :=
  ∀ i < size, v.clusterBytes ≤ offset % v.clusterBytes + i % v.clusterBytes →
    k.rawByte v disk chain offset i =
      disk.byte (k.dataPos v
        (chain.getD (offset / v.clusterBytes + i / v.clusterBytes + 1) 0) +
          (offset % v.clusterBytes + i % v.clusterBytes - v.clusterBytes))

/-- One step of reading along a chain. -/
lemma IsChain.readStep (h : k.IsChain v disk chain) (hf : disk.FaultFree) {offset n : ℕ}
    (hlen : offset / v.clusterBytes < chain.length)
    (hwalk : ∀ j, 0 < j → j ≤ offset / v.clusterBytes → k.stops (chain.getD j 0) = false) :
    k.getClusterForOffset v disk (chain.getD 0 0) offset = chain.getD (offset / v.clusterBytes) 0 ∧
      diskstreamerRead disk (i32 (k.clusterPos v (chain.getD (offset / v.clusterBytes) 0) +
          (offset % v.clusterBytes : ℕ))) n =
        (0, slice disk.byte (k.dataPos v (chain.getD (offset / v.clusterBytes) 0) +
            offset % v.clusterBytes) n,
          ((k.dataPos v (chain.getD (offset / v.clusterBytes) 0) + offset % v.clusterBytes + n :
            ℕ) : ℤ)) := by
  have hon := h.onVolume_getD hlen
  have hlt := hon.data_lt
  have hmod : offset % v.clusterBytes < v.clusterBytes := Nat.mod_lt _ v.clusterBytes_pos
  constructor
  · have hloop := h.clusterLoop_eq hf (offset / v.clusterBytes) 0 (by omega)
      fun j hj hj' => hwalk j hj (by omega)
    rw [Nat.zero_add] at hloop
    exact hloop
  · rw [hon.clusterPos_eq, ← Nat.cast_add, i32_of_lt (by omega) (by omega),
      diskstreamerRead_ok hf]

/-- Reading along a chain that can be walked delivers the raw bytes. -/
lemma IsChain.readInternalLoop_eq (h : k.IsChain v disk chain) (hf : disk.FaultFree) :
    ∀ (calls offset total : ℕ), 0 < total → total < calls →
      offset + total ≤ chain.length * v.clusterBytes → k.Walkable v chain offset total →
      k.readInternalLoop v disk (chain.getD 0 0) calls offset total =
        (0, (List.range total).map (k.rawByte v disk chain offset)) := by
  intro calls
  induction calls with
  | zero => exact fun offset total _ hlt => absurd hlt (by omega)
  | succ calls ih =>
    intro offset total hpos hcalls hlen hwalk
    have hB : 0 < v.clusterBytes := v.clusterBytes_pos
    have hj : offset / v.clusterBytes < chain.length := by
      rw [Nat.div_lt_iff_lt_mul hB]
      omega
    obtain ⟨hcluster, hread⟩ := h.readStep hf
      (n := if total > v.clusterBytes then v.clusterBytes else total) hj
      fun j hj hj' => hwalk j hj (hj'.trans (Nat.le_add_right _ _))
    rw [readInternalLoop, hcluster]
    simp only [hread]
    rw [if_neg (by omega), if_neg (by simp)]
    -- the bytes of this step
    have hfirst : ∀ n ≤ v.clusterBytes, slice disk.byte
        (k.dataPos v (chain.getD (offset / v.clusterBytes) 0) + offset % v.clusterBytes) n =
          (List.range n).map (k.rawByte v disk chain offset) := by
      intro n hn
      refine List.map_congr_left fun i hi => ?_
      have hin : i < v.clusterBytes := (List.mem_range.mp hi).trans_le hn
      rw [rawByte, Nat.div_eq_of_lt hin, Nat.mod_eq_of_lt hin, Nat.add_zero]
    by_cases hmore : total > v.clusterBytes
    · rw [if_pos hmore, if_pos (by omega)]
      have hdiv : (offset + v.clusterBytes) / v.clusterBytes = offset / v.clusterBytes + 1 :=
        Nat.add_div_right _ hB
      have hmod : (offset + v.clusterBytes) % v.clusterBytes = offset % v.clusterBytes :=
        Nat.add_mod_right _ _
      have hwalk' : k.Walkable v chain (offset + v.clusterBytes) (total - v.clusterBytes) := by
        intro j hj0 hj1
        refine hwalk j hj0 (hj1.trans ?_)
        rw [hdiv]
        have : (total - 1) / v.clusterBytes =
            (total - v.clusterBytes - 1) / v.clusterBytes + 1 := by
          rw [← Nat.add_div_right _ hB]
          congr 1
          omega
        omega
      rw [ih (offset + v.clusterBytes) (total - v.clusterBytes) (by omega) (by omega) (by omega)
        hwalk', hfirst _ (le_refl _)]
      have hrange : List.range total = List.range v.clusterBytes ++
          (List.range (total - v.clusterBytes)).map (v.clusterBytes + ·) := by
        rw [← List.range_add]
        congr 1
        omega
      rw [hrange, List.map_append, List.map_map]
      congr 2
      refine List.map_congr_left fun i _ => ?_
      rw [Function.comp_apply, rawByte, rawByte, hdiv, hmod, Nat.add_div_left _ hB,
        Nat.add_mod_left, Nat.add_assoc (offset / v.clusterBytes), Nat.add_comm 1]
    · rw [if_neg hmore, if_neg (by omega), hfirst _ (by omega)]

/-- Reading along a chain whose walk is stopped fails. -/
lemma IsChain.readInternalLoop_stops (h : k.IsChain v disk chain) (hf : disk.FaultFree) :
    ∀ (calls offset total : ℕ), 0 < total → total < calls →
      offset + total ≤ chain.length * v.clusterBytes → ¬ k.Walkable v chain offset total →
      (k.readInternalLoop v disk (chain.getD 0 0) calls offset total).1 < 0 := by
  intro calls
  induction calls with
  | zero => exact fun offset total _ hlt => absurd hlt (by omega)
  | succ calls ih =>
    intro offset total hpos hcalls hlen hwalk
    have hB : 0 < v.clusterBytes := v.clusterBytes_pos
    have hj : offset / v.clusterBytes < chain.length := by
      rw [Nat.div_lt_iff_lt_mul hB]
      omega
    rw [readInternalLoop]
    by_cases hnow : ∀ j, 0 < j → j ≤ offset / v.clusterBytes → k.stops (chain.getD j 0) = false
    · -- this step succeeds, a later one fails
      obtain ⟨hcluster, hread⟩ := h.readStep hf
        (n := if total > v.clusterBytes then v.clusterBytes else total) hj hnow
      rw [hcluster]
      simp only [hread]
      rw [if_neg (by omega), if_neg (by simp)]
      have hmore : total > v.clusterBytes := by
        by_contra hle
        refine hwalk fun j hj0 hj1 => hnow j hj0 ?_
        rwa [Nat.div_eq_of_lt (show total - 1 < v.clusterBytes by omega), Nat.add_zero] at hj1
      rw [if_pos hmore, if_pos (by omega)]
      refine ih _ _ (by omega) (by omega) (by omega) fun hwalk' => hwalk fun j hj0 hj1 => ?_
      refine hwalk' j hj0 (hj1.trans ?_)
      rw [Nat.add_div_right _ hB]
      have : (total - 1) / v.clusterBytes = (total - v.clusterBytes - 1) / v.clusterBytes + 1 := by
        rw [← Nat.add_div_right _ hB]
        congr 1
        omega
      omega
    · -- this step already fails
      push Not at hnow
      obtain ⟨j, hj0, hj1, hstop⟩ := hnow
      have hloop := h.clusterLoop_stops hf (offset / v.clusterBytes) 0 (by omega)
        ⟨j, hj0, by omega, by simpa using hstop⟩
      rw [getClusterForOffset, hloop, if_pos (by decide)]
      decide

/-- The content of the file against what is read for it. -/
lemma contentByte_add (offset i : ℕ) :
    k.contentByte v disk chain (offset + i) =
      if v.clusterBytes ≤ offset % v.clusterBytes + i % v.clusterBytes then
        disk.byte (k.dataPos v (chain.getD (offset / v.clusterBytes + i / v.clusterBytes + 1) 0) +
          (offset % v.clusterBytes + i % v.clusterBytes - v.clusterBytes))
      else k.rawByte v disk chain offset i := by
  have hB : 0 < v.clusterBytes := v.clusterBytes_pos
  have hoff := Nat.mod_lt offset hB
  have hi := Nat.mod_lt i hB
  rw [contentByte, Nat.add_div hB]
  by_cases hover : v.clusterBytes ≤ offset % v.clusterBytes + i % v.clusterBytes
  · rw [if_pos hover, if_pos hover, Nat.add_mod, Nat.mod_eq_sub_mod hover,
      Nat.mod_eq_of_lt (by omega)]
  · rw [if_neg hover, if_neg hover, Nat.add_mod, Nat.mod_eq_of_lt (by omega), rawByte,
      Nat.add_zero, Nat.add_assoc]

/-- What is read is the content exactly when bytes read over the end of a cluster are those
of the next one. -/
lemma rawByte_eq_contentByte_iff (offset size : ℕ) :
    (List.range size).map (k.rawByte v disk chain offset) =
        slice (k.contentByte v disk chain) offset size ↔
      k.FollowedByNext v disk chain offset size := by
  rw [slice, List.map_inj_left]
  constructor
  · intro h i hi hover
    rw [h i (List.mem_range.mpr hi), contentByte_add, if_pos hover]
  · intro h i hi
    rw [contentByte_add]
    split_ifs with hover
    · exact h i (List.mem_range.mp hi) hover
    · rfl

/-- The clusters of the file of an item. -/
structure FileChain (k : FatKind) (v : FatVolume) (disk : Disk) (item : FatDirectoryItem)
    (chain : List ℕ) : Prop where
  isChain : k.IsChain v disk chain
  first : chain.head? = some item.firstCluster
  filesize_le : item.filesize ≤ chain.length * v.clusterBytes

/-- A read delivers the bytes of the file and moves the position behind them exactly when
the chain can be walked and the bytes read over the end of a cluster are those of the next
one. -/
lemma FileChain.read_iff {desc : FatFileDescriptor} (h : k.FileChain v disk desc.item chain)
    (hf : disk.FaultFree) {size : ℕ} (hsize : 0 < size)
    (hend : desc.pos + size ≤ desc.item.filesize) :
    k.read v disk desc size 1 =
        (0, slice (k.contentByte v disk chain) desc.pos size,
          { desc with pos := desc.pos + size }) ↔
      k.Walkable v chain desc.pos size ∧ k.FollowedByNext v disk chain desc.pos size := by
  have hfirst : desc.item.firstClusterInt = ((chain.getD 0 0 : ℕ) : ℤ) := by
    have hhead := h.first
    cases chain with
    | nil => simp at hhead
    | cons c chain =>
      obtain rfl : c = desc.item.firstCluster := by simpa using hhead
      exact (h.isChain.onVolume _ List.mem_cons_self).i32_eq
  have hlen : desc.pos + size ≤ chain.length * v.clusterBytes := hend.trans h.filesize_le
  by_cases hwalk : k.Walkable v chain desc.pos size
  · have hread := h.isChain.readInternalLoop_eq hf (size + 1) desc.pos size hsize
      (Nat.lt_succ_self _) hlen hwalk
    have heq : k.read v disk desc size 1 =
        (0, (List.range size).map (k.rawByte v disk chain desc.pos),
          { desc with pos := desc.pos + size }) := by
      rw [read, readLoop, readInternal, hfirst, hread]
      simp [readLoop]
    rw [heq, ← rawByte_eq_contentByte_iff]
    constructor
    · intro hc
      exact ⟨hwalk, (Prod.mk.inj (Prod.mk.inj hc).2).1⟩
    · intro hc
      rw [hc.2]
  · have hneg := h.isChain.readInternalLoop_stops hf (size + 1) desc.pos size hsize
      (Nat.lt_succ_self _) hlen hwalk
    constructor
    · intro hc
      rw [read, readLoop, readInternal, hfirst] at hc
      simp only [if_pos hneg] at hc
      have := congrArg Prod.fst hc
      simp only at this
      omega
    · exact fun hc => absurd hc.1 hwalk

/-- A chain of a FAT32 volume can always be walked. -/
lemma IsChain.walkable_fat32 (h : fat32.IsChain v disk chain) {offset size : ℕ}
    (hsize : 0 < size) (hlen : offset + size ≤ chain.length * v.clusterBytes) :
    fat32.Walkable v chain offset size := by
  intro j _ hj
  have hB : 0 < v.clusterBytes := v.clusterBytes_pos
  have hlt : j < chain.length := by
    refine lt_of_le_of_lt (hj.trans (Nat.div_add_div_le_add_div)) ?_
    rw [Nat.div_lt_iff_lt_mul hB]
    omega
  have hon := h.onVolume_getD hlt
  have h2 := hon.two_le
  have hmax : chain.getD j 0 ≤ 0x0FFFFFEF := hon.le_max
  simp only [fat32, fat32Stops, Bool.or_eq_false_iff, decide_eq_false_iff_not, beq_eq_false_iff_ne,
    ne_eq]
  omega

end FatKind

/-- **Reading a file.**  On a volume without faults, for every file with a terminated
acyclic chain below the position `2 ^ 31`, every position and every size up to the end of
the file: `fat16_read` delivers the bytes of the file and moves the position if and only if
none of the clusters it walks to has one of the numbers that the driver takes for a special
value, and whatever it reads over the end of a cluster agrees with the next cluster of the
file; for `fat32_read` the second condition alone is exact. -/
theorem fatRead_content_iff (v : FatVolume) {disk : Disk} (hf : disk.FaultFree)
    (desc : FatFileDescriptor) (chain : List ℕ) {size : ℕ} (hsize : 0 < size)
    (hend : desc.pos + size ≤ desc.item.filesize) :
    (fat16.FileChain v disk desc.item chain →
      (fat16Read v disk desc size 1 =
          (0, slice (fat16.contentByte v disk chain) desc.pos size,
            { desc with pos := desc.pos + size }) ↔
        fat16.Walkable v chain desc.pos size ∧
          fat16.FollowedByNext v disk chain desc.pos size)) ∧
    (fat32.FileChain v disk desc.item chain →
      (fat32Read v disk desc size 1 =
          (0, slice (fat32.contentByte v disk chain) desc.pos size,
            { desc with pos := desc.pos + size }) ↔
        fat32.FollowedByNext v disk chain desc.pos size)) := by
  refine ⟨fun h => h.read_iff hf hsize hend, fun h => ?_⟩
  have hwalk := h.isChain.walkable_fat32 hsize (hend.trans h.filesize_le)
  rw [fat32Read, h.read_iff hf hsize hend]
  exact ⟨fun hc => hc.2, fun hc => ⟨hwalk, hc⟩⟩

/-! ## A file of two clusters -/

/-- A volume with one sector per cluster, one reserved sector, one table of one sector and,
on a FAT16 volume, a root directory of one sector. -/
def smallVolume : FatVolume where
  sectorSize := 512
  sectorsPerCluster := 1
  reservedSectors := 1
  fatCopies := 1
  sectorsPerFat := 1
  rootDirEntries := 16
  rootCluster := 2
  sectorsBig := 64
  clusterBytes_pos := by decide
  fatCopies_pos := by decide

/-- A disk without faults with the given bytes. -/
def diskWith (byte : ℕ → UInt8) : Disk where
  byte := byte
  readFault _ := false
  writeFault _ := false
  stale _ := 0

lemma diskWith_faultFree (byte : ℕ → UInt8) : (diskWith byte).FaultFree :=
  ⟨fun _ => rfl, fun _ => rfl⟩

/-- A file of 1024 bytes from cluster 3 on, opened and read up to position 256. -/
def twoClusterFile : FatFileDescriptor where
  path := []
  item := ⟨fun i => if i = 26 then 3 else if i = 29 then 4 else 0⟩
  pos := 256
  mode := 1

/-- Clusters 3 and 4 linked in a FAT16 table. -/
def adjacentDisk16 : Disk :=
  diskWith fun a =>
    if a = 518 then 4 else if a = 519 then 0 else if a = 520 ∨ a = 521 then 0xFF
    else UInt8.ofNat a

/-- Clusters 3 and 4 linked in a FAT32 table. -/
def adjacentDisk32 : Disk :=
  diskWith fun a =>
    if a = 524 then 4 else if 528 ≤ a ∧ a < 531 then 0xFF else if a = 531 then 0x0F
    else if 525 ≤ a ∧ a < 528 then 0 else UInt8.ofNat a

/-- Clusters 3 and 5 linked in a FAT16 table; cluster 5 is filled with ones. -/
def fragmentedDisk : Disk :=
  diskWith fun a =>
    if a = 518 then 5 else if a = 522 ∨ a = 523 then 0xFF
    else if 3072 ≤ a ∧ a < 3584 then 1 else 0

/-- A chain of two clusters. -/
lemma isChain_pair {k : FatKind} {v : FatVolume} {disk : Disk} {a b : ℕ} (hab : a ≠ b)
    (ha : k.OnVolume v a) (hb : k.OnVolume v b) (hnext : k.fatEntry v disk a = b)
    (hlast : k.endOfChain ≤ k.fatEntry v disk b) : k.IsChain v disk [a, b] := by
  refine ⟨by simpa using hab, ?_, ?_, ?_⟩
  · intro c hc
    rcases List.mem_pair.mp hc with rfl | rfl
    · exact ha
    · exact hb
  · intro i hi
    obtain rfl : i = 0 := by simp at hi; omega
    exact hnext
  · intro i hi
    obtain rfl : i = 1 := by simp at hi; omega
    exact hlast

/-- The second half of the first cluster and the first half of the second one, which lies
right behind it. -/
theorem fatRead_content_iff_adjacent :
    fat16Read smallVolume adjacentDisk16 twoClusterFile 512 1 =
        (0, slice (fat16.contentByte smallVolume adjacentDisk16 [3, 4]) 256 512,
          { twoClusterFile with pos := 768 }) ∧
      fat32Read smallVolume adjacentDisk32 twoClusterFile 512 1 =
        (0, slice (fat32.contentByte smallVolume adjacentDisk32 [3, 4]) 256 512,
          { twoClusterFile with pos := 768 }) := by
  have hchain16 : fat16.FileChain smallVolume adjacentDisk16 twoClusterFile.item [3, 4] := by
    refine ⟨isChain_pair (by decide) ?_ ?_ (by decide) (by decide), rfl, by decide⟩
    · exact ⟨by decide, by decide, by decide, by decide⟩
    · exact ⟨by decide, by decide, by decide, by decide⟩
  have hchain32 : fat32.FileChain smallVolume adjacentDisk32 twoClusterFile.item [3, 4] := by
    refine ⟨isChain_pair (by decide) ?_ ?_ (by decide) (by decide), rfl, by decide⟩
    · exact ⟨by decide, by decide, by decide, by decide⟩
    · exact ⟨by decide, by decide, by decide, by decide⟩
  have hnext : ∀ (k : FatKind) (disk : Disk),
      k.dataPos smallVolume 4 = k.dataPos smallVolume 3 + 512 →
      k.FollowedByNext smallVolume disk [3, 4] 256 512 := by
    intro k disk hadj i hi hover
    have hB : smallVolume.clusterBytes = 512 := rfl
    rw [hB, Nat.mod_eq_of_lt hi] at hover
    rw [FatKind.rawByte, hB, Nat.mod_eq_of_lt hi, Nat.div_eq_of_lt hi]
    have hfirst : [3, 4].getD (256 / 512 + 0) 0 = 3 := rfl
    have hsecond : [3, 4].getD (256 / 512 + 0 + 1) 0 = 4 := rfl
    have hpos : k.dataPos smallVolume 3 + 256 % 512 + i =
        k.dataPos smallVolume 3 + 512 + (256 % 512 + i - 512) := by omega
    rw [hfirst, hsecond, hadj, hpos]
  constructor
  · refine ((fatRead_content_iff smallVolume (diskWith_faultFree _) twoClusterFile [3, 4]
      (by decide) (by decide)).1 hchain16).mpr ⟨fun j hj hj' => ?_, hnext _ _ rfl⟩
    exact absurd (hj'.trans_eq (show 256 / 512 + 511 / 512 = 0 from rfl)) (by omega)
  · exact ((fatRead_content_iff smallVolume (diskWith_faultFree _) twoClusterFile [3, 4]
      (by decide) (by decide)).2 hchain32).mpr (hnext _ _ rfl)

/-- The same range of a file whose second cluster lies elsewhere: the read runs into the
cluster behind the first one. -/
theorem not_fatRead_content_fragmented :
    fat16.FileChain smallVolume fragmentedDisk twoClusterFile.item [3, 5] ∧
      fat16Read smallVolume fragmentedDisk twoClusterFile 512 1 ≠
        (0, slice (fat16.contentByte smallVolume fragmentedDisk [3, 5]) 256 512,
          { twoClusterFile with pos := 768 }) := by
  have hchain : fat16.FileChain smallVolume fragmentedDisk twoClusterFile.item [3, 5] := by
    refine ⟨isChain_pair (by decide) ?_ ?_ (by decide) (by decide), rfl, by decide⟩
    · exact ⟨by decide, by decide, by decide, by decide⟩
    · exact ⟨by decide, by decide, by decide, by decide⟩
  refine ⟨hchain, fun hread => ?_⟩
  have hiff := hchain.read_iff (diskWith_faultFree _) (by decide : 0 < 512) (by decide)
  have := (hiff.mp hread).2 256 (by decide) (by decide)
  revert this
  decide
end SerpaeOS
