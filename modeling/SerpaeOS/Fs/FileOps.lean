import SerpaeOS.Fs.Descriptors

/-!
# Operations on open files

`fstat`, `fread`, `fseek`, `ftell`, `fwrite` and `fdelete` of `file.c`, with the functions of the
drivers that the first four call; these are the same for FAT16 and FAT32.  Each looks up the
descriptor of an index and changes no other descriptor.
-/

namespace SerpaeOS

open Bytes Word Prog

/-- `struct date_time`, without the century, which is not set. -/
structure DateTime where
  seconds : ℕ
  minutes : ℕ
  hours : ℕ
  day : ℕ
  month : ℕ
  year : ℕ

/-- What is set of `struct filestat`. -/
structure FileStat where
  flags : ℕ
  filesize : ℕ
  creationDatetime : DateTime

def fileStatReadOnly : ℕ := 0b00000001

/-- `fat16_stat` and `fat32_stat`, for the item of a file. -/
def fatStat (f : FatOpenFile) : FileStat :=
  let creationTime := u16le f.item.raw 14
  let creationDate := u16le f.item.raw 16
  { filesize := f.item.filesize
    flags := if f.item.attributeBits &&& fatFileReadOnly ≠ 0 then fileStatReadOnly else 0
    creationDatetime :=
      { seconds := (creationTime &&& 0b00011111) * 2
        minutes := (creationTime / 2 ^ 5) &&& 0b00111111
        hours := creationTime / 2 ^ 11
        day := creationDate &&& 0b00011111
        month := (creationDate / 2 ^ 5) &&& 0b00001111
        year := 1980 + creationDate / 2 ^ 9 } }

namespace FatKind

variable (k : FatKind) (v : FatVolume) (disk : Disk)

/-- `offset % size_of_cluster_bytes`. -/
def offsetFromCluster (offset : ℤ) : ℤ :=
  if k.unsignedClusterBytes then (u32 offset % v.clusterBytes : ℕ)
  else offset.tmod v.clusterBytes

/-- What a step reads of the bytes still to read.  As an unsigned word a negative number of bytes
is more than a cluster. -/
def totalToRead (total : ℤ) : ℤ :=
  if k.unsignedClusterBytes then
    if u32 total > v.clusterBytes then v.clusterBytes else total
  else if total > v.clusterBytes then v.clusterBytes
  else total

/-- The recursion of `read_internal_from_stream`, with the `int`s that the offset and the number
of bytes are.  From a negative offset the walk stays at the first cluster. -/
def readFromLoop (cluster : ℤ) : ℕ → ℤ → ℤ → ℤ × List UInt8
  | 0, _, _ => (0, [])
  | calls + 1, offset, total =>
    let clusterToUse := k.getClusterForOffset v disk cluster offset.toNat
    if clusterToUse < 0 then (clusterToUse, [])
    else
      let startingPos := k.clusterPos v clusterToUse + k.offsetFromCluster v offset
      let totalToRead := k.totalToRead v total
      let read := diskstreamerRead disk (i32 startingPos) totalToRead.toNat
      if read.1 ≠ 0 then (read.1, read.2.1)
      else if i32 (total - totalToRead) > 0 then
        let rest := readFromLoop cluster calls (i32 (offset + totalToRead))
          (i32 (total - totalToRead))
        (rest.1, read.2.1 ++ rest.2)
      else (read.1, read.2.1)

/-- As an unsigned word the number of bytes gets smaller with every call. -/
def readFrom (startingCluster offset total : ℤ) : ℤ × List UInt8 :=
  k.readFromLoop v disk startingCluster (u32 total + 1) offset total

variable {k v disk}

lemma offsetFromCluster_natCast {offset : ℕ} (h : offset < 2 ^ 32) :
    k.offsetFromCluster v offset = (offset % v.clusterBytes : ℕ) := by
  rw [offsetFromCluster]
  split_ifs
  · rw [u32_of_lt h]
  · rw [Int.tmod_eq_emod_of_nonneg (Int.natCast_nonneg offset), Int.natCast_emod]

lemma totalToRead_natCast {total : ℕ} (h : total < 2 ^ 32) :
    k.totalToRead v total = (min total v.clusterBytes : ℕ) := by
  rw [totalToRead, u32_of_lt h]
  split_ifs with hu hlt hlt
  · rw [min_eq_right hlt.le]
  · rw [min_eq_left (not_lt.mp hlt)]
  · rw [min_eq_right (by omega)]
  · rw [min_eq_left (by omega)]

/-- Below `2 ^ 31` the offset and the number of bytes are natural numbers, and the drivers read
alike. -/
lemma readFromLoop_eq (cluster : ℤ) (calls : ℕ) : ∀ offset total : ℕ, offset + total < 2 ^ 31 →
    k.readFromLoop v disk cluster calls offset total =
      k.readInternalLoop v disk cluster calls offset total := by
  induction calls with
  | zero => exact fun offset total _ => rfl
  | succ calls ih =>
    intro offset total hlt
    have hmin : (if total > v.clusterBytes then v.clusterBytes else total) =
        min total v.clusterBytes := by
      split_ifs with h
      · rw [min_eq_right h.le]
      · rw [min_eq_left (not_lt.mp h)]
    rw [readFromLoop, readInternalLoop, offsetFromCluster_natCast (by omega),
      totalToRead_natCast (by omega), hmin]
    have hle : min total v.clusterBytes ≤ total := min_le_left _ _
    generalize min total v.clusterBytes = n at hle ⊢
    have hnext : i32 ((offset : ℤ) + n) = (offset + n : ℕ) := i32_of_lt (by omega) (by omega)
    have hleft : i32 ((total : ℤ) - n) = (total - n : ℕ) := by
      rw [← Nat.cast_sub hle]
      exact i32_of_lt (by omega) (by omega)
    simp only [Int.toNat_natCast]
    rw [hnext, hleft, ih (offset + n) (total - n) (by omega)]
    simp only [gt_iff_lt, Int.natCast_pos]

/-- How many bytes are read when a read does not fail. -/
def bytesRead (k : FatKind) (v : FatVolume) (total : ℤ) : ℕ :=
  if 0 < i32 (total - k.totalToRead v total) then u32 total else (k.totalToRead v total).toNat

lemma bytesRead_natCast {total : ℕ} (h : total < 2 ^ 31) : k.bytesRead v total = total := by
  have hle : min total v.clusterBytes ≤ total := min_le_left _ _
  rw [bytesRead, totalToRead_natCast (by omega), u32_of_lt (by omega), ← Nat.cast_sub hle,
    i32_of_lt (by omega) (by omega), Int.toNat_natCast]
  split_ifs with hleft
  · rfl
  · omega

/-- A step that is not the last one reads a cluster and leaves a natural number of bytes. -/
lemma totalToRead_cases {total : ℤ} (h : i32 total = total) :
    (0 < i32 (total - k.totalToRead v total) ∧ k.totalToRead v total = v.clusterBytes ∧
      v.clusterBytes < u32 total ∧
      i32 (total - k.totalToRead v total) = (u32 total - v.clusterBytes : ℕ)) ∨
    (¬ 0 < i32 (total - k.totalToRead v total) ∧ (k.totalToRead v total).toNat ≤ v.clusterBytes ∧
      (k.totalToRead v total).toNat ≤ u32 total) := by
  have hself : i32 (total - total) = 0 := by
    rw [Int.sub_self]
    rfl
  have hword : v.clusterBytes < u32 total →
      0 < i32 (total - v.clusterBytes) ∧
          i32 (total - v.clusterBytes) = (u32 total - v.clusterBytes : ℕ) ∨
        ¬ 0 < i32 (total - v.clusterBytes) := by
    intro hlt
    simp only [i32, u32, Int.bmod_def] at hlt ⊢
    omega
  have hcluster : v.clusterBytes < u32 total → k.totalToRead v total = v.clusterBytes →
      (0 < i32 (total - k.totalToRead v total) ∧ k.totalToRead v total = v.clusterBytes ∧
        v.clusterBytes < u32 total ∧
        i32 (total - k.totalToRead v total) = (u32 total - v.clusterBytes : ℕ)) ∨
      (¬ 0 < i32 (total - k.totalToRead v total) ∧
        (k.totalToRead v total).toNat ≤ v.clusterBytes ∧
        (k.totalToRead v total).toNat ≤ u32 total) := by
    intro hlt heq
    rw [heq, Int.toNat_natCast]
    rcases hword hlt with ⟨hpos, hleft⟩ | hneg
    · exact Or.inl ⟨hpos, rfl, hlt, hleft⟩
    · exact Or.inr ⟨hneg, le_rfl, hlt.le⟩
  have hrest : total.toNat ≤ v.clusterBytes → k.totalToRead v total = total →
      ¬ 0 < i32 (total - k.totalToRead v total) ∧
        (k.totalToRead v total).toNat ≤ v.clusterBytes ∧
        (k.totalToRead v total).toNat ≤ u32 total := by
    intro hle heq
    rw [heq, hself]
    refine ⟨lt_irrefl 0, hle, ?_⟩
    simp only [i32, u32, Int.bmod_def] at h ⊢
    omega
  have hsigned : ((u32 total : ℕ) : ℤ) = total ∨ total < 0 := by
    simp only [i32, u32, Int.bmod_def] at h ⊢
    omega
  by_cases hu : k.unsignedClusterBytes
  · have heq : k.totalToRead v total = if u32 total > v.clusterBytes then (v.clusterBytes : ℤ)
        else total := if_pos hu
    by_cases hlt : u32 total > v.clusterBytes
    · exact hcluster hlt (heq.trans (if_pos hlt))
    · exact Or.inr (hrest (by omega) (heq.trans (if_neg hlt)))
  · have heq : k.totalToRead v total = if total > v.clusterBytes then (v.clusterBytes : ℤ)
        else total := if_neg hu
    by_cases hlt : total > v.clusterBytes
    · exact hcluster (by omega) (heq.trans (if_pos hlt))
    · exact Or.inr (hrest (by omega) (heq.trans (if_neg hlt)))

lemma bytesRead_le {total : ℤ} (h : i32 total = total) : k.bytesRead v total ≤ u32 total := by
  rw [bytesRead]
  rcases k.totalToRead_cases (v := v) h with ⟨hmore, -⟩ | ⟨hlast, -, hle⟩
  · exact (if_pos hmore).le
  · exact (if_neg hlast).le.trans hle

lemma readFrom_eq (cluster : ℤ) {offset total : ℕ} (h : offset + total < 2 ^ 31) :
    k.readFrom v disk cluster offset total = k.readInternal v disk cluster offset total := by
  rw [readFrom, readInternal, u32_of_lt (by omega)]
  exact readFromLoop_eq cluster _ _ _ h

end FatKind

/-- `fat16_read` and `fat32_read` of one member: the result, the bytes stored and the
descriptor.  A size from `2 ^ 31` on is a negative number of bytes for the functions that
read; the position moves on all the same.  Of a negative number of bytes FAT16 reads none, but
FAT32 reads a cluster. -/
def FatMount.fatRead (mt : FatMount) (f : FatOpenFile) (size : ℕ) :
    ℤ × List UInt8 × FatOpenFile :=
  let read := mt.kind.readFrom mt.volume mt.disk f.item.firstClusterInt (i32 f.pos)
    (i32 size)
  if read.1 < 0 then (read.1, read.2, f)
  else (read.1, read.2, { f with pos := (f.pos + size) % 2 ^ 32 })

/-- The driver only moves the position in the file. -/
lemma FatMount.fatRead_file (mt : FatMount) (f : FatOpenFile) (count : ℕ) :
    ∃ p, (mt.fatRead f count).2.2 = { f with pos := p } := by
  rw [FatMount.fatRead]
  split_ifs
  · exact ⟨f.pos, rfl⟩
  · exact ⟨_, rfl⟩

/-- `fat16_seek` and `fat32_seek`. -/
def fatSeek (f : FatOpenFile) (offset seekMode : ℕ) : ℤ × FatOpenFile :=
  if f.item.filesize ≤ offset then (-eio, f)
  else
    match seekMode with
    | 0 => (0, { f with pos := offset })
    | 1 => (0, { f with pos := (f.pos + offset) % 2 ^ 32 })
    | 2 => (0, { f with pos := f.item.filesize - offset })
    | 3 => (0, { f with pos := u32 (f.pos - offset) })
    | _ => (-einvarg, f)

/-- The descriptor of an open index with other data of the driver. -/
def Kernel.setPrivate (k : Kernel) (fd : ℤ) (desc : FileDescriptor) (f : FatOpenFile) : Kernel :=
  { k with
    fileDescriptors := Function.update k.fileDescriptors (fd - 1).toNat
      (some { desc with privateData := f }) }

/-- `fstat`. -/
def fstat (fd : ℤ) : KernelProg (ℤ × Option FileStat) := do
  let k ← getKernel
  match fileGetDescriptor k fd with
  | none => return (-eio, none)
  | some desc => return (0, some (fatStat desc.privateData))

/-- `fread`: the result and the bytes stored. -/
def fread (fd : ℤ) (size : ℕ) : KernelProg (ℤ × List UInt8) := do
  if size = 0 ∨ fd < 1 then return (-einvarg, [])
  else do
    let k ← getKernel
    match fileGetDescriptor k fd with
    | none => return (-einvarg, [])
    | some desc =>
      match k.disks desc.disk with
      | some (some mt) => do
        let read := mt.fatRead desc.privateData size
        updateKernel fun k => k.setPrivate fd desc read.2.2
        return (read.1, read.2.1)
      | _ => stuck

/-- `fseek`. -/
def fseek (fd : ℤ) (offset whence : ℕ) : KernelProg ℤ := do
  let k ← getKernel
  match fileGetDescriptor k fd with
  | none => return -eio
  | some desc => do
    let sought := fatSeek desc.privateData offset whence
    updateKernel fun k => k.setPrivate fd desc sought.2
    return sought.1

/-- `ftell`. -/
def ftell (fd : ℤ) : KernelProg ℤ := do
  if fd ≤ 0 then return -einvarg
  else do
    let k ← getKernel
    match fileGetDescriptor k fd with
    | none => return -einvarg
    | some desc => return i32 desc.privateData.pos

/-- A write function of a driver: from the volume, the file, the address of the buffer and the
size it computes the result, the file and the volume, with the memory it takes and gives
back. -/
abbrev DriverWrite := FatMount → FatOpenFile → Ptr → ℤ → KProg (ℤ × FatOpenFile × FatMount)

/-- `fwrite`, with the write function of the driver. -/
def fwrite (driverWrite : DriverWrite) (fd : ℤ) (buf : Ptr) (size : ℤ) : KernelProg ℤ := do
  if fd ≤ 0 ∨ buf = 0 ∨ size = 0 then return -einvarg
  else do
    let k ← getKernel
    match fileGetDescriptor k fd with
    | none => return -einvarg
    | some desc =>
      match k.disks desc.disk with
      | some (some mt) => do
        let written ← onMemory (driverWrite mt desc.privateData buf size)
        updateKernel fun k => { k.setPrivate fd desc written.2.1 with
          disks := Function.update k.disks desc.disk (some (some written.2.2)) }
        return written.1
      | _ => stuck

/-- A delete function of a driver: from the volume and the file it computes the result and the
disk. -/
abbrev DriverDelete := FatMount → FatOpenFile → KProg (ℤ × Disk)

/-- `fdelete`, with the delete function of the driver.  The descriptor is freed whatever the
driver returns. -/
def fdelete (driverDelete : DriverDelete) (fd : ℤ) : KernelProg ℤ := do
  if fd < 1 then return -einvarg
  else do
    let k ← getKernel
    match fileGetDescriptor k fd with
    | none => return -einvarg
    | some desc =>
      match k.disks desc.disk with
      | some (some mt) => do
        let deleted ← onMemory (driverDelete mt desc.privateData)
        updateKernel fun k => { k with
          disks := Function.update k.disks desc.disk (some (some { mt with disk := deleted.2 })) }
        fileFreeDescriptor desc
        return deleted.1
      | _ => stuck

end SerpaeOS
