import SerpaeOS.Fs.Fat.Lookup

/-!
# Writing files

`fat16_write` and `fat32_write` add clusters to the chain of the file, replace its directory
entry and then write into what was the last cluster of the chain and into the new ones.
How many bytes go into the last cluster is computed from the position in the file.

The buffer of the caller is a function on indices; the result of a write also says how many
bytes of it were read.
-/

namespace SerpaeOS

open Bytes Word

/-- What the functions use of `struct fat_private`; the fields of the file system
information are those of a FAT32 volume. -/
structure FatPrivate where
  rootDirectory : FatDirectory
  fsInfoLocation : ℕ
  fsinfo : ℕ → UInt8

/-- `fat16_filesize_to_cluster_count` and `fat32_filesize_to_cluster_count`. -/
def filesizeToClusterCount (v : FatVolume) (filesize : ℕ) : ℕ :=
  filesize / v.clusterBytes + if filesize % v.clusterBytes ≠ 0 then 1 else 0

/-- The search for a free cluster in the entries of the table, over `n` clusters more. -/
def freeClusterLoop (code : ℕ → ℕ) : ℕ → ℕ → Option ℕ
  | 0, cluster => if code cluster = 0 then some cluster else none
  | n + 1, cluster =>
    if code cluster = 0 then some cluster else freeClusterLoop code n (cluster + 1)

namespace FatKind

variable (k : FatKind) (v : FatVolume)

/-- The value of a table entry in the unsigned type of entries. -/
def entryCode (disk : Disk) (cluster : ℕ) : ℕ :=
  (k.getFatEntry v disk cluster % (2 ^ (8 * k.entrySize) : ℕ)).toNat

/-- `find_last_cluster_of_chain`, which does not return on a chain without an end. -/
def findLastClusterOfChain (disk : Disk) (curr : ℕ) : Option ℕ :=
  Loop.run ⟨fun curr => some <|
    let code := k.entryCode v disk curr
    if k.endOfChain ≤ code then .inr curr else .inl code⟩ curr

lemma findLastClusterOfChain_step (disk : Disk) (curr : ℕ) :
    findLastClusterOfChain k v disk curr =
      if k.endOfChain ≤ k.entryCode v disk curr then some curr
      else findLastClusterOfChain k v disk (k.entryCode v disk curr) := by
  by_cases h : k.endOfChain ≤ k.entryCode v disk curr
  · rw [if_pos h]
    exact Loop.run_leave (congrArg some (if_pos h))
  · rw [if_neg h]
    exact Loop.run_next (congrArg some (if_neg h))

/-- `write_fat_entry`: the result and the disk. -/
def writeFatEntry (disk : Disk) (entry val : ℕ) : ℤ × Disk :=
  diskstreamerWrite disk (i32 (k.entryPos v entry)) (numberBytes k.entrySize val)

/-- The first free cluster from the given one on. -/
def freeCluster (disk : Disk) (start : ℕ) : Option ℕ :=
  freeClusterLoop (k.entryCode v disk) (v.sectorsBig / v.sectorsPerCluster - start) start

/-- The loop over the remaining clusters to write: the result, the disk and the number of
bytes read from the buffer.  Each step writes at least one byte. -/
def writeLoop (buf : ℕ → UInt8) : ℕ → Disk → ℕ → ℤ → ℕ → ℤ → ℤ × Disk × ℕ
  | 0, disk, _, res, bufPos, _ => (res, disk, bufPos)
  | calls + 1, disk, targetCluster, res, bufPos, size =>
    if size ≤ 0 then (res, disk, bufPos)
    else
      let targetCluster := k.entryCode v disk targetCluster
      if k.endOfChain ≤ targetCluster then (res, disk, bufPos)
      else
        let totalToWrite := if size ≤ v.clusterBytes then size.toNat else v.clusterBytes
        let written := diskstreamerWrite disk (i32 (k.clusterPos v targetCluster))
          (slice buf bufPos totalToWrite)
        writeLoop buf calls written.2 targetCluster written.1 (bufPos + totalToWrite)
          (size - totalToWrite)

end FatKind

/-- What differs between the drivers when they allocate clusters. -/
structure FatDriver where
  kind : FatKind
  /-- The entry of the last cluster of a chain. -/
  eoc : ℕ
  /-- A free cluster or `0`. -/
  getFirstFreeCluster : FatVolume → FatPrivate → Disk → ℕ × FatPrivate × Disk

/-- `fat16_get_first_first_cluster`. -/
def fat16GetFirstFirstCluster (v : FatVolume) (priv : FatPrivate) (disk : Disk) :
    ℕ × FatPrivate × Disk :=
  ((fat16.freeCluster v disk 3).getD 0 % 2 ^ 16, priv, disk)

/-- `fat32_get_first_free_cluster`, which keeps the place in the file system information. -/
def fat32GetFirstFreeCluster (v : FatVolume) (priv : FatPrivate) (disk : Disk) :
    ℕ × FatPrivate × Disk :=
  let nextFreeCluster := u32le priv.fsinfo 492
  match fat32.freeCluster v disk (if nextFreeCluster = 0xFFFFFFFF then 3 else nextFreeCluster) with
  | none => (0, priv, disk)
  | some cluster =>
    let fsinfo := store priv.fsinfo 492 (numberBytes 4 cluster)
    (cluster, { priv with fsinfo := fsinfo }, (diskWriteBlock disk priv.fsInfoLocation fsinfo).2)

def fat16Driver : FatDriver where
  kind := fat16
  eoc := 0xFFFF
  getFirstFreeCluster := fat16GetFirstFirstCluster

def fat32Driver : FatDriver where
  kind := fat32
  eoc := 0x0FFFFFFF
  getFirstFreeCluster := fat32GetFirstFreeCluster

/-- The result of a write and what it leaves behind; `bufRead` bytes of the buffer were
read. -/
structure WriteResult where
  res : ℤ
  priv : FatPrivate
  disk : Disk
  desc : FatFileDescriptor
  bufRead : ℕ

namespace FatDriver

variable (d : FatDriver) (v : FatVolume)

/-- `add_cluster_to_chain`; both drivers compare the number of bytes written with `2`. -/
def addClusterToChain (priv : FatPrivate) (disk : Disk) (firstCluster : ℕ) :
    Option (ℤ × FatPrivate × Disk) := do
  let cluster ← d.kind.findLastClusterOfChain v disk firstCluster
  let next := d.getFirstFreeCluster v priv disk
  if next.1 = 0 then return (-enodiskspace, next.2)
  let linked := d.kind.writeFatEntry v next.2.2 cluster next.1
  if linked.1 ≠ 2 then return (-eio, next.2.1, linked.2)
  let ended := d.kind.writeFatEntry v linked.2 next.1 d.eoc
  if ended.1 ≠ 2 then return (-eio, next.2.1, ended.2)
  return (0, next.2.1, ended.2)

/-- The loop that adds the clusters needed. -/
def growLoop (firstCluster : ℕ) : ℕ → FatPrivate → Disk → Option (ℤ × FatPrivate × Disk)
  | 0, priv, disk => some (0, priv, disk)
  | count + 1, priv, disk =>
    (d.addClusterToChain v priv disk firstCluster).bind fun added =>
      if added.1 < 0 then some added else growLoop firstCluster count added.2.1 added.2.2

/-- The third step of a write, from the cluster that was the last one. -/
def writeData (priv : FatPrivate) (disk : Disk) (desc : FatFileDescriptor) (buf : ℕ → UInt8)
    (size : ℤ) (firstClusterToWrite : ℕ) : WriteResult :=
  let freeSpaceOfFirstCluster := desc.pos % v.clusterBytes
  let offset := u32 (d.kind.clusterPos v firstClusterToWrite + freeSpaceOfFirstCluster)
  let written := diskstreamerWrite disk (i32 offset) (slice buf 0 freeSpaceOfFirstCluster)
  let rest := d.kind.writeLoop v buf size.toNat written.2 firstClusterToWrite written.1
    freeSpaceOfFirstCluster (size - freeSpaceOfFirstCluster)
  ⟨rest.1, priv, rest.2.1, desc, rest.2.2⟩

/-- The write function of a driver. -/
def write (priv : FatPrivate) (disk : Disk) (desc : FatFileDescriptor) (buf : ℕ → UInt8)
    (size : ℤ) : Option WriteResult :=
  if size = 0 then some ⟨-einvarg, priv, disk, desc, 0⟩
  else if desc.mode &&& fileModeWrite = 0 then some ⟨-erdonly, priv, disk, desc, 0⟩
  else
    let oldFilesize := desc.item.filesize
    let oldClusterCount := filesizeToClusterCount v oldFilesize
    let firstCluster := desc.item.firstCluster % 2 ^ (8 * d.kind.entrySize)
    (d.kind.findLastClusterOfChain v disk firstCluster).bind fun firstClusterToWrite =>
    let newFilesize := u32 (oldFilesize + size)
    let neededClusters :=
      if newFilesize > u32 (oldClusterCount * v.clusterBytes) then
        u32 (filesizeToClusterCount v newFilesize - oldClusterCount)
      else 0
    (d.growLoop v firstCluster neededClusters priv disk).bind fun grown =>
    if grown.1 < 0 then some ⟨grown.1, grown.2.1, grown.2.2, desc, 0⟩
    else
      let desc := { desc with item := desc.item.setFilesize newFilesize }
      (d.kind.writeDirectoryEntry v grown.2.2 grown.2.1.rootDirectory desc.path desc.item).bind
        fun entry =>
          if entry.1 ≤ 0 then some ⟨entry.1, grown.2.1, entry.2, desc, 0⟩
          else some (d.writeData v grown.2.1 entry.2 desc buf size firstClusterToWrite)

end FatDriver

/-- `fat16_add_cluster_to_chain` as one function of the last cluster.  `diskstreamer_write`
reports all bytes as written, so only a free cluster can be missing. -/
lemma fat16AddClusterToChain_eq (v : FatVolume) (priv : FatPrivate) (disk : Disk)
    (firstCluster : ℕ) :
    fat16Driver.addClusterToChain v priv disk firstCluster =
      (fat16.findLastClusterOfChain v disk firstCluster).map fun cluster =>
        let next := (fat16GetFirstFirstCluster v priv disk).1
        if next = 0 then (-enodiskspace, priv, disk)
        else (0, priv,
          (fat16.writeFatEntry v (fat16.writeFatEntry v disk cluster next).2 next 0xFFFF).2) := by
  have hnext : fat16Driver.getFirstFreeCluster v priv disk =
      ((fat16GetFirstFirstCluster v priv disk).1, priv, disk) := rfl
  have hwritten : ∀ (d : Disk) (c val : ℕ), (fat16.writeFatEntry v d c val).1 = 2 :=
    fun _ _ _ => rfl
  rw [FatDriver.addClusterToChain, show fat16Driver.kind = fat16 from rfl,
    show fat16Driver.eoc = 0xFFFF from rfl]
  cases fat16.findLastClusterOfChain v disk firstCluster with
  | none => rfl
  | some cluster =>
    simp only [Option.bind_eq_bind, Option.bind_some, Option.map_some, hnext, hwritten, ne_eq,
      not_true_eq_false, if_false, Option.pure_def]
    split_ifs <;> rfl

def fat16Write := fat16Driver.write
def fat32Write := fat32Driver.write

end SerpaeOS
