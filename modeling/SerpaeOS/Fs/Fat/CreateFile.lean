import SerpaeOS.Fs.Fat.FreeCluster
import SerpaeOS.Fs.Fat.Name
import SerpaeOS.Fs.FileOps

/-!
# Creating files

`fat16_create_file` takes a free cluster, marks it as the end of a chain, and stores an entry with
its number in the parent directory.  The entry goes as far behind the beginning of the directory as
there are entries that are not deleted, which is not where a free entry is when deleted ones come
before others.
-/

namespace SerpaeOS

open Bytes Word

/-! ## The function -/

/-- The date of a new entry, in the 16 bits of its field. -/
def creationDate (now : DateTime) : ℕ :=
  ((now.day &&& 31) ||| (now.month <<< 5) ||| (u32 (now.year - 1980) <<< 9)) % 2 ^ 16

/-- The entry that `fat16_create_file` stores. -/
def newDirectoryItem (now : DateTime) (filename : List UInt8) (firstCluster : ℕ) :
    FatDirectoryItem :=
  let raw := store (fun _ => 0) 16 (numberBytes 2 (creationDate now))
  FatDirectoryItem.setFilename ⟨store raw 26 (numberBytes 2 firstCluster)⟩ filename

/-- The entry is deleted, or one behind the last. -/
def FatDirectoryItem.Free (item : FatDirectoryItem) : Prop :=
  item.raw 0 = 0x00 ∨ item.raw 0 = 0xE5

instance (item : FatDirectoryItem) : Decidable item.Free := inferInstanceAs (Decidable (_ ∨ _))

/-- `fat16_find_free_entry_in_directory`, which counts in 16 bits. -/
def fat16FindFreeEntryInDirectory (item : ℕ → FatDirectoryItem) : Option ℕ :=
  Loop.run ⟨fun res => some <|
    if (item res).Free then .inr res else .inl ((res + 1) % 2 ^ 16)⟩ 0

/-- The memory at `parentdir->item`: the entries that were read, and what lies behind them. -/
def itemsInMemory (v : FatVolume) (path : List (List UInt8)) (parentdir : FatDirectory)
    (behind : ℕ → FatDirectoryItem) (i : ℕ) : FatDirectoryItem :=
  let size := if path.length = 1 then v.rootDirEntries else parentdir.total.toNat
  if i < size then parentdir.item i else behind i

/-- `FAT16_DIRECTORY_ENTRIES_PER_CLUSTER`. -/
def entriesPerCluster (v : FatVolume) : ℕ := v.clusterBytes / itemSize

/-- `fat16_sector_to_cluster`. -/
def fat16SectorToCluster (v : FatVolume) (sector : ℤ) : ℤ :=
  if fat16EndingSectorPos v < sector then sector - fat16EndingSectorPos v + 2 else 0

/-- The loop that looks for the cluster of the new entry: the entries left, and the cluster. -/
def parentClusterLoop (v : FatVolume) (disk : Disk) (i cluster : ℕ) : Option (ℕ × ℕ) :=
  Loop.run ⟨fun (i, cluster) => some <|
    if entriesPerCluster v < i ∧ cluster < 0xFFF0 ∧ 2 < cluster then
      .inl (i - entriesPerCluster v, fat16.entryCode v disk cluster)
    else .inr (i, cluster)⟩ (i, cluster)

/-- The position `disk_loc` of the new entry, or none when the disk has no space for it. -/
def newEntryPos (v : FatVolume) (disk : Disk) (parentdir : FatDirectory) : Option (Option ℕ) :=
  let clusters := u32 parentdir.total / entriesPerCluster v % 2 ^ 16
  if clusters ≠ 0 then
    let cluster := (fat16SectorToCluster v parentdir.sectorPos % 2 ^ 16).toNat
    (parentClusterLoop v disk (u32 parentdir.total) cluster).map fun (i, cluster) =>
      if i32 i < 1 then none else some (u32 (i * itemSize + fat16.clusterPos v cluster))
  else
    some (some (u32 (parentdir.sectorPos * v.sectorSize + itemSize * parentdir.total)))

/-- The second step of `fat16_create_file` up to its end: the result, the disk, and the parent
directory in memory. -/
def createEntry (v : FatVolume) (disk : Disk) (tmp : FatDirectoryItem) (parentdir : FatDirectory)
    (item : ℕ → FatDirectoryItem) : Option (ℤ × Disk × FatDirectory) :=
  (fat16FindFreeEntryInDirectory item).bind fun offset =>
    if offset = 0xFFFF then some (-enodiskspace, disk, parentdir)
    else (newEntryPos v disk parentdir).map fun
      | none => (-enodiskspace, disk, parentdir)
      | some diskLoc =>
        let parentdir := { parentdir with total := i32 (parentdir.total + 1) }
        let written := diskstreamerWrite disk (i32 diskLoc) (slice tmp.raw 0 itemSize)
        (written.1, written.2, parentdir)

/-- `fat16_create_file`: the result and the disk; the parent directory in memory is freed.  `none`
also stands for a parent that is not found or is not a directory in memory: the function then frees
a `NULL` pointer, or goes on with a pointer to something else. -/
def fat16CreateFile (v : FatVolume) (priv : FatPrivate) (disk : Disk) (now : DateTime)
    (behind : ℕ → FatDirectoryItem) (path : List (List UInt8)) : Option (ℤ × Disk) :=
  (fat16GenerateClusterChain v priv disk 1).bind fun (firstCluster, priv, disk) =>
    if firstCluster = 0 then some (-enodiskspace, disk)
    else (fat16.getParentDir v disk priv.rootDirectory path).bind fun
      | some (.directory (.ok parentdir)) =>
        (createEntry v disk (newDirectoryItem now (path.getLastD []) firstCluster) parentdir
          (itemsInMemory v path parentdir behind)).bind fun (res, disk, _) =>
            if res < 0 then (fat16EraseClusterChain v disk firstCluster).map fun erased =>
              (res, erased.2)
            else some (res, disk)
      | _ => none

/-! ## What is expected of it -/

/-- The entries of a directory on the disk, and how it is loaded. -/
structure DirectoryPlace where
  capacity : ℕ
  entries : Disk → ℕ → FatDirectoryItem
  load : Disk → Option (Except ℤ FatDirectory)

/-- The FAT16 root directory. -/
def rootPlace (v : FatVolume) : DirectoryPlace where
  capacity := v.rootDirEntries
  entries := rootEntries v
  load := fat16GetRootDirectory v

/-- A directory in the clusters of a chain, with its entry in the directory above it. -/
def chainPlace (v : FatVolume) (item : FatDirectoryItem) (chain : List ℕ) : DirectoryPlace where
  capacity := chain.length * v.clusterBytes / itemSize
  entries disk := fat16.chainEntries v disk chain
  load disk := fat16LoadFatDirectory v disk item

/-- The entry stands in front of the end of the directory and is not deleted. -/
def LiveAt (e : ℕ → FatDirectoryItem) (j : ℕ) : Prop :=
  (∀ i ≤ j, (e i).raw 0 ≠ 0x00) ∧ ¬ (e j).Deleted

/-- Two entries have the same 32 bytes. -/
def SameBytes (e f : FatDirectoryItem) : Prop := ∀ j < itemSize, e.raw j = f.raw j

/-- The new entry is stored in an entry that was free, those in use are as before, and in the
directory loaded anew the name is found, with the cluster that was allocated. -/
structure CreatedIn (v : FatVolume) (place : DirectoryPlace) (disk disk' : Disk) (now : DateTime)
    (name : List UInt8) (cluster : ℕ) : Prop where
  stored : ∃ i < place.capacity, (place.entries disk i).Free ∧
    SameBytes (place.entries disk' i) (newDirectoryItem now name cluster)
  kept : ∀ j < place.capacity, LiveAt (place.entries disk) j →
    SameBytes (place.entries disk' j) (place.entries disk j)
  found : ∃ dir item, place.load disk' = some (.ok dir) ∧
    fat16FindItemInDirectory dir name = some item ∧ item.firstCluster = cluster
  allocated : fat16.fatEntry v disk cluster = 0 ∧ fat16.fatEntry v disk' cluster = 0xFFFF

/-- A call that succeeds creates the file, and one that fails leaves the table as it was. -/
def CreatesFile (v : FatVolume) (priv : FatPrivate) (disk : Disk) (now : DateTime)
    (behind : ℕ → FatDirectoryItem) (path : List (List UInt8)) (place : DirectoryPlace) : Prop :=
  ∃ res disk', fat16CreateFile v priv disk now behind path = some (res, disk') ∧
    (0 ≤ res → CreatedIn v place disk disk' now (path.getLastD [])
      (fat16GetFirstFirstCluster v priv disk).1) ∧
    (res < 0 → ∀ c, fat16.fatEntry v disk' c = fat16.fatEntry v disk c)

end SerpaeOS
