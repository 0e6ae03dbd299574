import SerpaeOS.Fs.Fat.Lookup
import SerpaeOS.Fs.Pparser

/-!
# Opening and closing files

The functions of the drivers that follow a path, open a file and close it, with the memory
they take and give back.  A value that the code keeps in a block carries the address of the
block.
-/

namespace SerpaeOS

open BlockTable Bytes Word Prog

/-- The sizes of `struct fat_item`, `struct fat_directory` and
`struct fat_file_descriptor`. -/
def fatItemSize : ℕ := 8
def fatDirectorySize : ℕ := 16
def fatFileDescriptorSize : ℕ := 16

/-- A pointer to a `struct fat_directory`: `NULL`, a directory that has been freed because
it could not be loaded, or a directory and the block of its items. -/
inductive DirHandle where
  | null
  | freed
  | loaded (ptr itemPtr : Ptr) (directory : FatDirectory)

/-- A `struct fat_item` in memory.  The item of a file is a copy in a block of its own. -/
inductive HeapItem where
  | file (ptr itemPtr : Ptr) (item : FatDirectoryItem)
  | directory (ptr : Ptr) (handle : DirHandle)

/-- A mounted volume: its driver, the disk, and the root directory in memory.  On a FAT16
volume `rootPtr` points into the block of `struct fat_private`. -/
structure FatMount where
  kind : FatKind
  /-- `fat16_open` looks a second time for a path that it did not find. -/
  looksTwice : Bool
  volume : FatVolume
  disk : Disk
  rootPtr : Ptr
  rootItemPtr : Ptr
  root : FatDirectory

/-- A `struct fat_file_descriptor` in memory, with its path and its item. -/
structure FatOpenFile where
  ptr : Ptr
  path : List PathPart
  itemPtr : Ptr
  clonePtr : Ptr
  item : FatDirectoryItem
  pos : ℕ
  mode : ℕ

namespace FatMount

variable (mt : FatMount)

/-- `load_fat_directory`, for the item of a subdirectory. -/
def loadFatDirectory (item : FatDirectoryItem) : KProg DirHandle := do
  let directory ← allocate fatDirectorySize
  if directory = 0 then return .null
  else
    let clusterSector := mt.kind.clusterToSector mt.volume item.firstClusterInt
    match getTotalItemsForDirectory mt.volume mt.disk clusterSector with
    | none => stuck
    | some totalItems => do
      let itemPtr ← allocate (u32 (totalItems * itemSize))
      if itemPtr = 0 then
        release directory
        return .freed
      else
        let read := mt.kind.readInternal mt.volume mt.disk item.firstClusterInt 0
          (totalItems.toNat * itemSize)
        if read.1 ≠ 0 then
          release itemPtr
          release directory
          return .freed
        else return .loaded directory itemPtr ⟨itemsOf read.2, totalItems, clusterSector⟩

/-- `new_fat_item_for_directory_item`. -/
def newFatItem (item : FatDirectoryItem) : KProg (Option HeapItem) := do
  let fItem ← allocate fatItemSize
  if fItem = 0 then return none
  else if item.attributeBits &&& fatFileSubdirectory ≠ 0 then do
    let directory ← mt.loadFatDirectory item
    return some (.directory fItem directory)
  else do
    let clone ← allocate itemSize
    return some (.file fItem clone item)

/-- `find_item_in_directory`. -/
def findFatItem (directory : FatDirectory) (name : List UInt8) : KProg (Option HeapItem) :=
  match mt.kind.findItemInDirectory directory name with
  | none => return none
  | some item => mt.newFatItem item

end FatMount

/-- `fat_item_free`. -/
def fatItemFree : HeapItem → KProg Unit
  | .file ptr itemPtr _ => do
    release itemPtr
    release ptr
  | .directory ptr .null => release ptr
  | .directory _ .freed => stuck
  | .directory ptr (.loaded directory itemPtr _) => do
    if itemPtr ≠ 0 then release itemPtr
    release directory
    release ptr

namespace FatMount

variable (mt : FatMount)

/-- The loop of `get_directory_entry` over the rest of the path. -/
def getDirectoryEntryLoop : Option HeapItem → List (List UInt8) → KProg (Option HeapItem)
  | current, [] => return current
  | some (.directory ptr (.loaded directory itemPtr d)), name :: rest => do
    let tmp ← mt.findFatItem d name
    fatItemFree (.directory ptr (.loaded directory itemPtr d))
    getDirectoryEntryLoop tmp rest
  | some (.file _ _ _), _ :: _ => return none
  -- a `NULL` pointer, or a directory that is `NULL` or freed
  | _, _ :: _ => stuck

/-- `get_directory_entry`. -/
def getDirectoryEntry : List (List UInt8) → KProg (Option HeapItem)
  | [] => stuck
  | name :: rest => do
    let rootItem ← mt.findFatItem mt.root name
    match rootItem with
    | none => return none
    | some item => mt.getDirectoryEntryLoop (some item) rest

/-- `get_parent_dir`; for a path of one part an item for the root directory in memory. -/
def getParentDir : List (List UInt8) → KProg (Option HeapItem)
  | [] => return none
  | [_] => do
    let ptr ← allocate fatItemSize
    if ptr = 0 then stuck
    else return some (.directory ptr (.loaded mt.rootPtr mt.rootItemPtr mt.root))
  | path => mt.getDirectoryEntry path.dropLast

/-- `write_directory_entry`: the result and the disk. -/
def writeDirectoryEntry (path : List (List UInt8)) (newItem : FatDirectoryItem) :
    KProg (ℤ × Disk) := do
  let parentDirItem ← mt.getParentDir path
  match parentDirItem with
  | some (.directory ptr (.loaded directory itemPtr d)) =>
    match FatKind.entryIndex d (path.getLastD []) with
    | none => return (-einvarg, mt.disk)
    | some i => do
      let locationBytes := u32 (d.sectorPos * mt.volume.sectorSize + (i : ℤ) * itemSize)
      let written := diskstreamerWrite mt.disk (i32 locationBytes) (slice newItem.raw 0 itemSize)
      fatItemFree (.directory ptr (.loaded directory itemPtr d))
      return written
  | some (.directory _ .null) => return (-ebadpath, mt.disk)
  | _ => stuck

/-- The search in `fat16_open` and `fat32_open`. -/
def openItem (path : List (List UInt8)) : KProg (Option HeapItem) := do
  let item ← mt.getDirectoryEntry path
  match item with
  | none => if mt.looksTwice then mt.getDirectoryEntry path else return none
  | some item => return some item

/-- `fat16_open` and `fat32_open`: the descriptor or the error code, and the disk.  `now` is
the date of access. -/
def fatOpen (path : List PathPart) (mode now : ℕ) : KProg (Except ℤ FatOpenFile × Disk) := do
  let descriptor ← allocate fatFileDescriptorSize
  if descriptor = 0 then return (.error (-enomem), mt.disk)
  else
    let names := path.map PathPart.part
    let item ← mt.openItem names
    match item with
    | none => do
      release descriptor
      return (.error (-eio), mt.disk)
    | some (.directory _ _) => do
      release descriptor
      return (.error (-einvarg), mt.disk)
    | some (.file itemPtr clonePtr item) =>
      if clonePtr = 0 then stuck
      else if mode &&& fileModeWrite ≠ 0 ∧ item.attributeBits &&& fatFileReadOnly ≠ 0 then do
        release descriptor
        return (.error (-erdonly), mt.disk)
      else do
        let pos := if mode &&& fileModeAppend ≠ 0 then item.filesize else 0
        let item : FatDirectoryItem := ⟨store item.raw 18 (numberBytes 2 now)⟩
        let written ← mt.writeDirectoryEntry names item
        return (.ok ⟨descriptor, path, itemPtr, clonePtr, item, pos, mode⟩, written.2)

end FatMount

/-- `fat16_close` and `fat32_close`. -/
def fatClose (desc : FatOpenFile) : KProg ℤ := do
  let root ← allocate pathRootSize
  if root = 0 then stuck
  else do
    pathparserFree ⟨root, 0, desc.path⟩
    fatItemFree (.file desc.itemPtr desc.clonePtr desc.item)
    release desc.ptr
    return 0

end SerpaeOS
