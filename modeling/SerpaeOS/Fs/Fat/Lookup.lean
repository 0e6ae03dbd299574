import SerpaeOS.Fs.Fat.Directory

/-!
# Paths

Following a path from the root directory, as far as it concerns the volume: which item the
path leads to, and where the driver expects its directory entry.  The memory that the
functions take and give back is the subject of `SerpaeOS.Fs.Fat.Open`; here there is always
enough of it.

`none` stands for a call that does not return or that uses a `NULL` pointer or a directory
that has been freed.
-/

namespace SerpaeOS

open Bytes Word

/-- `struct fat_item`.  A directory that could not be loaded is freed again, and the item
keeps the pointer. -/
inductive FatItem where
  | file (item : FatDirectoryItem)
  | directory (directory : Except ℤ FatDirectory)

namespace FatKind

variable (k : FatKind) (v : FatVolume)

/-- `new_fat_item_for_directory_item`. -/
def newFatItem (disk : Disk) (item : FatDirectoryItem) : Option FatItem :=
  if item.attributeBits &&& fatFileSubdirectory ≠ 0 then
    (k.loadFatDirectory v disk item).map .directory
  else some (.file item)

/-- `find_item_in_directory` with the item it makes. -/
def findFatItem (disk : Disk) (directory : FatDirectory) (name : List UInt8) :
    Option (Option FatItem) :=
  match k.findItemInDirectory directory name with
  | none => some none
  | some item => (k.newFatItem v disk item).map some

/-- The loop of `get_directory_entry` over the rest of the path.  It goes on when a name
was not found, and then reads through a `NULL` pointer. -/
def getDirectoryEntryLoop (disk : Disk) : Option FatItem → List (List UInt8) →
    Option (Option FatItem)
  | current, [] => some current
  | none, _ :: _ => none
  | some (.file _), _ :: _ => some none
  | some (.directory (.error _)), _ :: _ => none
  | some (.directory (.ok directory)), name :: rest =>
    (k.findFatItem v disk directory name).bind fun item => getDirectoryEntryLoop disk item rest

/-- `get_directory_entry`. -/
def getDirectoryEntry (disk : Disk) (root : FatDirectory) :
    List (List UInt8) → Option (Option FatItem)
  | [] => none
  | name :: rest =>
    (k.findFatItem v disk root name).bind fun
      | none => some none
      | some item => k.getDirectoryEntryLoop v disk (some item) rest

/-- `get_parent_dir`: for a path of one part the root directory. -/
def getParentDir (disk : Disk) (root : FatDirectory) (path : List (List UInt8)) :
    Option (Option FatItem) :=
  match path with
  | [] => some none
  | [_] => some (some (.directory (.ok root)))
  | path => k.getDirectoryEntry v disk root path.dropLast

/-- The index in a directory of the entry that `write_directory_entry` replaces.  When the
loop ends without a match, its index is compared with the number of items. -/
def entryIndex (directory : FatDirectory) (name : List UInt8) : Option ℕ :=
  let matching := (List.range directory.total.toNat).find? fun i =>
    istrncmp name (directory.item i).fullRelativeFilename 12 == 0
  let i := matching.getD directory.total.toNat
  if (i : ℤ) = directory.total then none else some i

/-- The position at which `write_directory_entry` expects the entry of a path, if the parent
directory has one of that name. -/
def entryLocation (disk : Disk) (root : FatDirectory) (path : List (List UInt8)) :
    Option (Option ℕ) :=
  (k.getParentDir v disk root path).bind fun
    | some (.directory (.ok directory)) =>
      some ((entryIndex directory (path.getLastD [])).map fun i : ℕ =>
        u32 (directory.sectorPos * v.sectorSize + i * itemSize))
    | _ => none

/-- `write_directory_entry`: the result and the disk. -/
def writeDirectoryEntry (disk : Disk) (root : FatDirectory) (path : List (List UInt8))
    (newItem : FatDirectoryItem) : Option (ℤ × Disk) :=
  (k.entryLocation v disk root path).map fun
    | none => (-einvarg, disk)
    | some locationBytes =>
      diskstreamerWrite disk (i32 locationBytes) (slice newItem.raw 0 itemSize)

end FatKind

/-! ## The entry of a name -/

/-- The entry is the first one in the directory with the name. -/
structure FirstNamed (d : FatDirectory) (name : List UInt8) (i : ℕ) : Prop where
  lt : i < d.total.toNat
  named : istrncmp (d.item i).fullRelativeFilename name maxPath = 0
  first : ∀ j < i, istrncmp (d.item j).fullRelativeFilename name maxPath ≠ 0

/-- The entry is the one that the search for a name finds. -/
structure FatKind.FindsEntry (k : FatKind) (dir : FatDirectory) (name : List UInt8) (j : ℕ) :
    Prop where
  lt : j < dir.total.toNat
  passes : (k.skipsLabels && decide (dir.item j).Label) = false
  named : istrncmp (dir.item j).fullRelativeFilename name maxPath = 0
  first : ∀ i < j, (k.skipsLabels && decide (dir.item i).Label) = true ∨
    istrncmp (dir.item i).fullRelativeFilename name maxPath ≠ 0

variable {k : FatKind} {d : FatDirectory} {name : List UInt8} {item : FatDirectoryItem} {i j : ℕ}

/-- The search for a name that succeeds finds an entry. -/
lemma FatKind.findItem_iff : k.findItemInDirectory d name = some item ↔
    ∃ j, k.FindsEntry d name j ∧ d.item j = item := by
  simp only [findItemInDirectory, findItem, List.find?_map, Option.map_eq_some_iff,
    List.find?_range_eq_some, Function.comp_apply, Bool.and_eq_true, Bool.not_eq_true',
    beq_iff_eq, List.mem_range]
  have hfirst : ∀ i, (!(k.skipsLabels && decide (d.item i).Label) &&
        istrncmp (d.item i).fullRelativeFilename name maxPath == 0) = false ↔
      (k.skipsLabels && decide (d.item i).Label) = true ∨
        istrncmp (d.item i).fullRelativeFilename name maxPath ≠ 0 := by
    intro i
    rw [Bool.and_eq_false_iff, Bool.not_eq_false', beq_eq_false_iff_ne]
  constructor
  · rintro ⟨j, ⟨⟨hpass, hnamed⟩, hlt, hbefore⟩, rfl⟩
    exact ⟨j, ⟨hlt, hpass, hnamed, fun i hi => (hfirst i).mp (hbefore i hi)⟩, rfl⟩
  · rintro ⟨j, h, rfl⟩
    exact ⟨j, ⟨⟨h.passes, h.named⟩, h.lt, fun i hi => (hfirst i).mpr (h.first i hi)⟩, rfl⟩

/-- The first entry of a name that is also the name of the one that was found. -/
lemma FatKind.FindsEntry.exists_firstNamed (h : k.FindsEntry d name j) :
    ∃ i ≤ j, FirstNamed d name i := by
  have hex : ∃ i, istrncmp (d.item i).fullRelativeFilename name maxPath = 0 := ⟨j, h.named⟩
  have hle := Nat.find_min' hex h.named
  exact ⟨Nat.find hex, hle, hle.trans_lt h.lt, Nat.find_spec hex, fun i hi => Nat.find_min hex hi⟩

/-- Where a driver without labels to skip finds an entry it is the first one of its name. -/
lemma FatKind.FindsEntry.firstNamed (h : k.FindsEntry d name j) (hskips : k.skipsLabels = false) :
    FirstNamed d name j := by
  refine ⟨h.lt, h.named, fun i hi => (h.first i hi).resolve_left ?_⟩
  rw [hskips]
  exact Bool.false_ne_true

/-- The search in a directory of a FAT16 volume finds the first entry with the name. -/
lemma fat16_findItem_iff : fat16.findItemInDirectory d name = some item ↔
    ∃ i, FirstNamed d name i ∧ d.item i = item := by
  rw [FatKind.findItem_iff]
  refine exists_congr fun i => and_congr_left fun _ => ⟨fun h => h.firstNamed rfl, fun h => ?_⟩
  exact ⟨h.lt, rfl, h.named, fun j hj => Or.inr (h.first j hj)⟩

/-- The entry that is found is also the one that is stored. -/
lemma FirstNamed.entryIndex_eq (h : FirstNamed d name i) (hname : 0 ∉ name) :
    FatKind.entryIndex d name = some i := by
  have hfull : ∀ j, istrncmp (d.item j).fullRelativeFilename name maxPath = 0 ↔
      fold (d.item j).fullRelativeFilename = fold name := fun j =>
    istrncmp_eq_zero_iff_of_lt (d.item j).zero_notMem_fullRelativeFilename hname
      (lt_of_le_of_lt (d.item j).length_fullRelativeFilename_le (by decide))
  have hlen : name.length ≤ 12 := by
    have heq := congrArg List.length ((hfull i).mp h.named)
    have hle := (d.item i).length_fullRelativeFilename_le
    simp only [fold, List.length_map] at heq
    omega
  -- the comparison with the first 12 characters of the path is one with all of them
  have hshort : ∀ j, istrncmp name (d.item j).fullRelativeFilename 12 = 0 ↔
      istrncmp (d.item j).fullRelativeFilename name maxPath = 0 := by
    intro j
    rw [istrncmp_eq_zero_iff hname (d.item j).zero_notMem_fullRelativeFilename, hfull,
      List.take_of_length_le hlen, List.take_of_length_le
        (d.item j).length_fullRelativeFilename_le]
    exact eq_comm
  have hfind : ((List.range d.total.toNat).find? fun j =>
      istrncmp name (d.item j).fullRelativeFilename 12 == 0) = some i := by
    simp only [List.find?_range_eq_some, beq_iff_eq, List.mem_range, Bool.not_eq_true',
      beq_eq_false_iff_ne, ne_eq, hshort]
    exact ⟨h.named, h.lt, h.first⟩
  have hlt := h.lt
  rw [FatKind.entryIndex, hfind]
  exact if_neg (by rw [Option.getD_some]; omega)

end SerpaeOS
