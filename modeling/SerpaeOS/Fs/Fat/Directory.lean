import SerpaeOS.Fs.Fat.Read
import SerpaeOS.Lib.Loop

/-!
# Directories

A directory is loaded in two passes: the first counts the entries that are not deleted
before the terminator, the second reads that many entries from the beginning.  Looking up
a name then searches the entries read.
-/

namespace SerpaeOS

open Bytes Word

/-- `struct fat_directory`. -/
structure FatDirectory where
  item : ℕ → FatDirectoryItem
  total : ℤ
  sectorPos : ℤ

/-- The entries in a list of bytes. -/
def itemsOf (bytes : List UInt8) (i : ℕ) : FatDirectoryItem :=
  ⟨fun j => bytes.getD (i * itemSize + j) 0⟩

/-- The loop of `get_total_items_for_directory`, from a position and with a count; it does
not return when there is no terminator. -/
def totalItemsLoop (disk : Disk) (pos : ℤ) (i : ℤ) : Option ℤ :=
  Loop.run ⟨fun (pos, i) => some <|
    let read := diskstreamerRead disk pos itemSize
    if read.1 ≠ 0 then .inr (-eio)
    else if read.2.1.headD 0 = 0x00 then .inr i
    else if read.2.1.headD 0 = 0xE5 then .inl (read.2.2, i)
    else .inl (read.2.2, i + 1)⟩ (pos, i)

lemma totalItemsLoop_step (disk : Disk) (pos i : ℤ) :
    totalItemsLoop disk pos i =
      let read := diskstreamerRead disk pos itemSize
      if read.1 ≠ 0 then some (-eio)
      else if read.2.1.headD 0 = 0x00 then some i
      else if read.2.1.headD 0 = 0xE5 then totalItemsLoop disk read.2.2 i
      else totalItemsLoop disk read.2.2 (i + 1) := by
  rw [totalItemsLoop, Loop.run]
  dsimp only
  split_ifs
  · rfl
  · rfl
  · rfl
  · rfl

/-- `fat16_get_total_items_for_directory` and `fat32_get_total_items_for_directory`. -/
def getTotalItemsForDirectory (v : FatVolume) (disk : Disk) (directoryStartSector : ℤ) :
    Option ℤ :=
  totalItemsLoop disk (i32 (directoryStartSector * v.sectorSize)) 0

/-- The first sector of the FAT16 root directory. -/
def fat16RootSector (v : FatVolume) : ℕ := v.fatCopies * v.sectorsPerFat + v.reservedSectors

/-- `fat16_get_root_directory`, when there is memory for it. -/
def fat16GetRootDirectory (v : FatVolume) (disk : Disk) : Option (Except ℤ FatDirectory) := do
  let rootDirSize := v.rootDirEntries * itemSize
  let totalItems ← getTotalItemsForDirectory v disk (fat16RootSector v)
  let read := diskstreamerRead disk (i32 (fat16RootSector v * v.sectorSize)) rootDirSize
  if read.1 ≠ 0 then return .error (-eio)
  else return .ok ⟨itemsOf read.2.1, totalItems, fat16RootSector v⟩

/-- Loading the directory whose chain starts with a cluster, when there is memory for it. -/
def FatKind.loadDirectory (k : FatKind) (v : FatVolume) (disk : Disk) (cluster : ℤ) :
    Option (Except ℤ FatDirectory) := do
  let clusterSector := k.clusterToSector v cluster
  let totalItems ← getTotalItemsForDirectory v disk clusterSector
  let read := k.readInternal v disk cluster 0 (totalItems.toNat * itemSize)
  if read.1 ≠ 0 then return .error read.1
  else return .ok ⟨itemsOf read.2, totalItems, clusterSector⟩

/-- Loading a directory from its item in the parent directory. -/
def FatKind.loadFatDirectory (k : FatKind) (v : FatVolume) (disk : Disk)
    (item : FatDirectoryItem) : Option (Except ℤ FatDirectory) :=
  if item.attributeBits &&& fatFileSubdirectory = 0 then some (.error (-einvarg))
  else k.loadDirectory v disk item.firstClusterInt

def fat16LoadFatDirectory := fat16.loadFatDirectory
def fat32LoadFatDirectory := fat32.loadFatDirectory

/-- `fat32_load_root_dir`. -/
def fat32LoadRootDir (v : FatVolume) (disk : Disk) : Option (Except ℤ FatDirectory) :=
  fat32.loadDirectory v disk v.rootCluster

/-- The search through a directory, past the items to skip. -/
def findItem (skip : FatDirectoryItem → Bool) (directory : FatDirectory) (name : List UInt8) :
    Option FatDirectoryItem :=
  ((List.range directory.total.toNat).map directory.item).find? fun item =>
    !skip item && istrncmp item.fullRelativeFilename name maxPath == 0

/-- `find_item_in_directory`: the item it makes a `fat_item` of. -/
def FatKind.findItemInDirectory (k : FatKind) :
    FatDirectory → List UInt8 → Option FatDirectoryItem :=
  findItem fun item => k.skipsLabels && decide item.Label

def fat16FindItemInDirectory := fat16.findItemInDirectory
def fat32FindItemInDirectory := fat32.findItemInDirectory

/-! ## Directories on a volume -/

/-- The entry is neither deleted nor a label. -/
def FatDirectoryItem.Proper (item : FatDirectoryItem) : Prop := ¬ item.Deleted ∧ ¬ item.Label

instance (item : FatDirectoryItem) : Decidable item.Proper := inferInstanceAs (Decidable (_ ∧ _))

/-- The entries `e 0, …, e (n - 1)` are followed by the terminator. -/
structure Terminated (e : ℕ → FatDirectoryItem) (n : ℕ) : Prop where
  used : ∀ i < n, (e i).raw 0 ≠ 0x00
  terminator : (e n).raw 0 = 0x00

/-- The number of entries before the terminator that are not deleted. -/
def liveCount (e : ℕ → FatDirectoryItem) (n : ℕ) : ℕ :=
  (List.range n).countP fun i => !decide (e i).Deleted

/-- Some proper entry before the terminator has the name up to case. -/
def HasName (e : ℕ → FatDirectoryItem) (n : ℕ) (name : List UInt8) : Prop :=
  ∃ i < n, (e i).Proper ∧ fold (e i).fullRelativeFilename = fold name

/-- Looking up names in a loaded directory finds exactly the names of the directory. -/
def FindsNames (find : FatDirectory → List UInt8 → Option FatDirectoryItem)
    (directory : FatDirectory) (e : ℕ → FatDirectoryItem) (n : ℕ) : Prop :=
  ∀ name : List UInt8, 0 ∉ name → ((find directory name).isSome ↔ HasName e n name)

/-- No deleted entry stands before one that is not, and the name of every label is also
the name of a proper entry. -/
structure Tidy16 (e : ℕ → FatDirectoryItem) (n : ℕ) : Prop where
  deleted_last : ∀ i j, i < j → j < n → ¬ (e j).Deleted → ¬ (e i).Deleted
  label_named : ∀ i < n, ¬ (e i).Deleted → (e i).Label →
    ∃ j < n, (e j).Proper ∧ (e i).SameName (e j)

/-- Among the first entries, as many as there are entries not deleted, every deleted one is
marked as a label, and every proper entry behind them has the name of one of them. -/
structure Tidy32 (e : ℕ → FatDirectoryItem) (n : ℕ) : Prop where
  deleted_label : ∀ i < liveCount e n, (e i).Deleted → (e i).Label
  named_before : ∀ i < n, liveCount e n ≤ i → (e i).Proper →
    ∃ j < liveCount e n, (e j).Proper ∧ (e i).SameName (e j)

/-! ## Counting -/

lemma liveCount_le (e : ℕ → FatDirectoryItem) (n : ℕ) : liveCount e n ≤ n := by
  have := List.countP_le_length (p := fun i => !decide (e i).Deleted) (l := List.range n)
  rwa [List.length_range] at this

lemma liveCount_succ (e : ℕ → FatDirectoryItem) (n : ℕ) :
    liveCount e (n + 1) = liveCount e n + if (e n).Deleted then 0 else 1 := by
  rw [liveCount, List.range_succ, List.countP_append, List.countP_singleton, ← liveCount]
  by_cases h : (e n).Deleted
  · simp [h]
  · simp [h]

/-- When the first entries, as many as are not deleted, are not deleted, they are all the
entries that are not deleted. -/
lemma lt_liveCount_of_not_deleted {e : ℕ → FatDirectoryItem} :
    ∀ {n : ℕ}, (∀ i < liveCount e n, ¬ (e i).Deleted) →
      ∀ j < n, ¬ (e j).Deleted → j < liveCount e n := by
  intro n
  induction n with
  | zero => exact fun _ j hj => absurd hj (by omega)
  | succ n ih =>
    intro h j hj hlive
    have hle := liveCount_le e n
    rw [liveCount_succ] at h ⊢
    by_cases hn : (e n).Deleted
    · rw [if_pos hn, Nat.add_zero] at h ⊢
      refine ih h j ?_ hlive
      rcases Nat.lt_succ_iff_lt_or_eq.mp hj with hj | rfl
      · exact hj
      · exact absurd hn hlive
    · rw [if_neg hn] at h ⊢
      have hrest := ih fun i hi => h i (by omega)
      -- the entry `n` is live, so the live ones are the first ones and `n` follows them
      have hall : liveCount e n = n := by
        by_contra hne
        have hdel : ¬ (e (liveCount e n)).Deleted := h _ (by omega)
        exact absurd (hrest (liveCount e n) (by omega) hdel) (by omega)
      omega

/-- When deleted entries come last, the entries that are not deleted are the first ones. -/
lemma not_deleted_of_lt_liveCount {e : ℕ → FatDirectoryItem} :
    ∀ {n : ℕ}, (∀ i j, i < j → j < n → ¬ (e j).Deleted → ¬ (e i).Deleted) →
      ∀ i < liveCount e n, ¬ (e i).Deleted := by
  intro n
  induction n with
  | zero => exact fun _ i hi => absurd hi (by simp [liveCount])
  | succ n ih =>
    intro h i hi
    have hle := liveCount_le e n
    rw [liveCount_succ] at hi
    by_cases hn : (e n).Deleted
    · rw [if_pos hn, Nat.add_zero] at hi
      exact ih (fun i j hij hj => h i j hij (by omega)) i hi
    · rcases Nat.lt_or_ge i n with hin | hin
      · exact h i n hin (by omega) hn
      · obtain rfl : i = n := by
          rw [if_neg hn] at hi
          omega
        exact hn

/-- The first bytes of the entries at a position of the volume. -/
def EntriesAt (disk : Disk) (pos : ℕ) (e : ℕ → FatDirectoryItem) (n : ℕ) : Prop :=
  ∀ i ≤ n, disk.byte (pos + i * itemSize) = (e i).raw 0

/-- The first pass counts the entries that are not deleted. -/
lemma totalItemsLoop_eq {disk : Disk} (hf : ∀ lba, disk.readFault lba = false) {pos n : ℕ}
    {e : ℕ → FatDirectoryItem} (hat : EntriesAt disk pos e n) (hterm : Terminated e n) :
    ∀ m i : ℕ, i + m = n → ∀ c : ℤ, totalItemsLoop disk ((pos + i * itemSize : ℕ) : ℤ) c =
      some (c + (liveCount e n - liveCount e i)) := by
  intro m
  induction m with
  | zero =>
    intro i hi c
    obtain rfl : i = n := by omega
    rw [totalItemsLoop_step, diskstreamerRead_of_readable hf]
    have hhead : (slice disk.byte (pos + i * itemSize) itemSize).headD 0 = 0x00 := by
      rw [← hterm.terminator, ← hat i (le_refl _)]
      rfl
    simp only [ne_eq, not_true_eq_false, if_false, if_pos hhead]
    simp
  | succ m ih =>
    intro i hi c
    have hlt : i < n := by omega
    rw [totalItemsLoop_step, diskstreamerRead_of_readable hf]
    have hhead : (slice disk.byte (pos + i * itemSize) itemSize).headD 0 = (e i).raw 0 := by
      rw [← hat i (by omega)]
      rfl
    have hnext : pos + i * itemSize + itemSize = pos + (i + 1) * itemSize := by ring
    have hsucc := liveCount_succ e i
    simp only [ne_eq, not_true_eq_false, if_false, hhead, if_neg (hterm.used i hlt), hnext]
    by_cases hdel : (e i).Deleted
    · have hE5 : (e i).raw 0 = 0xE5 := hdel
      rw [if_pos hE5, ih (i + 1) (by omega), hsucc, if_pos hdel, Nat.add_zero]
    · have hE5 : ¬ (e i).raw 0 = 0xE5 := hdel
      rw [if_neg hE5, ih (i + 1) (by omega), hsucc, if_neg hdel]
      push_cast
      congr 1
      ring

lemma getTotalItemsForDirectory_eq {v : FatVolume} {disk : Disk}
    (hf : ∀ lba, disk.readFault lba = false) {sector n : ℕ} {e : ℕ → FatDirectoryItem}
    (hlt : sector * v.sectorSize < 2 ^ 31) (hat : EntriesAt disk (sector * v.sectorSize) e n)
    (hterm : Terminated e n) :
    getTotalItemsForDirectory v disk sector = some (liveCount e n : ℤ) := by
  have h := totalItemsLoop_eq hf hat hterm n 0 (by omega) 0
  rw [Nat.zero_mul, Nat.add_zero] at h
  rw [getTotalItemsForDirectory, ← Nat.cast_mul, i32_of_lt (by omega) (by omega), h]
  simp [liveCount]

/-! ## Looking up -/

lemma findItem_isSome_iff {skip : FatDirectoryItem → Bool} {directory : FatDirectory}
    {name : List UInt8} (hname : 0 ∉ name) :
    (findItem skip directory name).isSome ↔ ∃ i < directory.total.toNat,
      skip (directory.item i) = false ∧
        fold (directory.item i).fullRelativeFilename = fold name := by
  have hcmp : ∀ item : FatDirectoryItem, istrncmp item.fullRelativeFilename name maxPath = 0 ↔
      fold item.fullRelativeFilename = fold name := by
    intro item
    refine istrncmp_eq_zero_iff_of_lt item.zero_notMem_fullRelativeFilename hname ?_
    exact lt_of_le_of_lt item.length_fullRelativeFilename_le (by decide)
  simp only [findItem, List.find?_isSome, List.mem_map, List.mem_range, Bool.and_eq_true,
    Bool.not_eq_true', beq_iff_eq, hcmp]
  constructor
  · rintro ⟨-, ⟨i, hi, rfl⟩, h⟩
    exact ⟨i, hi, h⟩
  · rintro ⟨i, hi, h⟩
    exact ⟨_, ⟨i, hi, rfl⟩, h⟩

/-- Searching the first entries without skipping any finds the right names exactly in tidy
directories. -/
lemma finds_iff_tidy16 (e : ℕ → FatDirectoryItem) (n : ℕ) :
    (∀ name : List UInt8, 0 ∉ name →
        ((∃ i < liveCount e n, fold (e i).fullRelativeFilename = fold name) ↔
          HasName e n name)) ↔ Tidy16 e n := by
  have hle := liveCount_le e n
  constructor
  · intro h
    -- each of the first entries has the name of a proper entry
    have hnamed : ∀ i < liveCount e n, ∃ j < n, (e j).Proper ∧ (e i).SameName (e j) := by
      intro i hi
      obtain ⟨j, hj, hproper, hsame⟩ :=
        (h _ (e i).zero_notMem_fullRelativeFilename).mp ⟨i, hi, rfl⟩
      exact ⟨j, hj, hproper, hsame.symm⟩
    have hlive : ∀ i < liveCount e n, ¬ (e i).Deleted := by
      intro i hi hdel
      obtain ⟨j, -, hproper, hsame⟩ := hnamed i hi
      exact hdel.not_sameName hproper.1 hsame
    have hfirst := lt_liveCount_of_not_deleted hlive
    exact ⟨fun i j hij hj hjl => hlive i (hij.trans (hfirst j hj hjl)),
      fun i hi hil _ => hnamed i (hfirst i hi hil)⟩
  · intro h name _
    have hlive := not_deleted_of_lt_liveCount h.deleted_last
    constructor
    · rintro ⟨i, hi, hsame⟩
      by_cases hlabel : (e i).Label
      · obtain ⟨j, hj, hproper, hij⟩ := h.label_named i (by omega) (hlive i hi) hlabel
        exact ⟨j, hj, hproper, hij.symm.trans hsame⟩
      · exact ⟨i, by omega, ⟨hlive i hi, hlabel⟩, hsame⟩
    · rintro ⟨i, hi, hproper, hsame⟩
      exact ⟨i, lt_liveCount_of_not_deleted hlive i hi hproper.1, hsame⟩

/-- Searching the first entries past the labels. -/
lemma finds_iff_tidy32 (e : ℕ → FatDirectoryItem) (n : ℕ) :
    (∀ name : List UInt8, 0 ∉ name →
        ((∃ i < liveCount e n, ¬ (e i).Label ∧ fold (e i).fullRelativeFilename = fold name) ↔
          HasName e n name)) ↔ Tidy32 e n := by
  have hle := liveCount_le e n
  constructor
  · intro h
    have hdel : ∀ i < liveCount e n, (e i).Deleted → (e i).Label := by
      intro i hi hdel
      by_contra hlabel
      obtain ⟨j, -, hproper, hsame⟩ :=
        (h _ (e i).zero_notMem_fullRelativeFilename).mp ⟨i, hi, hlabel, rfl⟩
      exact hdel.not_sameName hproper.1 hsame.symm
    refine ⟨hdel, fun i hi _ hproper => ?_⟩
    obtain ⟨j, hj, hlabel, hsame⟩ :=
      (h _ (e i).zero_notMem_fullRelativeFilename).mpr ⟨i, hi, hproper, rfl⟩
    exact ⟨j, hj, ⟨fun hc => hlabel (hdel j hj hc), hlabel⟩, hsame.symm⟩
  · intro h name _
    constructor
    · rintro ⟨i, hi, hlabel, hsame⟩
      exact ⟨i, by omega, ⟨fun hc => hlabel (h.deleted_label i hi hc), hlabel⟩, hsame⟩
    · rintro ⟨i, hi, hproper, hsame⟩
      rcases Nat.lt_or_ge i (liveCount e n) with hlt | hge
      · exact ⟨i, hlt, hproper.2, hsame⟩
      · obtain ⟨j, hj, hjp, hij⟩ := h.named_before i hi hge hproper
        exact ⟨j, hj, hjp.2, hij.symm.trans hsame⟩

/-- A directory that was loaded with its first entries. -/
structure LoadedFrom (directory : FatDirectory) (e : ℕ → FatDirectoryItem) (n : ℕ) : Prop where
  total_eq : directory.total = liveCount e n
  raw_eq : ∀ i < liveCount e n, ∀ j < itemSize, (directory.item i).raw j = (e i).raw j

/-- The name and the kind of an entry depend on its first 12 bytes. -/
lemma fullRelativeFilename_congr {e f : FatDirectoryItem} (h : ∀ j < 12, e.raw j = f.raw j) :
    e.fullRelativeFilename = f.fullRelativeFilename ∧ (e.Label ↔ f.Label) := by
  have hslice : ∀ a n, a + n ≤ 12 → slice e.raw a n = slice f.raw a n := by
    intro a n han
    rw [slice_eq_iff]
    exact fun i hi => h (a + i) (by omega)
  have h8 : e.raw 8 = f.raw 8 := h 8 (by decide)
  have h11 : e.raw 11 = f.raw 11 := h 11 (by decide)
  constructor
  · rw [FatDirectoryItem.fullRelativeFilename, FatDirectoryItem.fullRelativeFilename,
      FatDirectoryItem.filename, FatDirectoryItem.filename, FatDirectoryItem.ext,
      FatDirectoryItem.ext, hslice 0 8 (by decide), hslice 8 3 (by decide), h8]
  · rw [FatDirectoryItem.Label, FatDirectoryItem.Label, FatDirectoryItem.attributeBits,
      FatDirectoryItem.attributeBits, h11]

lemma LoadedFrom.raw_eq_of_lt {directory : FatDirectory} {e : ℕ → FatDirectoryItem} {n i : ℕ}
    (h : LoadedFrom directory e n) (hi : i < liveCount e n) :
    ∀ j < 12, (directory.item i).raw j = (e i).raw j :=
  fun j hj => h.raw_eq i hi j (hj.trans (by decide))

lemma LoadedFrom.finds16_iff {directory : FatDirectory} {e : ℕ → FatDirectoryItem} {n : ℕ}
    (h : LoadedFrom directory e n) :
    FindsNames fat16FindItemInDirectory directory e n ↔ Tidy16 e n := by
  rw [← finds_iff_tidy16]
  refine forall₂_congr fun name hname => ?_
  rw [fat16FindItemInDirectory, FatKind.findItemInDirectory, findItem_isSome_iff hname,
    h.total_eq, Int.toNat_natCast]
  refine iff_congr (exists_congr fun i => and_congr_right fun hi => ?_) Iff.rfl
  rw [(fullRelativeFilename_congr (h.raw_eq_of_lt hi)).1]
  simp [fat16]

lemma LoadedFrom.finds32_iff {directory : FatDirectory} {e : ℕ → FatDirectoryItem} {n : ℕ}
    (h : LoadedFrom directory e n) :
    FindsNames fat32FindItemInDirectory directory e n ↔ Tidy32 e n := by
  rw [← finds_iff_tidy32]
  refine forall₂_congr fun name hname => ?_
  rw [fat32FindItemInDirectory, FatKind.findItemInDirectory, findItem_isSome_iff hname,
    h.total_eq, Int.toNat_natCast]
  refine iff_congr (exists_congr fun i => and_congr_right fun hi => ?_) Iff.rfl
  have hcongr := fullRelativeFilename_congr (h.raw_eq_of_lt hi)
  have hskips : fat32.skipsLabels = true := rfl
  rw [hcongr.1, hskips, Bool.true_and, decide_eq_false_iff_not, hcongr.2]

/-! ## Loading -/

/-- The entries in a sequence of bytes. -/
def entriesIn (byte : ℕ → UInt8) (i : ℕ) : FatDirectoryItem := ⟨fun j => byte (i * itemSize + j)⟩

/-- The entries of the FAT16 root directory on the volume. -/
def rootEntries (v : FatVolume) (disk : Disk) : ℕ → FatDirectoryItem :=
  entriesIn fun a => disk.byte (fat16RootSector v * v.sectorSize + a)

/-- The entries of a directory in the clusters of a chain. -/
def FatKind.chainEntries (k : FatKind) (v : FatVolume) (disk : Disk) (chain : List ℕ) :
    ℕ → FatDirectoryItem :=
  entriesIn (k.contentByte v disk chain)

/-- The directory loads, and looking up names in it finds exactly the names of the
directory. -/
def LooksUp (load : Option (Except ℤ FatDirectory))
    (find : FatDirectory → List UInt8 → Option FatDirectoryItem) (e : ℕ → FatDirectoryItem)
    (n : ℕ) : Prop :=
  ∃ directory, load = some (.ok directory) ∧ FindsNames find directory e n

lemma looksUp_ok_iff {load : Option (Except ℤ FatDirectory)} {directory : FatDirectory}
    (hload : load = some (.ok directory))
    {find : FatDirectory → List UInt8 → Option FatDirectoryItem} {e : ℕ → FatDirectoryItem}
    {n : ℕ} : LooksUp load find e n ↔ FindsNames find directory e n := by
  constructor
  · rintro ⟨directory', hload', h⟩
    obtain rfl : directory = directory' :=
      Except.ok.inj (Option.some.inj (hload.symm.trans hload'))
    exact h
  · exact fun h => ⟨directory, hload, h⟩

/-- The entries read as a slice of a sequence of bytes are the entries in it. -/
lemma itemsOf_slice {byte : ℕ → UInt8} {a size i j : ℕ} (h : i * itemSize + j < size) :
    (itemsOf (slice byte a size) i).raw j = (entriesIn (fun x => byte (a + x)) i).raw j := by
  simp only [itemsOf, entriesIn]
  rw [getD_slice h]

/-- A FAT16 root directory with a terminator within its region, below the position
`2 ^ 31`. -/
structure RootDirectory (v : FatVolume) (disk : Disk) (n : ℕ) : Prop where
  terminated : Terminated (rootEntries v disk) n
  within : n < v.rootDirEntries
  root_lt : fat16RootSector v * v.sectorSize < 2 ^ 31

lemma RootDirectory.load_eq {v : FatVolume} {disk : Disk} {n : ℕ} (h : RootDirectory v disk n)
    (hf : disk.FaultFree) : fat16GetRootDirectory v disk = some (.ok
      ⟨itemsOf (slice disk.byte (fat16RootSector v * v.sectorSize) (v.rootDirEntries * itemSize)),
        liveCount (rootEntries v disk) n, fat16RootSector v⟩) := by
  have hlt := h.root_lt
  have htotal : getTotalItemsForDirectory v disk (fat16RootSector v : ℕ) =
      some (liveCount (rootEntries v disk) n : ℤ) :=
    getTotalItemsForDirectory_eq hf.read_ok hlt (fun i _ => rfl) h.terminated
  have hread := diskstreamerRead_ok hf (fat16RootSector v * v.sectorSize)
    (v.rootDirEntries * itemSize)
  rw [fat16GetRootDirectory, htotal, ← Nat.cast_mul, i32_of_lt (by omega) (by omega), hread]
  rfl

lemma RootDirectory.load {v : FatVolume} {disk : Disk} {n : ℕ} (h : RootDirectory v disk n)
    (hf : disk.FaultFree) : ∃ directory, fat16GetRootDirectory v disk = some (.ok directory) ∧
      LoadedFrom directory (rootEntries v disk) n := by
  refine ⟨_, h.load_eq hf, rfl, fun i hi j hj => ?_⟩
  have hle := liveCount_le (rootEntries v disk) n
  have hin := h.within
  simp only [itemSize] at hj
  exact itemsOf_slice (by simp only [itemSize]; omega)

namespace FatKind

variable {k : FatKind} {v : FatVolume} {disk : Disk} {chain : List ℕ} {n first : ℕ}

/-- A directory in the clusters of a chain, with a terminator within them.  The first pass
does not follow the chain: it looks at the bytes that lie behind the first cluster, which
are those of the entries when the clusters lie next to each other up to the terminator. -/
structure ChainDirectory (k : FatKind) (v : FatVolume) (disk : Disk) (first : ℕ)
    (chain : List ℕ) (n : ℕ) : Prop where
  isChain : k.IsChain v disk chain
  first_eq : chain.head? = some first
  within : (n + 1) * itemSize ≤ chain.length * v.clusterBytes
  terminated : Terminated (k.chainEntries v disk chain) n
  contiguous : EntriesAt disk (k.dataPos v first) (k.chainEntries v disk chain) n

lemma ChainDirectory.chain_getD (h : k.ChainDirectory v disk first chain n) :
    chain.getD 0 0 = first := by
  have := h.first_eq
  cases chain with
  | nil => simp at this
  | cons c chain => simpa using this

lemma ChainDirectory.onVolume (h : k.ChainDirectory v disk first chain n) :
    k.OnVolume v first :=
  h.isChain.onVolume _ (List.mem_of_mem_head? h.first_eq)

/-- Reading from the beginning of a chain. -/
lemma IsChain.readInternal_zero (h : k.IsChain v disk chain) (hf : disk.FaultFree)
    {total : ℕ} (hne : 0 < chain.length) (hlen : total ≤ chain.length * v.clusterBytes)
    (hwalk : k.Walkable v chain 0 total) :
    k.readInternal v disk (chain.getD 0 0) 0 total =
      (0, slice (k.contentByte v disk chain) 0 total) := by
  have hB : 0 < v.clusterBytes := v.clusterBytes_pos
  rcases Nat.eq_zero_or_pos total with rfl | hpos
  · have hzero : 0 / v.clusterBytes < chain.length := by rwa [Nat.zero_div]
    obtain ⟨hcluster, hread⟩ := h.readStep hf (n := 0) hzero
      fun j hj hj' => absurd hj' (by rw [Nat.zero_div]; omega)
    rw [readInternal, readInternalLoop, hcluster]
    simp only [gt_iff_lt, Nat.not_lt_zero, if_false]
    rw [hread]
    rfl
  · rw [readInternal, h.readInternalLoop_eq hf (total + 1) 0 total hpos (Nat.lt_succ_self _)
      (by omega) hwalk]
    congr 1
    refine List.map_congr_left fun i _ => ?_
    rw [contentByte_add, if_neg]
    rw [Nat.zero_mod, Nat.zero_add]
    exact Nat.not_le.mpr (Nat.mod_lt i hB)

lemma ChainDirectory.total_eq (h : k.ChainDirectory v disk first chain n)
    (hf : disk.FaultFree) :
    getTotalItemsForDirectory v disk (k.clusterToSector v first) =
      some (liveCount (k.chainEntries v disk chain) n : ℤ) := by
  have h2 := h.onVolume.two_le
  have hlt := h.onVolume.data_lt
  have hsector : k.clusterToSector v first =
      ((k.dataSector v + (first - 2) * v.sectorsPerCluster : ℕ) : ℤ) := by
    rw [clusterToSector]
    push_cast [Nat.cast_sub h2]
    ring
  rw [hsector]
  exact getTotalItemsForDirectory_eq hf.read_ok (by rw [← dataPos]; omega) h.contiguous h.terminated

lemma ChainDirectory.live_le (h : k.ChainDirectory v disk first chain n) :
    liveCount (k.chainEntries v disk chain) n * itemSize ≤ chain.length * v.clusterBytes :=
  (Nat.mul_le_mul_right _ ((liveCount_le _ n).trans (Nat.le_succ n))).trans h.within

lemma ChainDirectory.length_pos (h : k.ChainDirectory v disk first chain n) :
    0 < chain.length := by
  have := h.first_eq
  cases chain with
  | nil => simp at this
  | cons c chain => exact Nat.succ_pos _

/-- A directory loads when its clusters can be walked. -/
lemma ChainDirectory.load (h : k.ChainDirectory v disk first chain n) (hf : disk.FaultFree)
    (hwalk : k.Walkable v chain 0 (liveCount (k.chainEntries v disk chain) n * itemSize)) :
    ∃ directory, k.loadDirectory v disk first = some (.ok directory) ∧
      LoadedFrom directory (k.chainEntries v disk chain) n := by
  have hread := h.isChain.readInternal_zero hf h.length_pos h.live_le hwalk
  rw [h.chain_getD] at hread
  refine ⟨⟨itemsOf (slice (k.contentByte v disk chain) 0
    (liveCount (k.chainEntries v disk chain) n * itemSize)),
    liveCount (k.chainEntries v disk chain) n, k.clusterToSector v first⟩, ?_, rfl, ?_⟩
  · rw [loadDirectory, h.total_eq hf]
    simp only [Option.bind_eq_bind, Option.bind_some, Int.toNat_natCast, hread]
    rfl
  · intro i hi j hj
    have hsucc : (i + 1) * itemSize ≤ liveCount (k.chainEntries v disk chain) n * itemSize :=
      Nat.mul_le_mul_right _ hi
    rw [Nat.succ_mul] at hsucc
    rw [itemsOf_slice (by omega)]
    simp only [Nat.zero_add]
    rfl

/-- Reading inside one cluster. -/
lemma readInternal_within {cluster pos size : ℕ} (h : ∀ lba, disk.readFault lba = false)
    (hpos : i32 (k.clusterPos v cluster) = pos) (hle : size ≤ v.clusterBytes) :
    k.readInternal v disk cluster 0 size = (0, slice disk.byte pos size) := by
  have hstart : k.getClusterForOffset v disk cluster 0 = cluster := by
    rw [getClusterForOffset, Nat.zero_div]
    rfl
  rw [readInternal, readInternalLoop]
  simp only [hstart, Nat.zero_mod, Nat.cast_zero, add_zero, hpos, diskstreamerRead_of_readable h]
  rw [if_neg (by omega), if_neg (not_lt.mpr hle), if_neg (not_not.mpr rfl), if_neg (by omega)]

/-- A directory inside its first cluster is loaded. -/
lemma loadDirectory_within {cluster sector : ℕ} {e : ℕ → FatDirectoryItem}
    (h : ∀ lba, disk.readFault lba = false) (hsector : k.clusterToSector v cluster = sector)
    (hlt : sector * v.sectorSize < 2 ^ 31) (hat : EntriesAt disk (sector * v.sectorSize) e n)
    (hterm : Terminated e n) (hle : liveCount e n * itemSize ≤ v.clusterBytes) :
    k.loadDirectory v disk cluster = some (.ok
      ⟨itemsOf (slice disk.byte (sector * v.sectorSize) (liveCount e n * itemSize)),
        liveCount e n, sector⟩) := by
  have htotal := getTotalItemsForDirectory_eq h hlt hat hterm
  have hpos : i32 (k.clusterPos v cluster) = (sector * v.sectorSize : ℕ) := by
    rw [clusterPos, hsector, ← Nat.cast_mul]
    exact i32_of_lt (by omega) (by omega)
  rw [loadDirectory]
  simp only [hsector, htotal, Option.bind_eq_bind, Option.bind_some, Int.toNat_natCast,
    readInternal_within h hpos hle]
  rfl

/-- A directory whose clusters cannot be walked does not load. -/
lemma ChainDirectory.not_load (h : k.ChainDirectory v disk first chain n) (hf : disk.FaultFree)
    (hwalk : ¬ k.Walkable v chain 0 (liveCount (k.chainEntries v disk chain) n * itemSize)) :
    ∃ res, k.loadDirectory v disk first = some (.error res) := by
  have hpos : 0 < liveCount (k.chainEntries v disk chain) n * itemSize := by
    by_contra hzero
    refine hwalk fun j hj hj' => ?_
    rw [Nat.eq_zero_of_not_pos hzero, Nat.zero_sub, Nat.zero_div] at hj'
    omega
  have hneg := h.isChain.readInternalLoop_stops hf _ 0 _ hpos (Nat.lt_succ_self _)
    (by have := h.live_le; omega) hwalk
  rw [h.chain_getD, ← readInternal] at hneg
  refine ⟨(k.readInternal v disk first 0
    (liveCount (k.chainEntries v disk chain) n * itemSize)).1, ?_⟩
  rw [loadDirectory, h.total_eq hf]
  simp only [Option.bind_eq_bind, Option.bind_some, Int.toNat_natCast]
  rw [if_pos (by omega)]
  rfl

/-- A directory with its clusters looks up names when it loads and its entries are tidy. -/
lemma ChainDirectory.looksUp_iff (h : k.ChainDirectory v disk first chain n)
    (hf : disk.FaultFree) {find : FatDirectory → List UInt8 → Option FatDirectoryItem}
    {tidy : Prop} (hfind : ∀ directory, LoadedFrom directory (k.chainEntries v disk chain) n →
      (FindsNames find directory (k.chainEntries v disk chain) n ↔ tidy)) :
    LooksUp (k.loadDirectory v disk first) find (k.chainEntries v disk chain) n ↔
      k.Walkable v chain 0 (liveCount (k.chainEntries v disk chain) n * itemSize) ∧ tidy := by
  by_cases hwalk : k.Walkable v chain 0 (liveCount (k.chainEntries v disk chain) n * itemSize)
  · obtain ⟨directory, hload, hfrom⟩ := h.load hf hwalk
    rw [looksUp_ok_iff hload, hfind directory hfrom]
    exact ⟨fun ht => ⟨hwalk, ht⟩, fun ht => ht.2⟩
  · obtain ⟨res, herror⟩ := h.not_load hf hwalk
    constructor
    · rintro ⟨directory, hload, -⟩
      exact absurd (Option.some.inj (herror.symm.trans hload)) (by simp)
    · exact fun ht => absurd ht.1 hwalk

/-- A FAT32 directory can always be walked. -/
lemma ChainDirectory.walkable_fat32 (h : fat32.ChainDirectory v disk first chain n) :
    fat32.Walkable v chain 0 (liveCount (fat32.chainEntries v disk chain) n * itemSize) := by
  rcases Nat.eq_zero_or_pos (liveCount (fat32.chainEntries v disk chain) n * itemSize)
    with hzero | hpos
  · intro j hj hj'
    rw [hzero, Nat.zero_sub, Nat.zero_div] at hj'
    omega
  · exact h.isChain.walkable_fat32 hpos (by have := h.live_le; omega)

end FatKind

/-- **Looking up names.**  On a volume without faults, for every directory with a
terminator in its region, whose clusters lie next to each other up to the terminator:
loading the directory and looking up a name finds an entry exactly when a proper entry has
the name, for all names, if and only if

* in the FAT16 root directory no deleted entry stands before one that is not, and the name
  of every label is the name of a proper entry;
* in another FAT16 directory moreover none of the clusters to read has one of the numbers
  that the driver takes for a special value;
* in a FAT32 directory with `m` entries that are not deleted, the deleted ones among the
  first `m` are marked as labels, and every proper entry behind them has the name of one of
  them. -/
theorem directory_looksUp_iff (v : FatVolume) {disk : Disk} (hf : disk.FaultFree) :
    (∀ n, RootDirectory v disk n →
      (LooksUp (fat16GetRootDirectory v disk) fat16FindItemInDirectory (rootEntries v disk) n ↔
        Tidy16 (rootEntries v disk) n)) ∧
    (∀ item chain n, item.attributeBits &&& fatFileSubdirectory ≠ 0 →
      fat16.ChainDirectory v disk item.firstCluster chain n →
      (LooksUp (fat16LoadFatDirectory v disk item) fat16FindItemInDirectory
          (fat16.chainEntries v disk chain) n ↔
        fat16.Walkable v chain 0 (liveCount (fat16.chainEntries v disk chain) n * itemSize) ∧
          Tidy16 (fat16.chainEntries v disk chain) n)) ∧
    (∀ chain n, fat32.ChainDirectory v disk v.rootCluster chain n →
      (LooksUp (fat32LoadRootDir v disk) fat32FindItemInDirectory
          (fat32.chainEntries v disk chain) n ↔
        Tidy32 (fat32.chainEntries v disk chain) n)) ∧
    (∀ item chain n, item.attributeBits &&& fatFileSubdirectory ≠ 0 →
      fat32.ChainDirectory v disk item.firstCluster chain n →
      (LooksUp (fat32LoadFatDirectory v disk item) fat32FindItemInDirectory
          (fat32.chainEntries v disk chain) n ↔
        Tidy32 (fat32.chainEntries v disk chain) n)) := by
  have h32 : ∀ first chain n, fat32.ChainDirectory v disk first chain n →
      (LooksUp (fat32.loadDirectory v disk first) fat32FindItemInDirectory
          (fat32.chainEntries v disk chain) n ↔
        Tidy32 (fat32.chainEntries v disk chain) n) := by
    intro first chain n h
    rw [h.looksUp_iff hf fun directory hfrom => hfrom.finds32_iff]
    exact ⟨fun ht => ht.2, fun ht => ⟨h.walkable_fat32, ht⟩⟩
  refine ⟨fun n h => ?_, fun item chain n hsub h => ?_, fun chain n h => h32 _ _ _ h,
    fun item chain n hsub h => ?_⟩
  · obtain ⟨directory, hload, hfrom⟩ := h.load hf
    rw [looksUp_ok_iff hload, hfrom.finds16_iff]
  · rw [fat16LoadFatDirectory, FatKind.loadFatDirectory, if_neg hsub,
      FatDirectoryItem.firstClusterInt, h.onVolume.i32_eq]
    exact h.looksUp_iff hf fun directory hfrom => hfrom.finds16_iff
  · rw [fat32LoadFatDirectory, FatKind.loadFatDirectory, if_neg hsub,
      FatDirectoryItem.firstClusterInt, h.onVolume.i32_eq]
    exact h32 _ _ _ h

/-! ## Directories with few entries -/

/-- A directory with the file `A` at two places: the FAT16 root directory, which is also
FAT32 cluster 2, and FAT16 cluster 2, which is also FAT32 cluster 3. -/
def oneFileDisk : Disk :=
  diskWith fun a =>
    if a = 516 ∨ a = 517 ∨ (520 ≤ a ∧ a < 523) ∨ (524 ≤ a ∧ a < 527) then 0xFF
    else if a = 523 ∨ a = 527 then 0x0F
    else if a = 1024 ∨ a = 1536 then 0x41
    else 0

/-- The item of a subdirectory that starts with a cluster. -/
def subdirectoryItem (cluster : UInt8) : FatDirectoryItem :=
  ⟨fun i => if i = 11 then 0x10 else if i = 26 then cluster else 0⟩

/-- A chain of one cluster. -/
lemma isChain_singleton {k : FatKind} {v : FatVolume} {disk : Disk} {a : ℕ}
    (ha : k.OnVolume v a) (hlast : k.endOfChain ≤ k.fatEntry v disk a) :
    k.IsChain v disk [a] := by
  refine ⟨List.nodup_singleton a, ?_, ?_, ?_⟩
  · intro c hc
    obtain rfl := List.mem_singleton.mp hc
    exact ha
  · intro i hi
    simp at hi
  · intro i hi
    obtain rfl : i = 0 := by simpa using hi
    exact hlast

theorem directory_looksUp_iff_oneFile :
    LooksUp (fat16GetRootDirectory smallVolume oneFileDisk) fat16FindItemInDirectory
        (rootEntries smallVolume oneFileDisk) 1 ∧
      LooksUp (fat16LoadFatDirectory smallVolume oneFileDisk (subdirectoryItem 2))
        fat16FindItemInDirectory (fat16.chainEntries smallVolume oneFileDisk [2]) 1 ∧
      LooksUp (fat32LoadRootDir smallVolume oneFileDisk) fat32FindItemInDirectory
        (fat32.chainEntries smallVolume oneFileDisk [2]) 1 ∧
      LooksUp (fat32LoadFatDirectory smallVolume oneFileDisk (subdirectoryItem 3))
        fat32FindItemInDirectory (fat32.chainEntries smallVolume oneFileDisk [3]) 1 := by
  -- a directory with one live entry is tidy
  have tidy16 : ∀ e : ℕ → FatDirectoryItem, ¬ (e 0).Label → Tidy16 e 1 := by
    intro e hlabel
    refine ⟨fun i j hij hj => absurd hij (by omega), fun i hi _ hl => ?_⟩
    obtain rfl : i = 0 := by omega
    exact absurd hl hlabel
  have tidy32 : ∀ e : ℕ → FatDirectoryItem, ¬ (e 0).Deleted → Tidy32 e 1 := by
    intro e hdel
    have hone : liveCount e 1 = 1 := by simp [liveCount, hdel]
    refine ⟨fun i hi hd => ?_, fun i hi hi' => absurd hi (by omega)⟩
    obtain rfl : i = 0 := by omega
    exact absurd hd hdel
  -- the four directories
  have hterm : ∀ e : ℕ → FatDirectoryItem, (e 0).raw 0 = 0x41 → (e 1).raw 0 = 0x00 →
      Terminated e 1 := by
    intro e h0 h1
    refine ⟨fun i hi => ?_, h1⟩
    obtain rfl : i = 0 := by omega
    rw [h0]
    decide
  have hchain : ∀ (k : FatKind) (c : ℕ), k.OnVolume smallVolume c →
      k.endOfChain ≤ k.fatEntry smallVolume oneFileDisk c →
      oneFileDisk.byte (k.dataPos smallVolume c + 0 * itemSize) = 0x41 →
      oneFileDisk.byte (k.dataPos smallVolume c + 1 * itemSize) = 0x00 →
      k.ChainDirectory smallVolume oneFileDisk c [c] 1 := by
    intro k c hon hlast h0 h1
    have hB : smallVolume.clusterBytes = 512 := by decide
    have hat : ∀ i ≤ 1, oneFileDisk.byte (k.dataPos smallVolume c + i * itemSize) =
        (k.chainEntries smallVolume oneFileDisk [c] i).raw 0 := by
      intro i hi
      have hlt : i * itemSize + 0 < smallVolume.clusterBytes := by
        rw [hB, itemSize]
        omega
      simp only [FatKind.chainEntries, entriesIn, FatKind.contentByte, Nat.div_eq_of_lt hlt,
        Nat.mod_eq_of_lt hlt]
      rfl
    have hwithin : (1 + 1) * itemSize ≤ 1 * smallVolume.clusterBytes := by decide
    exact ⟨isChain_singleton hon hlast, rfl, hwithin,
      hterm _ ((hat 0 (by omega)).symm.trans h0) ((hat 1 (by omega)).symm.trans h1), hat⟩
  have hfault : oneFileDisk.FaultFree := diskWith_faultFree _
  obtain ⟨h1, h2, h3, h4⟩ := directory_looksUp_iff smallVolume hfault
  have hon16 : fat16.OnVolume smallVolume 2 := ⟨by decide, by decide, by decide, by decide⟩
  have hon32 : fat32.OnVolume smallVolume 2 := ⟨by decide, by decide, by decide, by decide⟩
  have hon32' : fat32.OnVolume smallVolume 3 := ⟨by decide, by decide, by decide, by decide⟩
  refine ⟨?_, ?_, ?_, ?_⟩
  · refine (h1 1 ⟨hterm _ (by decide) (by decide), by decide, by decide⟩).mpr ?_
    exact tidy16 _ (by decide)
  · refine (h2 (subdirectoryItem 2) [2] 1 (by decide)
      (hchain _ _ hon16 (by decide) (by decide) (by decide))).mpr
        ⟨fun j hj hj' => ?_, tidy16 _ (by decide)⟩
    have hzero : (liveCount (fat16.chainEntries smallVolume oneFileDisk [2]) 1 * itemSize - 1) /
        smallVolume.clusterBytes = 0 := by decide
    rw [hzero, Nat.zero_div] at hj'
    omega
  · exact (h3 [2] 1 (hchain _ _ hon32 (by decide) (by decide) (by decide))).mpr
      (tidy32 _ (by decide))
  · exact (h4 (subdirectoryItem 3) [3] 1 (by decide)
      (hchain _ _ hon32' (by decide) (by decide) (by decide))).mpr (tidy32 _ (by decide))

/-- A FAT16 root directory with a deleted entry and the file `A` behind it. -/
def deletedFirstDisk : Disk :=
  diskWith fun a => if a = 1024 then 0xE5 else if a = 1056 then 0x41 else 0

/-- One entry is counted and the first one is read, so that the file is not found. -/
theorem not_directory_looksUp_deletedFirst :
    RootDirectory smallVolume deletedFirstDisk 2 ∧
      HasName (rootEntries smallVolume deletedFirstDisk) 2 [0x41] ∧
      ¬ LooksUp (fat16GetRootDirectory smallVolume deletedFirstDisk) fat16FindItemInDirectory
        (rootEntries smallVolume deletedFirstDisk) 2 := by
  have hroot : RootDirectory smallVolume deletedFirstDisk 2 :=
    ⟨⟨by decide, by decide⟩, by decide, by decide⟩
  refine ⟨hroot, ⟨1, by decide, by decide, by decide⟩, ?_⟩
  obtain ⟨directory, hload, hfrom⟩ := hroot.load (diskWith_faultFree _)
  rw [looksUp_ok_iff hload, hfrom.finds16_iff]
  intro htidy
  exact htidy.deleted_last 0 1 (by decide) (by decide) (by decide) (by decide)

end SerpaeOS
