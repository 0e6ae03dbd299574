import SerpaeOS.Fs.Fat.Open

/-!
# The memory of an open file

Which blocks the functions of `SerpaeOS.Fs.Fat.Open` hold when they return.  The directories
on the way to a file are loaded and freed one after the other; what an open file keeps is its
descriptor, its item and the copy of the directory entry.  `FileAt` says that a path leads to
a file, and how many blocks the search takes.
-/

namespace SerpaeOS

open BlockTable Bytes Word Prog

/-! ## Paths to files -/

/-- The number of blocks of the items of a directory. -/
def FatDirectory.blocks (d : FatDirectory) : ℕ := blocksFor (d.total.toNat * itemSize)

/-- The names lead from a directory to a file.  The number counts the blocks of the items and
the directories that are found on the way. -/
inductive FileAt (mt : FatMount) :
    FatDirectory → List (List UInt8) → FatDirectoryItem → ℕ → Prop
  | file {d : FatDirectory} {name : List UInt8} {item : FatDirectoryItem}
      (hfind : mt.kind.findItemInDirectory d name = some item)
      (hfile : ¬ item.attributeBits &&& fatFileSubdirectory ≠ 0) : FileAt mt d [name] item 2
  | sub {d d' : FatDirectory} {name : List UInt8} {rest : List (List UInt8)}
      {sub item : FatDirectoryItem} {b : ℕ}
      (hfind : mt.kind.findItemInDirectory d name = some sub)
      (hsub : sub.attributeBits &&& fatFileSubdirectory ≠ 0)
      (hload : mt.kind.loadFatDirectory mt.volume mt.disk sub = some (.ok d'))
      (hrest : FileAt mt d' rest item b) : FileAt mt d (name :: rest) item (b + (2 + d'.blocks))

variable {mt : FatMount} {d : FatDirectory} {names : List (List UInt8)} {item : FatDirectoryItem}
  {b : ℕ}

lemma FileAt.ne_nil (h : FileAt mt d names item b) : names ≠ [] := by
  cases h with
  | file => simp
  | sub => simp

/-- A directory in which a name is found has items. -/
lemma FatKind.total_pos_of_find {k : FatKind} {name : List UInt8}
    (h : k.findItemInDirectory d name = some item) : 0 < d.total := by
  have hmem := List.mem_of_find?_eq_some h
  obtain ⟨i, hi, -⟩ := List.mem_map.mp hmem
  have := List.mem_range.mp hi
  omega

/-- A path of one name leads to what is found for the name. -/
lemma FileAt.find {name : List UInt8} (h : FileAt mt d [name] item b) :
    mt.kind.findItemInDirectory d name = some item := by
  cases h with
  | file hfind => exact hfind
  | sub _ _ _ hrest => exact absurd rfl hrest.ne_nil

lemma FileAt.total_pos (h : FileAt mt d names item b) : 0 < d.total := by
  cases h with
  | file hfind => exact FatKind.total_pos_of_find hfind
  | sub hfind => exact FatKind.total_pos_of_find hfind

/-- The entry of a name that is found is also found when it is written. -/
lemma entryIndex_isSome {k : FatKind} {name : List UInt8} (hname : 0 ∉ name)
    (h : k.findItemInDirectory d name = some item) :
    ∃ i, FatKind.entryIndex d name = some i := by
  obtain ⟨j, hfind, -⟩ := FatKind.findItem_iff.mp h
  obtain ⟨i, -, hfirst⟩ := hfind.exists_firstNamed
  exact ⟨i, hfirst.entryIndex_eq hname⟩

/-! ## A search that finds a file -/

/-- A directory that was loaded into memory is the one on the disk. -/
lemma FatMount.load_of_loaded {item : FatDirectoryItem} {m m' : KMemory} {p q : Ptr}
    (hsub : item.attributeBits &&& fatFileSubdirectory ≠ 0)
    (h : mt.loadFatDirectory item m = some (.loaded p q d, m')) :
    mt.kind.loadFatDirectory mt.volume mt.disk item = some (.ok d) := by
  obtain ⟨p', m₁, -, h⟩ := bind_eq_some h
  split_ifs at h with hp
  · cases pure_eq_some h
  rcases htotal : getTotalItemsForDirectory mt.volume mt.disk
    (mt.kind.clusterToSector mt.volume item.firstClusterInt) with _ | total
  · simp only [htotal] at h
    cases h
  simp only [htotal] at h
  obtain ⟨q', m₂, -, h⟩ := bind_eq_some h
  split_ifs at h with hq hread
  · obtain ⟨_, m₃, -, h⟩ := bind_eq_some h
    cases pure_eq_some h
  · obtain ⟨_, m₃, -, h⟩ := bind_eq_some h
    obtain ⟨_, m₄, -, h⟩ := bind_eq_some h
    cases pure_eq_some h
  · cases pure_eq_some h
    rw [FatKind.loadFatDirectory, if_neg hsub, FatKind.loadDirectory, htotal]
    exact if_neg hread

/-- The possible results of a search in one directory. -/
inductive FoundIn (mt : FatMount) (d : FatDirectory) (name : List UInt8) : Option HeapItem → Prop
  | none : FoundIn mt d name none
  | file {p q : Ptr} {item : FatDirectoryItem}
      (hfind : mt.kind.findItemInDirectory d name = some item)
      (hfile : ¬ item.attributeBits &&& fatFileSubdirectory ≠ 0) :
      FoundIn mt d name (some (.file p q item))
  | directory {p : Ptr} {handle : DirHandle} {item : FatDirectoryItem}
      (hfind : mt.kind.findItemInDirectory d name = some item)
      (hsub : item.attributeBits &&& fatFileSubdirectory ≠ 0)
      (hload : ∀ p q d', handle = .loaded p q d' →
        mt.kind.loadFatDirectory mt.volume mt.disk item = some (.ok d')) :
      FoundIn mt d name (some (.directory p handle))

lemma FatMount.findFatItem_foundIn {name : List UInt8} {m m' : KMemory} {r : Option HeapItem}
    (h : mt.findFatItem d name m = some (r, m')) : FoundIn mt d name r := by
  rw [FatMount.findFatItem] at h
  rcases hfind : mt.kind.findItemInDirectory d name with _ | item
  · rw [hfind] at h
    cases pure_eq_some h
    exact .none
  rw [hfind] at h
  obtain ⟨p, m₁, -, h⟩ := bind_eq_some h
  split_ifs at h with hp hsub
  · cases pure_eq_some h
    exact .none
  · obtain ⟨handle, m₂, hload, h⟩ := bind_eq_some h
    cases pure_eq_some h
    refine .directory hfind hsub ?_
    rintro p q d' rfl
    exact FatMount.load_of_loaded hsub hload
  · obtain ⟨q, m₂, -, h⟩ := bind_eq_some h
    cases pure_eq_some h
    exact .file hfind hsub

/-- What the loop returns for a file was found along the rest of the path. -/
lemma FatMount.fileAt_of_loop {p q : Ptr} :
    ∀ {rest : List (List UInt8)} {d : FatDirectory} {r : Option HeapItem} {m m' : KMemory}
      {name : List UInt8}, FoundIn mt d name r →
      mt.getDirectoryEntryLoop r rest m = some (some (.file p q item), m') →
      ∃ b, FileAt mt d (name :: rest) item b := by
  intro rest
  induction rest with
  | nil =>
    intro d r m m' name hfound h
    rw [FatMount.getDirectoryEntryLoop] at h
    cases pure_eq_some h
    cases hfound with
    | file hfind hfile => exact ⟨2, .file hfind hfile⟩
  | cons name' rest ih =>
    intro d r m m' name hfound h
    cases hfound with
    | none => cases h
    | file hfind hfile => cases pure_eq_some h
    | @directory p handle sub hfind hsub hload =>
      cases handle with
      | null => cases h
      | freed => cases h
      | loaded dp ip d' =>
        rw [FatMount.getDirectoryEntryLoop] at h
        obtain ⟨tmp, m₁, htmp, h⟩ := bind_eq_some h
        obtain ⟨_, m₂, -, h⟩ := bind_eq_some h
        obtain ⟨b, hb⟩ := ih (FatMount.findFatItem_foundIn htmp) h
        exact ⟨_, .sub hfind hsub (hload dp ip d' rfl) hb⟩

/-- A search that returns a file was along a path to it. -/
lemma FatMount.fileAt_of_getDirectoryEntry {p q : Ptr} {m m' : KMemory}
    (h : mt.getDirectoryEntry names m = some (some (.file p q item), m')) :
    ∃ b, FileAt mt mt.root names item b := by
  cases names with
  | nil => cases h
  | cons name rest =>
    obtain ⟨r, m₁, hr, h⟩ := bind_eq_some h
    cases r with
    | none => cases pure_eq_some h
    | some r => exact FatMount.fileAt_of_loop (FatMount.findFatItem_foundIn hr) h

lemma FatMount.fileAt_of_openItem {p q : Ptr} {m m' : KMemory}
    (h : mt.openItem names m = some (some (.file p q item), m')) :
    ∃ b, FileAt mt mt.root names item b := by
  obtain ⟨r, m₁, hr, h⟩ := bind_eq_some h
  cases r with
  | none =>
    -- the second search of `fat16_open`
    simp only at h
    split_ifs at h
    · exact FatMount.fileAt_of_getDirectoryEntry h
    · cases pure_eq_some h
  | some r =>
    cases pure_eq_some h
    exact FatMount.fileAt_of_getDirectoryEntry hr

/-- The file may be opened in the mode. -/
def Permitted (mode : ℕ) (item : FatDirectoryItem) : Prop :=
  ¬ (mode &&& fileModeWrite ≠ 0 ∧ item.attributeBits &&& fatFileReadOnly ≠ 0)

/-- When a file is opened, the path leads to it and the mode is permitted; its item is kept
with the date of access. -/
lemma FatMount.fileAt_of_fatOpen {path : List PathPart} {mode now : ℕ} {m m' : KMemory}
    {f : FatOpenFile} {disk : Disk} (h : mt.fatOpen path mode now m = some ((.ok f, disk), m')) :
    ∃ item b, FileAt mt mt.root (path.map PathPart.part) item b ∧ Permitted mode item ∧
      f.item = ⟨store item.raw 18 (numberBytes 2 now)⟩ ∧
      (mode &&& fileModeAppend = 0 → f.pos = 0) := by
  obtain ⟨p, m₁, -, h⟩ := bind_eq_some h
  by_cases hp : p = 0
  · rw [if_pos hp] at h
    cases pure_eq_some h
  rw [if_neg hp] at h
  obtain ⟨r, m₂, hr, h⟩ := bind_eq_some h
  cases r with
  | none =>
    obtain ⟨_, m₃, -, h⟩ := bind_eq_some h
    cases pure_eq_some h
  | some r =>
    cases r with
    | directory ptr handle =>
      obtain ⟨_, m₃, -, h⟩ := bind_eq_some h
      cases pure_eq_some h
    | file itemPtr clonePtr item =>
      simp only at h
      by_cases hclone : clonePtr = 0
      · rw [if_pos hclone] at h
        cases h
      rw [if_neg hclone] at h
      by_cases hperm : mode &&& fileModeWrite ≠ 0 ∧ item.attributeBits &&& fatFileReadOnly ≠ 0
      · rw [if_pos hperm] at h
        obtain ⟨_, m₃, -, h⟩ := bind_eq_some h
        cases pure_eq_some h
      · obtain ⟨b, hb⟩ := FatMount.fileAt_of_openItem hr
        rw [if_neg hperm] at h
        obtain ⟨_, m₃, -, h⟩ := bind_eq_some h
        cases pure_eq_some h
        exact ⟨item, b, hb, hperm, rfl, fun happend => if_neg (not_not.mpr happend)⟩

/-! ## The blocks of an item -/

/-- The blocks that an item in memory holds. -/
def HeapItem.extents : HeapItem → List Extent
  | .file ptr itemPtr _ => [extentAt itemPtr 1, extentAt ptr 1]
  | .directory ptr (.loaded dp ip d) => [extentAt ip d.blocks, extentAt dp 1, extentAt ptr 1]
  | .directory ptr _ => [extentAt ptr 1]

/-- A directory with items, all its pointers being addresses of blocks. -/
structure DirOwned (ptr directory itemPtr : Ptr) (d : FatDirectory) : Prop where
  ptr_block : IsBlock ptr
  directory_block : IsBlock directory
  item_block : IsBlock itemPtr
  total_pos : 0 < d.total

variable {A : KMemory → List Extent → ℕ → Prop} {m₀ m : KMemory} {X : List Ptr} {L : List Extent}
  {n : ℕ}

lemma FatDirectory.blocks_pos (h : 0 < d.total) : 0 < d.blocks :=
  blocksFor_pos (Nat.mul_pos (by omega) (by decide))

/-- The size of the items is a size that `kzalloc` is asked for. -/
lemma FatDirectory.size_eq (h : 0 < d.total) (hle : d.blocks ≤ kernelBlocks) :
    u32 (d.total * itemSize) = d.total.toNat * itemSize := by
  have hcast : d.total * (itemSize : ℤ) = ((d.total.toNat * itemSize : ℕ) : ℤ) := by
    push_cast
    rw [Int.toNat_of_nonneg h.le]
  rw [hcast, u32_of_lt]
  simp only [FatDirectory.blocks, blocksFor, kernelBlocks, heapBlockSize] at hle
  omega

/-- A directory is loaded into two allocations. -/
lemma Accounts.loadFatDirectory (h : Accounts m₀ X m L n)
    (hsub : item.attributeBits &&& fatFileSubdirectory ≠ 0)
    (hload : mt.kind.loadFatDirectory mt.volume mt.disk item = some (.ok d))
    (hpos : 0 < d.total) (hn : 1 + d.blocks ≤ n) :
    Runs (mt.loadFatDirectory item) m fun handle m' => ∃ p q, handle = .loaded p q d ∧
      IsBlock p ∧ IsBlock q ∧
      Accounts m₀ X m' (extentAt q d.blocks :: extentAt p 1 :: L) (n - (1 + d.blocks)) := by
  have hsize := FatDirectory.size_eq hpos ((by omega : d.blocks ≤ n).trans h.roomy.le)
  have hblocks : blocksFor fatDirectorySize = 1 := by decide
  rw [FatKind.loadFatDirectory, if_neg hsub, FatKind.loadDirectory] at hload
  rcases htotal : getTotalItemsForDirectory mt.volume mt.disk
    (mt.kind.clusterToSector mt.volume item.firstClusterInt) with _ | total
  · rw [htotal] at hload
    cases hload
  rw [htotal] at hload
  by_cases hread : (mt.kind.readInternal mt.volume mt.disk item.firstClusterInt 0
      (total.toNat * itemSize)).1 ≠ 0
  · have hload := hload.symm.trans (if_pos hread)
    cases hload
  have hload := hload.symm.trans (if_neg hread)
  cases hload
  refine (h.allocate fatDirectorySize (by decide) (by omega)).bind fun p m₁ hp => ?_
  rw [if_neg hp.1.ne_zero]
  rw [hblocks] at hp
  simp only [htotal]
  simp only at hsize hpos
  rw [hsize]
  refine (hp.2.allocate _ (Nat.mul_pos (by omega) (by decide))
    (show blocksFor _ ≤ _ by simp only [FatDirectory.blocks] at hn; omega)).bind fun q m₂ hq => ?_
  rw [if_neg hq.1.ne_zero, if_neg hread]
  refine runs_pure ⟨p, q, rfl, hp.1, hq.1, hq.2.mono ?_⟩
  simp only [FatDirectory.blocks]
  omega

/-- The item of a file that is found. -/
lemma Accounts.findFile (h : Accounts m₀ X m L n) {name : List UInt8}
    (hfind : mt.kind.findItemInDirectory d name = some item)
    (hfile : ¬ item.attributeBits &&& fatFileSubdirectory ≠ 0) (hn : 2 ≤ n) :
    Runs (mt.findFatItem d name) m fun r m' => ∃ p q, r = some (.file p q item) ∧
      IsBlock p ∧ IsBlock q ∧
      Accounts m₀ X m' ((HeapItem.file p q item).extents ++ L) (n - 2) := by
  have hblocks : blocksFor fatItemSize = 1 := by decide
  have hblocks' : blocksFor itemSize = 1 := by decide
  rw [FatMount.findFatItem, hfind]
  refine (h.allocate fatItemSize (by decide) (by omega)).bind fun p m₁ hp => ?_
  rw [if_neg hp.1.ne_zero, if_neg hfile]
  rw [hblocks] at hp
  refine (hp.2.allocate itemSize (by decide) (by omega)).bind fun q m₂ hq => ?_
  rw [hblocks'] at hq
  exact runs_pure ⟨p, q, rfl, hp.1, hq.1, hq.2.mono (by omega)⟩

/-- The item of a subdirectory that is found. -/
lemma Accounts.findSub (h : Accounts m₀ X m L n) {name : List UInt8} {d' : FatDirectory}
    (hfind : mt.kind.findItemInDirectory d name = some item)
    (hsub : item.attributeBits &&& fatFileSubdirectory ≠ 0)
    (hload : mt.kind.loadFatDirectory mt.volume mt.disk item = some (.ok d'))
    (hpos : 0 < d'.total) (hn : 2 + d'.blocks ≤ n) :
    Runs (mt.findFatItem d name) m fun r m' => ∃ p dp ip,
      r = some (.directory p (.loaded dp ip d')) ∧ DirOwned p dp ip d' ∧
      Accounts m₀ X m' ((HeapItem.directory p (.loaded dp ip d')).extents ++ L)
        (n - (2 + d'.blocks)) := by
  have hblocks : blocksFor fatItemSize = 1 := by decide
  rw [FatMount.findFatItem, hfind]
  refine (h.allocate fatItemSize (by decide) (by omega)).bind fun p m₁ hp => ?_
  rw [if_neg hp.1.ne_zero, if_pos hsub]
  rw [hblocks] at hp
  refine (hp.2.loadFatDirectory hsub hload hpos (by omega)).bind fun handle m₂ hd => ?_
  obtain ⟨dp, ip, rfl, hdp, hip, hm⟩ := hd
  exact runs_pure ⟨p, dp, ip, rfl, ⟨hp.1, hdp, hip, hpos⟩, hm.mono (by omega)⟩

/-- A directory is freed with its item. -/
lemma Ledger.freeDirectory (hA : Ledger A) {L₁ : List Extent} {p dp ip : Ptr}
    (hown : DirOwned p dp ip d)
    (h : A m (L₁ ++ ((HeapItem.directory p (.loaded dp ip d)).extents ++ L)) n) :
    Runs (fatItemFree (.directory p (.loaded dp ip d))) m fun _ m' =>
      A m' (L₁ ++ L) n := by
  rw [fatItemFree, if_pos hown.item_block.ne_zero]
  refine (hA.release_middle h hown.item_block (FatDirectory.blocks_pos hown.total_pos)).bind
    fun _ m₁ h₁ => ?_
  refine (hA.release_middle h₁ hown.directory_block (by omega)).bind fun _ m₂ h₂ => ?_
  exact hA.release_middle h₂ hown.ptr_block (by omega)

/-- A file is freed with its item. -/
lemma Ledger.freeFile (hA : Ledger A) {L₁ : List Extent} {p q : Ptr} (hp : IsBlock p)
    (hq : IsBlock q) (h : A m (L₁ ++ ((HeapItem.file p q item).extents ++ L)) n)
    (item' : FatDirectoryItem) :
    Runs (fatItemFree (.file p q item')) m fun _ m' => A m' (L₁ ++ L) n := by
  rw [fatItemFree]
  refine (hA.release_middle h hq (by omega)).bind fun _ m₁ h₁ => ?_
  exact hA.release_middle h₁ hp (by omega)

/-! ## Following a path -/

/-- From a directory in memory the loop reaches the file, and frees the directories. -/
lemma Accounts.loop_file (hfile : FileAt mt d names item b) :
    ∀ {p dp ip : Ptr} {m : KMemory} {n : ℕ}, DirOwned p dp ip d →
      Accounts m₀ X m ((HeapItem.directory p (.loaded dp ip d)).extents ++ L) n → b ≤ n →
      Runs (mt.getDirectoryEntryLoop (some (.directory p (.loaded dp ip d))) names) m
        fun r m' => ∃ p q, r = some (.file p q item) ∧ IsBlock p ∧ IsBlock q ∧
          Accounts m₀ X m' ((HeapItem.file p q item).extents ++ L) (n - b) := by
  induction hfile with
  | file hfind hfile =>
    intro p dp ip m n hown h hn
    rw [FatMount.getDirectoryEntryLoop]
    refine (h.findFile hfind hfile hn).bind fun r m₁ hr => ?_
    obtain ⟨p', q', rfl, hp', hq', hm₁⟩ := hr
    refine (accounts_ledger.freeDirectory hown hm₁).bind fun _ m₂ hm₂ => ?_
    rw [FatMount.getDirectoryEntryLoop]
    exact runs_pure ⟨p', q', rfl, hp', hq', hm₂⟩
  | sub hfind hsub hload hrest ih =>
    intro p dp ip m n hown h hn
    rw [FatMount.getDirectoryEntryLoop]
    refine (h.findSub hfind hsub hload hrest.total_pos (by omega)).bind fun r m₁ hr => ?_
    obtain ⟨p', dp', ip', rfl, hown', hm₁⟩ := hr
    refine (accounts_ledger.freeDirectory hown hm₁).bind fun _ m₂ hm₂ => ?_
    refine (ih hown' hm₂ (by omega)).mono fun r m₃ hr => ?_
    obtain ⟨p'', q'', hr, hp'', hq'', hm₃⟩ := hr
    exact ⟨p'', q'', hr, hp'', hq'', hm₃.mono (by omega)⟩

/-- From a directory in memory the loop without the last name reaches the directory of the
file. -/
lemma Accounts.loop_parent (hfile : FileAt mt d names item b) :
    ∀ {p dp ip : Ptr} {m : KMemory} {n : ℕ}, DirOwned p dp ip d →
      Accounts m₀ X m ((HeapItem.directory p (.loaded dp ip d)).extents ++ L) n → b ≤ n →
      Runs (mt.getDirectoryEntryLoop (some (.directory p (.loaded dp ip d))) names.dropLast) m
        fun r m' => ∃ p dp ip d', r = some (.directory p (.loaded dp ip d')) ∧
          DirOwned p dp ip d' ∧ mt.kind.findItemInDirectory d' (names.getLastD []) = some item ∧
          Accounts m₀ X m' ((HeapItem.directory p (.loaded dp ip d')).extents ++ L) (n - b) := by
  induction hfile with
  | @file d _ _ hfind hfile =>
    intro p dp ip m n hown h hn
    rw [List.dropLast_singleton, FatMount.getDirectoryEntryLoop]
    exact runs_pure ⟨p, dp, ip, d, rfl, hown, hfind, h.mono (by omega)⟩
  | @sub _ d' name rest _ _ _ hfind hsub hload hrest ih =>
    intro p dp ip m n hown h hn
    have hlast : (name :: rest).getLastD [] = rest.getLastD [] := by
      rw [List.getLastD_cons]
      cases rest with
      | nil => exact absurd rfl hrest.ne_nil
      | cons name' rest => rw [List.getLastD_cons, List.getLastD_cons]
    rw [List.dropLast_cons_of_ne_nil hrest.ne_nil, FatMount.getDirectoryEntryLoop, hlast]
    refine (h.findSub hfind hsub hload hrest.total_pos (by omega)).bind fun r m₁ hr => ?_
    obtain ⟨p', dp', ip', rfl, hown', hm₁⟩ := hr
    refine (accounts_ledger.freeDirectory hown hm₁).bind fun _ m₂ hm₂ => ?_
    refine (ih hown' hm₂ (by omega)).mono fun r m₃ hr => ?_
    obtain ⟨p, dp, ip, d'', hr, hown'', hlast, hm₃⟩ := hr
    exact ⟨p, dp, ip, d'', hr, hown'', hlast, hm₃.mono (by omega)⟩

/-- The search for a file from the root directory. -/
lemma Accounts.getDirectoryEntry (hfile : FileAt mt mt.root names item b)
    (h : Accounts m₀ X m L n) (hn : b ≤ n) :
    Runs (mt.getDirectoryEntry names) m fun r m' => ∃ p q, r = some (.file p q item) ∧
      IsBlock p ∧ IsBlock q ∧
      Accounts m₀ X m' ((HeapItem.file p q item).extents ++ L) (n - b) := by
  cases hfile with
  | file hfind hfile =>
    refine (h.findFile hfind hfile hn).bind fun r m₁ hr => ?_
    obtain ⟨p, q, rfl, hp, hq, hm₁⟩ := hr
    simp only [FatMount.getDirectoryEntryLoop]
    exact runs_pure ⟨p, q, rfl, hp, hq, hm₁⟩
  | sub hfind hsub hload hrest =>
    refine (h.findSub hfind hsub hload hrest.total_pos (by omega)).bind fun r m₁ hr => ?_
    obtain ⟨p, dp, ip, rfl, hown, hm₁⟩ := hr
    refine (Accounts.loop_file hrest hown hm₁ (by omega)).mono fun r m₂ hr => ?_
    obtain ⟨p, q, hr, hp, hq, hm₂⟩ := hr
    exact ⟨p, q, hr, hp, hq, hm₂.mono (by omega)⟩

/-- Below the root directory the parent of a file is loaded. -/
lemma Accounts.getParentDir (hfile : FileAt mt mt.root names item b) (hlen : 2 ≤ names.length)
    (h : Accounts m₀ X m L n) (hn : b ≤ n) :
    Runs (mt.getParentDir names) m fun r m' => ∃ p dp ip d,
      r = some (.directory p (.loaded dp ip d)) ∧ DirOwned p dp ip d ∧
      mt.kind.findItemInDirectory d (names.getLastD []) = some item ∧
      Accounts m₀ X m' ((HeapItem.directory p (.loaded dp ip d)).extents ++ L) (n - b) := by
  cases hfile with
  | file => exact absurd hlen (by simp)
  | @sub _ d' name rest _ _ _ hfind hsub hload hrest =>
    obtain ⟨name', rest', rfl⟩ := List.exists_cons_of_ne_nil hrest.ne_nil
    have hparent : mt.getParentDir (name :: name' :: rest') =
        mt.getDirectoryEntry (name :: (name' :: rest').dropLast) := rfl
    rw [hparent, List.getLastD_cons, FatMount.getDirectoryEntry]
    refine (h.findSub hfind hsub hload hrest.total_pos (by omega)).bind fun r m₁ hr => ?_
    obtain ⟨p, dp, ip, rfl, hown, hm₁⟩ := hr
    refine (Accounts.loop_parent hrest hown hm₁ (by omega)).mono fun r m₂ hr => ?_
    obtain ⟨p, dp, ip, d, hr, hown, hlast, hm₂⟩ := hr
    rw [List.getLastD_cons] at hlast ⊢
    exact ⟨p, dp, ip, d, hr, hown, hlast, hm₂.mono (by omega)⟩

/-! ## Opening a file -/

/-- The allocations that hold the root directory of a mounted volume: its items, and a block
with its `struct fat_directory`.  On a FAT16 volume that is the block of
`struct fat_private`. -/
structure FatMount.RootHeld (mt : FatMount) (holder : Ptr) (blocks : ℕ) : Prop where
  holder_block : IsBlock holder
  item_block : IsBlock mt.rootItemPtr
  blocks_pos : 0 < blocks
  le_rootPtr : holder ≤ mt.rootPtr
  rootPtr_lt : mt.rootPtr < holder + heapBlockSize

/-- Below the root directory `write_directory_entry` gives back what it takes. -/
lemma Accounts.writeDirectoryEntry (hfile : FileAt mt mt.root names item b)
    (hlen : 2 ≤ names.length) (hnames : ∀ name ∈ names, 0 ∉ name) (h : Accounts m₀ X m L n)
    (hn : b ≤ n) (newItem : FatDirectoryItem) :
    Runs (mt.writeDirectoryEntry names newItem) m fun _ m' => Accounts m₀ X m' L (n - b) := by
  refine (h.getParentDir hfile hlen hn).bind fun r m₁ hr => ?_
  obtain ⟨p, dp, ip, d, rfl, hown, hfind, hm₁⟩ := hr
  have hlast : names.getLastD [] ∈ names := by
    obtain ⟨name, rest, rfl⟩ := List.exists_cons_of_ne_nil hfile.ne_nil
    rw [List.getLastD_cons]
    exact List.getLastD_mem_cons
  obtain ⟨i, hi⟩ := entryIndex_isSome (hnames _ hlast) hfind
  simp only [hi]
  rw [← List.nil_append (HeapItem.extents _ ++ L)] at hm₁
  refine (accounts_ledger.freeDirectory hown hm₁).bind fun _ m₂ hm₂ => ?_
  exact runs_pure hm₂

/-- In the root directory `write_directory_entry` frees the root directory. -/
lemma Accounts.writeDirectoryEntry_root {name : List UInt8} {holder : Ptr} {blocks : ℕ}
    {L₁ : List Extent} (hfind : mt.kind.findItemInDirectory mt.root name = some item)
    (hname : 0 ∉ name) (hheld : mt.RootHeld holder blocks) (hX : mt.rootPtr ∈ X)
    (h : Accounts m₀ X m
      (L₁ ++ extentAt mt.rootItemPtr blocks :: extentAt holder 1 :: L) n) (hn : 1 ≤ n)
    (newItem : FatDirectoryItem) :
    Runs (mt.writeDirectoryEntry [name] newItem) m fun _ m' =>
      Accounts m₀ X m' (L₁ ++ L) (n - 1) := by
  have hblocks : blocksFor fatItemSize = 1 := by decide
  have hparent : Runs (mt.getParentDir [name]) m fun r m' => ∃ p, IsBlock p ∧
      r = some (.directory p (.loaded mt.rootPtr mt.rootItemPtr mt.root)) ∧
      Accounts m₀ X m' (extentAt p 1 :: L₁ ++
        extentAt mt.rootItemPtr blocks :: extentAt holder 1 :: L) (n - 1) := by
    refine (h.allocate fatItemSize (by decide) (by omega)).bind fun p m₁ hp => ?_
    rw [if_neg hp.1.ne_zero]
    rw [hblocks] at hp
    exact runs_pure ⟨p, hp.1, rfl, hp.2⟩
  refine hparent.bind fun r m₁ hr => ?_
  obtain ⟨p, hp, rfl, hm₁⟩ := hr
  obtain ⟨i, hi⟩ := entryIndex_isSome hname hfind
  have hlast : [name].getLastD [] = name := rfl
  simp only [hlast, hi]
  have hfree : Runs (fatItemFree (.directory p (.loaded mt.rootPtr mt.rootItemPtr mt.root))) m₁
      fun _ m' => Accounts m₀ X m' (L₁ ++ L) (n - 1) := by
    rw [fatItemFree, if_pos hheld.item_block.ne_zero]
    refine (hm₁.release hheld.item_block hheld.blocks_pos).bind fun _ m₂ hm₂ => ?_
    refine (hm₂.release_inside hheld.holder_block (by omega) hX hheld.le_rootPtr
      hheld.rootPtr_lt).bind fun _ m₃ hm₃ => ?_
    exact Accounts.release_head hm₃ hp (by omega)
  refine hfree.bind fun _ m₂ hm₂ => ?_
  exact runs_pure hm₂

/-- What `write_directory_entry` for a file leaves of the allocations: all of them below the
root directory, and in the root directory those that do not hold it. -/
def Remains (mt : FatMount) (names : List (List UInt8)) (L L' : List Extent) : Prop :=
  (2 ≤ names.length ∧ L' = L) ∨
    (names.length = 1 ∧ ∃ holder blocks, mt.RootHeld holder blocks ∧
      L.Perm (extentAt mt.rootItemPtr blocks :: extentAt holder 1 :: L'))

lemma Accounts.writeDirectoryEntry_remains (hfile : FileAt mt mt.root names item b)
    (hnames : ∀ name ∈ names, 0 ∉ name) {L' : List Extent} (hrem : Remains mt names L L')
    (F P : List Extent) (h : Accounts m₀ [mt.rootPtr] m (F ++ (P ++ L)) n) (hn : b ≤ n)
    (newItem : FatDirectoryItem) :
    Runs (mt.writeDirectoryEntry names newItem) m fun _ m' =>
      Accounts m₀ [mt.rootPtr] m' (F ++ (P ++ L')) (n - b) := by
  rcases hrem with ⟨hlen, rfl⟩ | ⟨hlen, holder, blocks, hheld, hperm⟩
  · exact h.writeDirectoryEntry hfile hlen hnames hn newItem
  · cases hfile with
    | @file _ name _ hfind hfile =>
      have h' := h.perm ((hperm.append_left P).append_left F)
      rw [← List.append_assoc] at h' ⊢
      refine (h'.writeDirectoryEntry_root hfind (hnames name (by simp)) hheld (by simp)
        (by omega) newItem).mono fun _ m' hm' => hm'.mono (by omega)
    | sub _ _ _ hrest =>
      refine absurd hrest.ne_nil (not_not.mpr ?_)
      simpa using hlen

/-- The search for the file that is to be opened. -/
lemma Accounts.openItem (hfile : FileAt mt mt.root names item b) (h : Accounts m₀ X m L n)
    (hn : b ≤ n) :
    Runs (mt.openItem names) m fun r m' => ∃ p q, r = some (.file p q item) ∧
      IsBlock p ∧ IsBlock q ∧
      Accounts m₀ X m' ((HeapItem.file p q item).extents ++ L) (n - b) := by
  refine (h.getDirectoryEntry hfile hn).bind fun r m₁ hr => ?_
  obtain ⟨p, q, rfl, hp, hq, hm₁⟩ := hr
  exact runs_pure ⟨p, q, rfl, hp, hq, hm₁⟩

/-- The blocks of an open file, without those of its path. -/
def FatOpenFile.extents (f : FatOpenFile) : List Extent :=
  [extentAt f.clonePtr 1, extentAt f.itemPtr 1, extentAt f.ptr 1]

/-- The pointers of an open file are addresses of blocks. -/
structure FatOpenFile.Owned (f : FatOpenFile) : Prop where
  ptr_block : IsBlock f.ptr
  item_block : IsBlock f.itemPtr
  clone_block : IsBlock f.clonePtr

/-- Opening a file takes the blocks of the file; `L'` are the allocations that
`write_directory_entry` leaves of `L`. -/
lemma Accounts.fatOpen {path : List PathPart} {mode now : ℕ} {L' : List Extent}
    (hfile : FileAt mt mt.root (path.map PathPart.part) item b) (hperm : Permitted mode item)
    (hwrite : ∀ (F : List Extent) (m : KMemory) (n : ℕ) (newItem : FatDirectoryItem),
      Accounts m₀ X m (F ++ L) n → b ≤ n →
      Runs (mt.writeDirectoryEntry (path.map PathPart.part) newItem) m fun _ m' =>
        Accounts m₀ X m' (F ++ L') (n - b))
    (h : Accounts m₀ X m L n) (hn : 2 * b + 1 ≤ n) :
    Runs (mt.fatOpen path mode now) m fun r m' => ∃ f disk, r = (.ok f, disk) ∧
      f.path = path ∧ f.Owned ∧ FreshBlock L f.itemPtr ∧
      Accounts m₀ X m' (f.extents ++ L') (n - (2 * b + 1)) := by
  have hblocks : blocksFor fatFileDescriptorSize = 1 := by decide
  refine (h.allocate fatFileDescriptorSize (by decide) (by omega)).bind
    fun ptr m₁ hptr => ?_
  rw [if_neg hptr.1.ne_zero]
  rw [hblocks] at hptr
  refine (hptr.2.openItem hfile (by omega)).bind fun r m₂ hr => ?_
  obtain ⟨p, q, rfl, hp, hq, hm₂⟩ := hr
  simp only [if_neg hq.ne_zero]
  rw [if_neg hperm]
  rw [HeapItem.extents, List.cons_append, List.cons_append, List.nil_append] at hm₂
  have hfresh : FreshBlock L p := by
    have hm : Accounts m₀ X m₂ ([extentAt q 1] ++ extentAt p 1 :: extentAt ptr 1 :: L)
      (n - 1 - b) := hm₂
    exact hm.freshBlock.subset (by simp)
  refine (hwrite [extentAt q 1, extentAt p 1, extentAt ptr 1] m₂ (n - 1 - b) _ hm₂
    (by omega)).bind fun written m₃ hm₃ => ?_
  exact runs_pure ⟨_, _, rfl, rfl, ⟨hptr.1, hp, hq⟩, hfresh, hm₃.mono (by omega)⟩

/-- A file that is not found in the root directory is not opened. -/
lemma Ledger.fatOpen_missing (hA : Ledger A) {path : List PathPart} {mode now : ℕ}
    {name : List UInt8} {rest : List (List UInt8)}
    (hnames : path.map PathPart.part = name :: rest)
    (hfind : mt.kind.findItemInDirectory mt.root name = none) (h : A m L n) (hn : 1 ≤ n) :
    Runs (mt.fatOpen path mode now) m fun r m' => r = (.error (-eio), mt.disk) ∧
      A m' L (n - 1) := by
  have hblocks : blocksFor fatFileDescriptorSize = 1 := by decide
  have hentry : ∀ m : KMemory,
      Runs (mt.getDirectoryEntry (name :: rest)) m fun r m' => r = none ∧ m' = m := by
    intro m
    have hfound : Runs (mt.findFatItem mt.root name) m fun r m' => r = none ∧ m' = m := by
      rw [FatMount.findFatItem, hfind]
      exact runs_pure ⟨rfl, rfl⟩
    refine hfound.bind fun r m₁ hr => ?_
    obtain ⟨rfl, rfl⟩ := hr
    exact runs_pure ⟨rfl, rfl⟩
  have hitem : ∀ m : KMemory,
      Runs (mt.openItem (name :: rest)) m fun r m' => r = none ∧ m' = m := by
    intro m
    refine (hentry m).bind fun r m₁ hr => ?_
    obtain ⟨rfl, rfl⟩ := hr
    simp only
    split
    · exact hentry m₁
    · exact runs_pure ⟨rfl, rfl⟩
  refine (hA.allocate h fatFileDescriptorSize (by decide) (by omega)).bind
    fun ptr m₁ hptr => ?_
  rw [if_neg hptr.1.ne_zero, hnames]
  refine (hitem m₁).bind fun r m₂ hr => ?_
  obtain ⟨rfl, rfl⟩ := hr
  rw [hblocks] at hptr
  refine (hA.release hptr.2 hptr.1 Nat.one_pos).bind fun _ m₃ hm₃ => ?_
  exact runs_pure ⟨rfl, hm₃⟩

/-- The error codes of an open that fails. -/
lemma FatMount.fatOpen_error {path : List PathPart} {mode now : ℕ} {m m' : KMemory} {e : ℤ}
    {disk : Disk} (h : mt.fatOpen path mode now m = some ((.error e, disk), m')) :
    -8 ≤ e ∧ e < 0 := by
  obtain ⟨p, m₁, -, h⟩ := bind_eq_some h
  by_cases hp : p = 0
  · rw [if_pos hp] at h
    cases pure_eq_some h
    decide
  rw [if_neg hp] at h
  obtain ⟨r, m₂, hr, h⟩ := bind_eq_some h
  rcases r with _ | ⟨ip, cp, item⟩ | ⟨ip, handle⟩
  · obtain ⟨_, m₃, -, h⟩ := bind_eq_some h
    cases pure_eq_some h
    decide
  · simp only at h
    by_cases hclone : cp = 0
    · rw [if_pos hclone] at h
      cases h
    rw [if_neg hclone] at h
    by_cases hperm : mode &&& fileModeWrite ≠ 0 ∧ item.attributeBits &&& fatFileReadOnly ≠ 0
    · rw [if_pos hperm] at h
      obtain ⟨_, m₃, -, h⟩ := bind_eq_some h
      cases pure_eq_some h
      decide
    · rw [if_neg hperm] at h
      obtain ⟨_, m₃, -, h⟩ := bind_eq_some h
      cases pure_eq_some h
  · obtain ⟨_, m₃, -, h⟩ := bind_eq_some h
    cases pure_eq_some h
    decide

/-- Closing a file gives back its blocks and those of its path. -/
lemma Ledger.fatClose (hA : Ledger A) {f : FatOpenFile} (hown : f.Owned) (hparts : PartsOk f.path)
    (h : A m (f.extents ++ (pathExtents f.path ++ L)) n) (hn : 1 ≤ n) :
    Runs (SerpaeOS.fatClose f) m fun r m' => r = 0 ∧ A m' L (n - 1) := by
  have hblocks : blocksFor pathRootSize = 1 := by decide
  refine (hA.allocate h pathRootSize (by decide) (by omega)).bind fun p m₁ hp => ?_
  rw [if_neg hp.1.ne_zero]
  rw [hblocks] at hp
  have hm₁ : A m₁ (f.extents ++ (pathExtents f.path ++ extentAt p 1 :: L))
      (n - 1) := by
    refine hA.perm hp.2 ?_
    rw [← List.append_assoc, ← List.append_assoc]
    exact List.perm_middle.symm
  refine (hA.pathparserFree hparts hp.1 hm₁).bind fun _ m₂ hm₂ => ?_
  have hm₂' : A m₂ ([] ++ ((HeapItem.file f.itemPtr f.clonePtr f.item).extents ++
      extentAt f.ptr 1 :: L)) (n - 1) := hm₂
  refine (hA.freeFile hown.item_block hown.clone_block hm₂' f.item).bind
    fun _ m₃ hm₃ => ?_
  refine (hA.release hm₃ hown.ptr_block (by omega)).bind fun _ m₄ hm₄ => ?_
  exact runs_pure ⟨rfl, hm₄⟩

/-! ## The record of pointers -/

namespace FatMount

lemma keeps_loadFatDirectory (item : FatDirectoryItem) :
    Keeps (Recorded m₀) (mt.loadFatDirectory item) := by
  refine (keeps_allocate _).bind fun p => Keeps.ite (keeps_pure _) ?_
  simp only
  split
  · exact keeps_stuck
  · refine (keeps_allocate _).bind fun q => Keeps.ite ?_ (Keeps.ite ?_ (keeps_pure _))
    · exact (keeps_release _).bind fun _ => keeps_pure _
    · exact (keeps_release _).bind fun _ => (keeps_release _).bind fun _ => keeps_pure _

lemma keeps_findFatItem (d : FatDirectory) (name : List UInt8) :
    Keeps (Recorded m₀) (mt.findFatItem d name) := by
  rw [findFatItem]
  split
  · exact keeps_pure _
  · refine (keeps_allocate _).bind fun p => Keeps.ite (keeps_pure _) (Keeps.ite ?_ ?_)
    · exact (keeps_loadFatDirectory _).bind fun _ => keeps_pure _
    · exact (keeps_allocate _).bind fun _ => keeps_pure _

lemma keeps_fatItemFree (item : HeapItem) : Keeps (Recorded m₀) (fatItemFree item) := by
  rcases item with ⟨p, q, item⟩ | ⟨p, handle⟩
  · exact (keeps_release _).bind fun _ => keeps_release _
  · cases handle with
    | null => exact keeps_release _
    | freed => exact keeps_stuck
    | loaded dp ip d =>
      rw [fatItemFree]
      split
      · refine (keeps_release _).bind fun _ => ?_
        exact (keeps_release _).bind fun _ => keeps_release _
      · exact (keeps_release _).bind fun _ => keeps_release _

lemma keeps_getDirectoryEntryLoop (names : List (List UInt8)) :
    ∀ current : Option HeapItem,
      Keeps (Recorded m₀) (mt.getDirectoryEntryLoop current names) := by
  induction names with
  | nil =>
    intro current
    rw [getDirectoryEntryLoop]
    exact keeps_pure _
  | cons name names ih =>
    rintro (_ | ⟨p, q, item⟩ | ⟨p, handle⟩)
    · exact keeps_stuck
    · exact keeps_pure _
    · cases handle with
      | null => exact keeps_stuck
      | freed => exact keeps_stuck
      | loaded dp ip d =>
        refine (keeps_findFatItem d name).bind fun tmp => ?_
        exact (keeps_fatItemFree _).bind fun _ => ih tmp

lemma keeps_getDirectoryEntry (names : List (List UInt8)) :
    Keeps (Recorded m₀) (mt.getDirectoryEntry names) := by
  cases names with
  | nil => exact keeps_stuck
  | cons name rest =>
    refine (keeps_findFatItem _ name).bind fun r => ?_
    cases r with
    | none => exact keeps_pure _
    | some item => exact keeps_getDirectoryEntryLoop _ _

lemma keeps_getParentDir (names : List (List UInt8)) :
    Keeps (Recorded m₀) (mt.getParentDir names) := by
  match names with
  | [] => exact keeps_pure _
  | [_] => exact (keeps_allocate _).bind fun _ => Keeps.ite keeps_stuck (keeps_pure _)
  | name :: name' :: rest =>
    exact keeps_getDirectoryEntry (name :: name' :: rest).dropLast

lemma keeps_writeDirectoryEntry (names : List (List UInt8)) (newItem : FatDirectoryItem) :
    Keeps (Recorded m₀) (mt.writeDirectoryEntry names newItem) := by
  refine (keeps_getParentDir names).bind fun r => ?_
  rcases r with _ | ⟨p, q, item⟩ | ⟨p, handle⟩
  · exact keeps_stuck
  · exact keeps_stuck
  · cases handle with
    | null => exact keeps_pure _
    | freed => exact keeps_stuck
    | loaded dp ip d =>
      simp only
      split
      · exact keeps_pure _
      · exact (keeps_fatItemFree _).bind fun _ => keeps_pure _

lemma keeps_fatOpen (path : List PathPart) (mode now : ℕ) :
    Keeps (Recorded m₀) (mt.fatOpen path mode now) := by
  have hitem : Keeps (Recorded m₀) (mt.openItem (path.map PathPart.part)) := by
    refine (keeps_getDirectoryEntry _).bind fun r => ?_
    cases r with
    | none => exact Keeps.ite (keeps_getDirectoryEntry _) (keeps_pure _)
    | some item => exact keeps_pure _
  refine (keeps_allocate _).bind fun p => Keeps.ite (keeps_pure _) ?_
  refine hitem.bind fun r => ?_
  rcases r with _ | ⟨ip, cp, item⟩ | ⟨ip, handle⟩
  · exact (keeps_release _).bind fun _ => keeps_pure _
  · refine Keeps.ite keeps_stuck (Keeps.ite ?_ ?_)
    · exact (keeps_release _).bind fun _ => keeps_pure _
    · exact (keeps_writeDirectoryEntry _ _).bind fun _ => keeps_pure _
  · exact (keeps_release _).bind fun _ => keeps_pure _

end FatMount

end SerpaeOS
