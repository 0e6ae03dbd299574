import SerpaeOS.Fs.Fat.NewEntry

/-!
# New files

`fat16_create_file` in a parent directory with room for one more entry, for a name that is new
there: it does what is expected of it if the entry with the number of the live ones is free, and the
name is not one of those of which the driver loses the extension.
-/

namespace SerpaeOS

open Bytes Word FatKind

/-- A call on a volume without faults, for a name that no entry of its parent directory has.

The cluster that the search finds has a 16-bit number, and its entry lies in the table.  The entry
`n` is the end of the directory, and when it is also the one with the number of the live entries,
another one behind it is.  The directory in memory is what is loaded from the disk, and the search
for a free entry in it ends. -/
structure NewFile (v : FatVolume) (priv : FatPrivate) (disk : Disk)
    (behind : ℕ → FatDirectoryItem) (path : List (List UInt8)) (name : ShortName)
    (place : DirectoryPlace) (base : ℕ) (dir : FatDirectory) (n : ℕ) : Prop where
  faultFree : disk.FaultFree
  header : HeaderRanges v
  sectorSize_eq : v.sectorSize = defaultSectorSize
  search : ∀ f, FirstFree16 v disk f → f < 2 ^ 16 ∧ InTable v f
  terminated : Terminated (place.entries disk) n
  spare : liveCount (place.entries disk) n = n → (place.entries disk (n + 1)).raw 0 = 0x00
  fits : Fits v disk (liveCount (place.entries disk) n) (terminatorAfter (place.entries disk) n)
    place base
  path_last : path.getLastD [] = name.text
  head_ne : name.text.head? ≠ some 0xE5
  isNew : ∀ j, LiveAt (place.entries disk) j →
    fold (place.entries disk j).fullRelativeFilename ≠ fold name.text
  parent : ∀ f, FirstFree16 v disk f →
    fat16.getParentDir v (fat16.setEntry v disk f 0xFFFF) priv.rootDirectory path =
        some (some (.directory (.ok dir))) ∧
      place.load (fat16.setEntry v disk f 0xFFFF) = some (.ok dir)
  scan : ∃ i < 0xFFFF, (itemsInMemory v path dir behind i).Free

variable {v : FatVolume} {priv : FatPrivate} {disk : Disk} {now : DateTime}
  {behind : ℕ → FatDirectoryItem} {path : List (List UInt8)} {name : ShortName}
  {place : DirectoryPlace} {dir : FatDirectory} {base n f i : ℕ}

/-! ## The new entry -/

/-- The entry that is stored has the cluster. -/
lemma firstCluster_newDirectoryItem (now : DateTime) (name : ShortName) (hf : f < 2 ^ 16) :
    (newDirectoryItem now name.text f).firstCluster = f := by
  have hraw : ∀ a, 11 ≤ a → (newDirectoryItem now name.text f).raw a =
      store (store (fun _ => 0) 16 (numberBytes 2 (creationDate now))) 26 (numberBytes 2 f) a :=
    fun a ha => name.setFilename_raw _ ha
  have hzero : ∀ a, 18 ≤ a → a < 26 → (newDirectoryItem now name.text f).raw a = 0 := by
    intro a ha ha'
    rw [hraw a (by omega), store_of_lt (Or.inl ha'),
      store_of_lt (Or.inr (by rw [length_numberBytes]; omega))]
  have hhigh : u16le (newDirectoryItem now name.text f).raw 20 = 0 := by
    rw [u16le, hzero 20 (by decide) (by decide), hzero 21 (by decide) (by decide)]
    rfl
  have hlow : u16le (newDirectoryItem now name.text f).raw 26 = f :=
    (u16le_congr fun i _ => hraw (26 + i) (by omega)).trans (u16le_store hf)
  rw [FatDirectoryItem.firstCluster, FatDirectoryItem.high16BitsFirstCluster,
    FatDirectoryItem.low16BitsFirstCluster, hhigh, hlow, Nat.zero_mul, Nat.zero_add]

namespace NewFile

/-! ## The call -/

/-- The disk after the call. -/
def created (v : FatVolume) (disk : Disk) (now : DateTime) (name : ShortName)
    (place : DirectoryPlace) (base n f : ℕ) : Disk :=
  storeEntry (fat16.setEntry v disk f 0xFFFF) base (liveCount (place.entries disk) n)
    (newDirectoryItem now name.text f)

lemma liesAt (h : NewFile v priv disk behind path name place base dir n) :
    LiesAt v place base (terminatorAfter (place.entries disk) n) :=
  h.fits.liesAt h.sectorSize_eq

lemma fatEntry_eq_zero (h : NewFile v priv disk behind path name place base dir n)
    (hf : FirstFree16 v disk f) : fat16.fatEntry v disk f = 0 := by
  rw [← entryCode_eq h.faultFree (fat16_reachable h.header (h.search f hf).1)]
  exact hf.free

/-- The cluster was not in use. -/
lemma keepsUsed_setEntry (h : NewFile v priv disk behind path name place base dir n)
    (hf : FirstFree16 v disk f) : KeepsUsed v disk (fat16.setEntry v disk f 0xFFFF) := by
  intro c _ hc
  refine fatEntry_setEntry_of_ne ?_
  rintro rfl
  exact hc (h.fatEntry_eq_zero hf)

lemma keepsUsed (h : NewFile v priv disk behind path name place base dir n)
    (hf : FirstFree16 v disk f) : KeepsUsed v disk (created v disk now name place base n f) :=
  fun c hc hne => (h.liesAt.fatEntry_storeEntry hc).trans (h.keepsUsed_setEntry hf c hc hne)

lemma created_faultFree (h : NewFile v priv disk behind path name place base dir n) :
    (created v disk now name place base n f).FaultFree :=
  ⟨h.faultFree.read_ok, h.faultFree.write_ok⟩

/-- The directory in memory counts the live entries. -/
lemma dir_eq (h : NewFile v priv disk behind path name place base dir n)
    (hf : FirstFree16 v disk f) : dir.total = liveCount (place.entries disk) n ∧
      dir.sectorPos * v.sectorSize = base := by
  -- the first step writes to the table only
  have hraw : ∀ i, (place.entries (fat16.setEntry v disk f 0xFFFF) i).raw 0 =
      (place.entries disk i).raw 0 := fun i =>
    (h.liesAt.setEntry (h.search f hf).2 0xFFFF i).raw_zero
  have hterm : Terminated (place.entries (fat16.setEntry v disk f 0xFFFF)) n :=
    ⟨fun i hi => by rw [hraw]; exact h.terminated.used i hi,
      (hraw n).trans h.terminated.terminator⟩
  have hcount : liveCount (place.entries (fat16.setEntry v disk f 0xFFFF)) n =
      liveCount (place.entries disk) n := liveCount_congr fun i _ => by
    rw [FatDirectoryItem.Deleted, hraw, FatDirectoryItem.Deleted]
  have hle : n ≤ terminatorAfter (place.entries disk) n := by
    rw [terminatorAfter]
    split_ifs <;> omega
  obtain ⟨dir', hload, hfrom, hbase⟩ := h.fits.load h.sectorSize_eq
    (FaultFree.setEntry h.faultFree) (h.keepsUsed_setEntry hf) hterm hle (by omega)
  obtain rfl := Except.ok.inj (Option.some.inj (hload.symm.trans (h.parent f hf).2))
  exact ⟨by rw [hfrom.total_eq, hcount], hbase⟩

/-- The call succeeds. -/
lemma createFile_eq (h : NewFile v priv disk behind path name place base dir n) (now : DateTime)
    (hf : FirstFree16 v disk f) : fat16CreateFile v priv disk now behind path =
      some (32, created v disk now name place base n f) := by
  obtain ⟨hlt, htable⟩ := h.search f hf
  have hne : f ≠ 0 := by
    have hstart := hf.start_le
    omega
  have hfree : (fat16.setEntry v disk f 0xFFFF).FaultFree := FaultFree.setEntry h.faultFree
  obtain ⟨htotal, hbase⟩ := h.dir_eq hf
  obtain ⟨i, hi, hscan⟩ := h.scan
  obtain ⟨r, hr, hfound⟩ := fat16FindFreeEntry_of_free hi hscan
  have hpos := h.fits.newEntryPos_eq (liveCount_lt_terminatorAfter _ n).le h.sectorSize_eq hfree
    (h.keepsUsed_setEntry hf) htotal hbase
  have hbound : base + liveCount (place.entries disk) n * itemSize < 2 ^ 31 := by
    have hend := h.liesAt.base_lt
    have hle : liveCount (place.entries disk) n * itemSize ≤
        (terminatorAfter (place.entries disk) n + 1) * itemSize :=
      Nat.mul_le_mul_right _ ((liveCount_lt_terminatorAfter _ n).le.trans (Nat.le_succ _))
    omega
  -- the second step stores the entry, and the position does not wrap around
  have hcreate : createEntry v (fat16.setEntry v disk f 0xFFFF) (newDirectoryItem now name.text f)
      dir (itemsInMemory v path dir behind) =
        some (32, created v disk now name place base n f,
          { dir with total := i32 (dir.total + 1) }) := by
    rw [createEntry, hfound, Option.bind_some, if_neg hr.ne, hpos, Option.map_some]
    dsimp only
    rw [i32_of_lt (by omega) (by omega), diskstreamerWrite_ok hfree, length_slice]
    rfl
  rw [fat16CreateFile, fat16GenerateClusterChain_one, hf.search_eq hlt, if_neg hne,
    writeFatEntry_eq (fat16_reachable h.header hlt) h.faultFree, Option.bind_some]
  dsimp only
  rw [if_neg hne, (h.parent f hf).1, Option.bind_some]
  dsimp only
  rw [h.path_last, hcreate, Option.bind_some]
  rfl

/-! ## The directory after it -/

/-- The new entry is in use. -/
lemma not_free (h : NewFile v priv disk behind path name place base dir n) :
    ¬ (newDirectoryItem now name.text f).Free := by
  obtain ⟨hzero, hdel⟩ := ShortName.setFilename_raw_zero h.head_ne
    ⟨store (store (fun _ => 0) 16 (numberBytes 2 (creationDate now))) 26 (numberBytes 2 f)⟩
  exact fun hfree => hfree.elim hzero hdel

lemma created_self (h : NewFile v priv disk behind path name place base dir n) :
    SameBytes (place.entries (created v disk now name place base n f)
      (liveCount (place.entries disk) n)) (newDirectoryItem now name.text f) :=
  h.liesAt.storeEntry_self (liveCount_lt_terminatorAfter _ n).le

lemma created_of_ne (h : NewFile v priv disk behind path name place base dir n)
    (hf : FirstFree16 v disk f) (hi : i ≤ terminatorAfter (place.entries disk) n)
    (hne : i ≠ liveCount (place.entries disk) n) :
    SameBytes (place.entries (created v disk now name place base n f) i) (place.entries disk i) :=
  (h.liesAt.storeEntry_of_ne hi hne).trans (h.liesAt.setEntry (h.search f hf).2 _ i)

/-- Every entry is kept but the one that is stored. -/
lemma created_cases (h : NewFile v priv disk behind path name place base dir n) (now : DateTime)
    (hf : FirstFree16 v disk f) (i : ℕ) :
    SameBytes (place.entries (created v disk now name place base n f) i) (place.entries disk i) ∨
      SameBytes (place.entries disk i) (place.entries disk (liveCount (place.entries disk) n)) :=
  (h.liesAt.storeEntry_cases (liveCount_lt_terminatorAfter _ n).le i).imp
    (fun hsame => hsame.trans (h.liesAt.setEntry (h.search f hf).2 _ i)) fun hsame => hsame disk

/-- In front of the new entry none has the name. -/
lemma not_named (h : NewFile v priv disk behind path name place base dir n)
    (hi : i < liveCount (place.entries disk) n) :
    fold (place.entries disk i).fullRelativeFilename ≠ fold name.text := by
  have hle := liveCount_le (place.entries disk) n
  by_cases hdel : (place.entries disk i).Deleted
  · exact hdel.fold_ne h.head_ne
  · exact h.isNew i ⟨fun j hj => h.terminated.used j (by omega), hdel⟩

/-- The directory loads with the new entry, when this is stored in a free one. -/
lemma load_created (h : NewFile v priv disk behind path name place base dir n) (now : DateTime)
    (hf : FirstFree16 v disk f)
    (hfree : (place.entries disk (liveCount (place.entries disk) n)).Free) :
    ∃ dir', place.load (created v disk now name place base n f) = some (.ok dir') ∧
      dir'.total = (liveCount (place.entries disk) n + 1 : ℕ) ∧
      ∀ i ≤ liveCount (place.entries disk) n, SameBytes (dir'.item i)
        (place.entries (created v disk now name place base n f) i) := by
  have hraw : ∀ i ≤ terminatorAfter (place.entries disk) n, i ≠ liveCount (place.entries disk) n →
      (place.entries (created v disk now name place base n f) i).raw 0 =
        (place.entries disk i).raw 0 := fun i hi hne => (h.created_of_ne hf hi hne).raw_zero
  obtain ⟨hterm, hcount⟩ := h.terminated.replace h.spare hfree hraw
    fun hnew => h.not_free (h.created_self.free_iff.mp hnew)
  obtain ⟨dir', hload, hfrom, -⟩ := h.fits.load h.sectorSize_eq h.created_faultFree
    (h.keepsUsed hf) hterm le_rfl hcount.le
  refine ⟨dir', hload, hfrom.total_eq.trans (congrArg _ hcount), fun i hi => ?_⟩
  exact hfrom.raw_eq i (by omega)

/-- The name is found in the directory when no part of it is lost. -/
lemma found_iff (h : NewFile v priv disk behind path name place base dir n)
    (hf : FirstFree16 v disk f)
    (hfree : (place.entries disk (liveCount (place.entries disk) n)).Free) :
    (∃ dir' item, place.load (created v disk now name place base n f) = some (.ok dir') ∧
        fat16FindItemInDirectory dir' name.text = some item ∧ item.firstCluster = f) ↔
      name.base.length < 8 ∨ name.ext = [] := by
  obtain ⟨dir', hload, htotal, hsame⟩ := h.load_created now hf hfree
  have hcmp : ∀ item : FatDirectoryItem,
      istrncmp item.fullRelativeFilename name.text maxPath = 0 ↔
        fold item.fullRelativeFilename = fold name.text := fun item =>
    istrncmp_eq_zero_iff_of_lt item.zero_notMem_fullRelativeFilename name.zero_notMem_text
      (item.length_fullRelativeFilename_le.trans_lt (by decide))
  -- the new entry has the name if the driver reads it back, and none before it has
  have hself := (hsame _ le_rfl).trans h.created_self
  have hnamed : istrncmp (dir'.item (liveCount (place.entries disk) n)).fullRelativeFilename
      name.text maxPath = 0 ↔ name.base.length < 8 ∨ name.ext = [] := by
    rw [hcmp, hself.fullRelativeFilename_eq, newDirectoryItem,
      ShortName.fold_fullRelativeFilename_iff]
  have hbefore : ∀ i < liveCount (place.entries disk) n,
      istrncmp (dir'.item i).fullRelativeFilename name.text maxPath ≠ 0 := by
    intro i hi
    have hlt := liveCount_lt_terminatorAfter (place.entries disk) n
    rw [ne_eq, hcmp, ((hsame i hi.le).trans
      (h.created_of_ne hf (by omega) hi.ne)).fullRelativeFilename_eq]
    exact h.not_named hi
  constructor
  · rintro ⟨dir'', item, hload', hfind, -⟩
    obtain rfl := Except.ok.inj (Option.some.inj (hload.symm.trans hload'))
    obtain ⟨i, hfirst, -⟩ := fat16_findItem_iff.mp hfind
    have hlt := hfirst.lt
    have hi : i = liveCount (place.entries disk) n := by
      by_contra hne
      exact hbefore i (by omega) hfirst.named
    rw [← hnamed, ← hi]
    exact hfirst.named
  · intro hshort
    refine ⟨dir', _, hload, fat16_findItem_iff.mpr
      ⟨liveCount (place.entries disk) n, ⟨by omega, hnamed.mpr hshort, hbefore⟩, rfl⟩, ?_⟩
    rw [hself.firstCluster_eq, firstCluster_newDirectoryItem now name (h.search f hf).1]

/-- The file is created when the entry with the number of the live ones is free, and the name keeps
its extension. -/
lemma createsFile_iff (h : NewFile v priv disk behind path name place base dir n)
    (hf : FirstFree16 v disk f) : CreatesFile v priv disk now behind path place ↔
      (place.entries disk (liveCount (place.entries disk) n)).Free ∧
        (name.base.length < 8 ∨ name.ext = []) := by
  have heq := h.createFile_eq now hf
  have hcluster : (fat16GetFirstFirstCluster v priv disk).1 = f :=
    hf.search_eq (h.search f hf).1 priv
  constructor
  · rintro ⟨res, disk', hcall, hsuccess, -⟩
    obtain ⟨rfl, rfl⟩ := Prod.mk.inj (Option.some.inj (heq.symm.trans hcall))
    have hin := hsuccess (by decide)
    rw [hcluster, h.path_last] at hin
    obtain ⟨i, -, hfree, hstored⟩ := hin.stored
    have hfree' : (place.entries disk (liveCount (place.entries disk) n)).Free := by
      rcases h.created_cases now hf i with hsame | hsame
      · -- an entry that is kept is not the new one
        exact absurd (hstored.free_iff.mp (hsame.free_iff.mpr hfree)) h.not_free
      · exact hsame.free_iff.mp hfree
    exact ⟨hfree', (h.found_iff hf hfree').mp hin.found⟩
  · rintro ⟨hfree, hshort⟩
    refine ⟨32, _, heq, fun _ => ?_, fun hres => absurd hres (by decide)⟩
    rw [hcluster, h.path_last]
    have hle := (liveCount_lt_terminatorAfter (place.entries disk) n).le
    refine ⟨⟨_, hle.trans_lt h.liesAt.lt_capacity, hfree, h.created_self⟩, fun j _ hlive => ?_,
      (h.found_iff hf hfree).mpr hshort, h.fatEntry_eq_zero hf, ?_⟩
    · rcases h.created_cases now hf j with hsame | hsame
      · exact hsame
      · -- a live entry is not the one that was free
        rcases hsame.free_iff.mpr hfree with hzero | hdel
        · exact absurd hzero (hlive.1 j le_rfl)
        · exact absurd hdel hlive.2
    · rw [created, h.liesAt.fatEntry_storeEntry (h.search f hf).2]
      exact fatEntry_setEntry_self (by decide)

end NewFile

/-- When no cluster is found, the call fails and leaves the disk as it is. -/
lemma NoneFree16.createFile_eq (h : NoneFree16 v disk) :
    fat16CreateFile v priv disk now behind path = some (-enodiskspace, disk) := by
  rw [fat16CreateFile, fat16GenerateClusterChain_one, if_pos (h.search_eq priv), Option.bind_some]
  exact if_pos rfl

/-- A file is created, or the call fails and leaves the table as it is, exactly when no cluster is
found, or the entry with the number of the live ones is free and the name keeps its extension. -/
theorem fat16_create_file_iff (now : DateTime)
    (h : NewFile v priv disk behind path name place base dir n) :
    CreatesFile v priv disk now behind path place ↔ NoneFree16 v disk ∨
      (place.entries disk (liveCount (place.entries disk) n)).Free ∧
        (name.base.length < 8 ∨ name.ext = []) := by
  rcases noneFree_or_firstFree v disk with hnone | ⟨f, hf⟩
  · refine iff_of_true ⟨-enodiskspace, disk, hnone.createFile_eq, fun hres => ?_, fun _ _ => rfl⟩
      (Or.inl hnone)
    exact absurd hres (by decide)
  · rw [or_iff_right fun hnone => hnone.not_firstFree hf]
    exact h.createsFile_iff hf

/-! ## The file `A` -/

/-- The name `A`. -/
def nameA : ShortName where
  base := [0x41]
  ext := []
  base_ne_nil := List.cons_ne_nil _ _
  base_le := by decide
  ext_le := by decide
  plain := by simp

/-- An empty table, and a root directory with entries of which only the first byte is not zero. -/
def rootDisk (heads : List UInt8) : Disk :=
  diskWith fun a => if a < 1024 ∨ (a - 1024) % itemSize ≠ 0 then 0
    else heads.getD ((a - 1024) / itemSize) 0

/-- The volume with its root directory, as it is loaded. -/
def loadedRoot (heads : List UInt8) : FatPrivate where
  rootDirectory := ⟨itemsOf (slice (rootDisk heads).byte
      (fat16RootSector smallVolume * smallVolume.sectorSize)
      (smallVolume.rootDirEntries * itemSize)),
    liveCount (rootEntries smallVolume (rootDisk heads)) heads.length, fat16RootSector smallVolume⟩
  fsInfoLocation := 0
  fsinfo _ := 0

variable {heads : List UInt8}

lemma rootDisk_faultFree (heads : List UInt8) : (rootDisk heads).FaultFree :=
  diskWith_faultFree _

lemma rootDisk_raw (heads : List UInt8) (i : ℕ) :
    (rootEntries smallVolume (rootDisk heads) i).raw 0 = heads.getD i 0 := by
  have hraw : (rootEntries smallVolume (rootDisk heads) i).raw 0 =
      (rootDisk heads).byte (1024 + i * itemSize) := rfl
  rw [hraw, rootDisk, diskWith]
  dsimp only
  rw [if_neg (by rw [itemSize]; omega), Nat.add_sub_cancel_left,
    Nat.mul_div_cancel _ (by decide)]

lemma rootDisk_terminated (hzero : 0 ∉ heads) :
    Terminated (rootEntries smallVolume (rootDisk heads)) heads.length := by
  refine ⟨fun i hi h0 => hzero ?_, ?_⟩
  · rw [rootDisk_raw, List.getD_eq_getElem _ _ hi] at h0
    rw [← h0]
    exact List.getElem_mem hi
  · rw [rootDisk_raw, List.getD_eq_default _ _ le_rfl]

/-- The first cluster that is tried is free. -/
lemma rootDisk_firstFree (heads : List UInt8) : FirstFree16 smallVolume (rootDisk heads) 3 := by
  refine ⟨le_rfl, by decide, ?_, fun c hc hc' => absurd hc (by omega)⟩
  rw [entryCode_eq (rootDisk_faultFree heads) (by decide)]
  have hzero : fat16.fatEntry smallVolume (rootDisk heads) 3 =
      fat16.fatEntry smallVolume (diskWith fun _ => 0) 3 := by
    refine fatEntry_congr fun a _ ha => if_pos (Or.inl (ha.trans_le (by decide)))
  exact hzero.trans (by decide)

/-- Marking the cluster does not change how the root directory is loaded. -/
lemma rootDisk_load (hzero : 0 ∉ heads) (hlt : heads.length < 16) :
    fat16GetRootDirectory smallVolume (fat16.setEntry smallVolume (rootDisk heads) 3 0xFFFF) =
      some (.ok (loadedRoot heads).rootDirectory) := by
  have hbyte : ∀ a, 1024 ≤ a → (fat16.setEntry smallVolume (rootDisk heads) 3 0xFFFF).byte a =
      (rootDisk heads).byte a := fun a ha =>
    store_of_lt (Or.inr ((show _ ≤ 1024 by decide).trans ha))
  have hentries : rootEntries smallVolume (fat16.setEntry smallVolume (rootDisk heads) 3 0xFFFF) =
      rootEntries smallVolume (rootDisk heads) := by
    funext i
    refine congrArg FatDirectoryItem.mk (funext fun j => hbyte _ ?_)
    exact Nat.le_add_right 1024 _
  have hslice : slice (fat16.setEntry smallVolume (rootDisk heads) 3 0xFFFF).byte
      (fat16RootSector smallVolume * smallVolume.sectorSize)
      (smallVolume.rootDirEntries * itemSize) = slice (rootDisk heads).byte
      (fat16RootSector smallVolume * smallVolume.sectorSize)
      (smallVolume.rootDirEntries * itemSize) :=
    slice_eq_iff.mpr fun i _ => hbyte _ (Nat.le_add_right 1024 i)
  have hroot : RootDirectory smallVolume (fat16.setEntry smallVolume (rootDisk heads) 3 0xFFFF)
      heads.length := by
    refine ⟨?_, hlt, by decide⟩
    rw [hentries]
    exact rootDisk_terminated hzero
  rw [hroot.load_eq (FaultFree.setEntry (rootDisk_faultFree heads)), hslice, hentries]
  rfl

/-- Creating `A` in the root directory. -/
lemma newFile_rootDisk (behind : ℕ → FatDirectoryItem) (hzero : 0 ∉ heads)
    (hlt : heads.length + 1 < 16)
    (hnew : ∀ j, LiveAt (rootEntries smallVolume (rootDisk heads)) j →
      fold (rootEntries smallVolume (rootDisk heads) j).fullRelativeFilename ≠ fold nameA.text) :
    NewFile smallVolume (loadedRoot heads) (rootDisk heads) behind [[0x41]] nameA
      (rootPlace smallVolume) (fat16RootSector smallVolume * smallVolume.sectorSize)
      (loadedRoot heads).rootDirectory heads.length where
  faultFree := rootDisk_faultFree heads
  header := headerRanges_small
  sectorSize_eq := rfl
  search f hf := by
    obtain rfl := hf.unique (rootDisk_firstFree heads)
    exact ⟨by decide, by rw [InTable]; decide⟩
  terminated := rootDisk_terminated hzero
  spare _ := (rootDisk_raw heads _).trans (List.getD_eq_default _ _ (Nat.le_succ _))
  fits := by
    have hle := liveCount_le (rootEntries smallVolume (rootDisk heads)) heads.length
    have hterm : terminatorAfter ((rootPlace smallVolume).entries (rootDisk heads)) heads.length ≤
        heads.length + 1 := by
      rw [terminatorAfter]
      split_ifs
      · exact le_rfl
      · exact Nat.le_succ _
    have hend : fat16RootSector smallVolume * smallVolume.sectorSize = 1024 := rfl
    have hEPC : entriesPerCluster smallVolume = 16 := by decide
    refine .root ⟨hterm.trans_lt hlt, ?_, ?_⟩
    · rw [hend, itemSize]
      omega
    · rw [hEPC]
      exact hle.trans_lt (by omega)
  path_last := rfl
  head_ne := by decide
  isNew := hnew
  parent f hf := by
    obtain rfl := hf.unique (rootDisk_firstFree heads)
    exact ⟨rfl, rootDisk_load hzero (by omega)⟩
  scan := by
    refine ⟨heads.length, by omega, Or.inl ?_⟩
    have hmem : itemsInMemory smallVolume [[0x41]] (loadedRoot heads).rootDirectory behind
        heads.length = (loadedRoot heads).rootDirectory.item heads.length :=
      if_pos (show heads.length < 16 by omega)
    have hitem : ((loadedRoot heads).rootDirectory.item heads.length).raw 0 =
        (rootEntries smallVolume (rootDisk heads) heads.length).raw 0 :=
      itemsOf_slice (show heads.length * 32 + 0 < 16 * 32 by omega)
    rw [hmem, hitem]
    exact (rootDisk_terminated hzero).terminator

/-- The first day of the year 2000. -/
def newYear : DateTime := ⟨0, 0, 0, 1, 1, 2000⟩

/-- In an empty root directory. -/
theorem fat16_create_file_iff_empty :
    CreatesFile smallVolume (loadedRoot []) (rootDisk []) newYear (fun _ => ⟨fun _ => 0⟩) [[0x41]]
        (rootPlace smallVolume) ↔
      NoneFree16 smallVolume (rootDisk []) ∨
        (rootEntries smallVolume (rootDisk [])
          (liveCount (rootEntries smallVolume (rootDisk [])) 0)).Free ∧
        (nameA.base.length < 8 ∨ nameA.ext = []) :=
  fat16_create_file_iff newYear (newFile_rootDisk _ List.not_mem_nil (by decide)
    fun j hlive => absurd (rootDisk_raw [] j) (hlive.1 j le_rfl))

/-- When the entry of `B` stands behind a deleted one, that of `A` is stored in its place. -/
theorem not_fat16_create_file : (rootDisk [0xE5, 0x42]).FaultFree ∧
    FirstFree16 smallVolume (rootDisk [0xE5, 0x42]) 3 ∧
    (rootEntries smallVolume (rootDisk [0xE5, 0x42]) 0).Free ∧
    (∀ j, LiveAt (rootEntries smallVolume (rootDisk [0xE5, 0x42])) j →
      fold (rootEntries smallVolume (rootDisk [0xE5, 0x42]) j).fullRelativeFilename ≠
        fold nameA.text) ∧
    ¬ CreatesFile smallVolume (loadedRoot [0xE5, 0x42]) (rootDisk [0xE5, 0x42]) newYear
      (fun _ => ⟨fun _ => 0⟩) [[0x41]] (rootPlace smallVolume) := by
  have hnew : ∀ j, LiveAt (rootEntries smallVolume (rootDisk [0xE5, 0x42])) j →
      fold (rootEntries smallVolume (rootDisk [0xE5, 0x42]) j).fullRelativeFilename ≠
        fold nameA.text := by
    intro j hlive
    have hend : ¬ 2 ≤ j := fun hj => hlive.1 2 hj (rootDisk_raw _ 2)
    have hfirst : j ≠ 0 := by
      rintro rfl
      exact hlive.2 (rootDisk_raw _ 0)
    obtain rfl : j = 1 := by omega
    decide
  refine ⟨rootDisk_faultFree _, rootDisk_firstFree _, Or.inr (rootDisk_raw _ 0), hnew, ?_⟩
  rw [(newFile_rootDisk _ (by simp) (by decide) hnew).createsFile_iff (rootDisk_firstFree _)]
  rintro ⟨hfree, -⟩
  have hcount : liveCount (rootEntries smallVolume (rootDisk [0xE5, 0x42]))
      [(0xE5 : UInt8), 0x42].length = 1 := by decide
  rw [rootPlace] at hfree
  rw [hcount, FatDirectoryItem.Free, rootDisk_raw] at hfree
  exact absurd hfree (by simp)

end SerpaeOS
