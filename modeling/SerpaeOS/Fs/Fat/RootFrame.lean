import SerpaeOS.Fs.Fat.Capacity
import SerpaeOS.Fs.Fat.Delete

/-!
# The root directory in memory

`fat16_resolve` reads the root directory once, and every later search starts from what it read.
The functions that change a file store its directory entry on the disk only.  The entries in
memory are those on the disk, up to the dates of access, as long as no entry of the root directory
is stored but by `fat16_open`.
-/

namespace SerpaeOS

open Bytes Word Prog FatKind

/-! ## Entries -/

/-- The entries agree up to the date of the last access. -/
def FatDirectoryItem.Agrees (e f : FatDirectoryItem) : Prop :=
  ∀ j < itemSize, j ≠ 18 → j ≠ 19 → e.raw j = f.raw j

/-- The entries belong to files of the same size with the same first cluster. -/
structure FatDirectoryItem.SameFile (e f : FatDirectoryItem) : Prop where
  filesize_eq : e.filesize = f.filesize
  firstCluster_eq : e.firstCluster = f.firstCluster

namespace FatDirectoryItem

variable {e f g : FatDirectoryItem}

lemma Agrees.refl (e : FatDirectoryItem) : e.Agrees e := fun _ _ _ _ => rfl

lemma Agrees.symm (h : e.Agrees f) : f.Agrees e := fun j hj h1 h2 => (h j hj h1 h2).symm

lemma Agrees.trans (h : e.Agrees f) (h' : f.Agrees g) : e.Agrees g :=
  fun j hj h1 h2 => (h j hj h1 h2).trans (h' j hj h1 h2)

/-- The date of access is not compared. -/
lemma agrees_date (e : FatDirectoryItem) (now : ℕ) :
    FatDirectoryItem.Agrees ⟨store e.raw 18 (numberBytes 2 now)⟩ e := by
  intro j _ h1 h2
  refine store_of_lt ?_
  rw [length_numberBytes]
  omega

lemma Agrees.name_eq (h : e.Agrees f) : e.fullRelativeFilename = f.fullRelativeFilename :=
  (fullRelativeFilename_congr fun j hj =>
    h j (hj.trans (by decide)) (by omega) (by omega)).1

lemma Agrees.attributeBits_eq (h : e.Agrees f) : e.attributeBits = f.attributeBits :=
  congrArg UInt8.toNat (h 11 (by decide) (by decide) (by decide))

lemma Agrees.sameFile (h : e.Agrees f) : e.SameFile f := by
  have hraw : ∀ j, 20 ≤ j → j < 32 → e.raw j = f.raw j :=
    fun j h1 h2 => h j h2 (by omega) (by omega)
  refine ⟨u32le_congr fun i hi => hraw _ (by omega) (by omega), ?_⟩
  have hhigh : e.high16BitsFirstCluster = f.high16BitsFirstCluster :=
    u16le_congr fun i hi => hraw _ (by omega) (by omega)
  have hlow : e.low16BitsFirstCluster = f.low16BitsFirstCluster :=
    u16le_congr fun i hi => hraw _ (by omega) (by omega)
  rw [firstCluster, firstCluster, hhigh, hlow]

lemma low16BitsFirstCluster_markDeleted (e : FatDirectoryItem) :
    e.markDeleted.low16BitsFirstCluster = e.low16BitsFirstCluster := by
  refine u16le_congr fun i _ => store_of_lt (Or.inr ?_)
  rw [List.length_singleton]
  omega

end FatDirectoryItem

/-! ## Directories -/

/-- The directories have entries that agree. -/
structure DirectoriesAgree (d d' : FatDirectory) : Prop where
  total_eq : d.total = d'.total
  agrees : ∀ i < d.total.toNat, (d.item i).Agrees (d'.item i)

variable {d d' : FatDirectory} {name : List UInt8} {names : List (List UInt8)}
  {item : FatDirectoryItem} {mt : FatMount} {i b : ℕ}

lemma DirectoriesAgree.symm (h : DirectoriesAgree d d') : DirectoriesAgree d' d :=
  ⟨h.total_eq.symm, fun i hi => (h.agrees i (h.total_eq ▸ hi)).symm⟩

lemma DirectoriesAgree.firstNamed (h : DirectoriesAgree d d') (hi : FirstNamed d name i) :
    FirstNamed d' name i := by
  refine ⟨h.total_eq ▸ hi.lt, ?_, fun j hj => ?_⟩
  · rw [← (h.agrees i hi.lt).name_eq]
    exact hi.named
  · rw [← (h.agrees j (hj.trans hi.lt)).name_eq]
    exact hi.first j hj

/-- Directories that agree lead to the same files. -/
lemma DirectoriesAgree.fileAt (h : DirectoriesAgree d d') (hkind : mt.kind = fat16)
    (hfile : FileAt mt d names item b) :
    ∃ item', FileAt mt d' names item' b ∧ item.Agrees item' := by
  have hfound : ∀ {name : List UInt8} {e : FatDirectoryItem},
      mt.kind.findItemInDirectory d name = some e →
        ∃ e', mt.kind.findItemInDirectory d' name = some e' ∧ e.Agrees e' := by
    intro name e hfind
    rw [hkind] at hfind ⊢
    obtain ⟨i, hi, rfl⟩ := fat16_findItem_iff.mp hfind
    exact ⟨_, fat16_findItem_iff.mpr ⟨i, h.firstNamed hi, rfl⟩, h.agrees i hi.lt⟩
  cases hfile with
  | file hfind hattr =>
    obtain ⟨e', hfind', hagrees⟩ := hfound hfind
    exact ⟨e', .file hfind' (hagrees.attributeBits_eq ▸ hattr), hagrees⟩
  | @sub _ d₁ _ _ sub _ _ hfind hattr hload hrest =>
    obtain ⟨e', hfind', hagrees⟩ := hfound hfind
    have hattr' := hagrees.attributeBits_eq ▸ hattr
    refine ⟨item, .sub hfind' hattr' ?_ hrest, .refl item⟩
    -- the clusters of the directory are those that the other entry names
    rw [FatKind.loadFatDirectory, if_neg hattr] at hload
    rw [FatKind.loadFatDirectory, if_neg hattr', FatDirectoryItem.firstClusterInt,
      ← hagrees.sameFile.firstCluster_eq]
    exact hload

/-! ## The root directory on the disk -/

/-- A small volume whose root directory lies in front of the data area, and whose tables have an
entry for every number that the search for a free cluster comes to. -/
structure SoundVolume (v : FatVolume) : Prop extends SmallVolume v where
  root_le : v.tablesEnd + v.rootDirEntries * itemSize ≤ fat16.dataStart v
  search_in : fat16.tablePos v (searchEnd v) + 2 ≤ v.tablesEnd
  search_lt : searchEnd v < 0xFFF7

/-- The disks do not differ in the root directory but in dates of access. -/
structure SameRoot (v : FatVolume) (disk disk' : Disk) : Prop where
  faultFree : disk'.FaultFree
  agrees : ∀ i < v.rootDirEntries, (rootEntries v disk' i).Agrees (rootEntries v disk i)

variable {v : FatVolume} {disk disk' disk'' : Disk} {n : ℕ}

lemma SameRoot.refl (hf : disk.FaultFree) : SameRoot v disk disk := ⟨hf, fun _ _ => .refl _⟩

lemma SameRoot.trans (h : SameRoot v disk disk') (h' : SameRoot v disk' disk'') :
    SameRoot v disk disk'' :=
  ⟨h'.faultFree, fun i hi => (h'.agrees i hi).trans (h.agrees i hi)⟩

lemma rootEntries_raw (v : FatVolume) (disk : Disk) (i j : ℕ) :
    (rootEntries v disk i).raw j = disk.byte (v.tablesEnd + (i * itemSize + j)) := by
  have hstart : fat16RootSector v * v.sectorSize = v.tablesEnd := by
    rw [fat16RootSector, FatVolume.tablesEnd, Nat.add_comm]
  rw [rootEntries, entriesIn, hstart]

lemma sameRoot_of_bytes (hf : disk'.FaultFree)
    (h : ∀ a, v.tablesEnd ≤ a → a < v.tablesEnd + v.rootDirEntries * itemSize →
      disk'.byte a = disk.byte a) : SameRoot v disk disk' := by
  refine ⟨hf, fun i hi j hj _ _ => ?_⟩
  have hle : (i + 1) * itemSize ≤ v.rootDirEntries * itemSize := Nat.mul_le_mul_right _ hi
  rw [Nat.succ_mul] at hle
  rw [rootEntries_raw, rootEntries_raw]
  exact h _ (by omega) (by omega)

lemma SameFront.sameRoot (hv : SoundVolume v) (h : SameFront v disk disk') :
    SameRoot v disk disk' := by
  have hstart : v.tablesStart ≤ v.tablesEnd := Nat.mul_le_mul_right _ (Nat.le_add_right _ _)
  have hle := hv.root_le
  exact sameRoot_of_bytes h.faultFree fun a ha ha' => h.byte_eq a (by omega) (by omega)

lemma TakesFree.sameRoot {last : ℕ} (h : TakesFree v last disk disk') : SameRoot v disk disk' :=
  sameRoot_of_bytes h.faultFree fun a ha _ => h.byte_eq a (Or.inr ha)

/-- The entries in memory agree with those of a root directory on the disk. -/
structure RootKept (mt : FatMount) : Prop where
  kind_eq : mt.kind = fat16
  volume : SoundVolume mt.volume
  faultFree : mt.disk.FaultFree
  sector_eq : mt.root.sectorPos = fat16RootSector mt.volume
  cached : ∃ n, RootDirectory mt.volume mt.disk n ∧
    mt.root.total = liveCount (rootEntries mt.volume mt.disk) n ∧
    ∀ i < liveCount (rootEntries mt.volume mt.disk) n,
      (mt.root.item i).Agrees (rootEntries mt.volume mt.disk i)

/-- A volume as `fat16_resolve` mounts it, with a terminated root directory. -/
structure FreshMount (mt : FatMount) : Prop where
  kind_eq : mt.kind = fat16
  volume : SoundVolume mt.volume
  faultFree : mt.disk.FaultFree
  terminated : ∃ n, RootDirectory mt.volume mt.disk n
  loaded : fat16GetRootDirectory mt.volume mt.disk = some (.ok mt.root)

/-- The terminator stays, and the number of entries. -/
lemma SameRoot.rootDirectory (h : SameRoot v disk disk') (hroot : RootDirectory v disk n) :
    RootDirectory v disk' n ∧
      liveCount (rootEntries v disk') n = liveCount (rootEntries v disk) n := by
  have hfirst : ∀ i ≤ n, (rootEntries v disk' i).raw 0 = (rootEntries v disk i).raw 0 :=
    fun i hi => h.agrees i (hi.trans_lt hroot.within) 0 (by decide) (by decide) (by decide)
  refine ⟨⟨⟨fun i hi => ?_, ?_⟩, hroot.within, hroot.root_lt⟩, ?_⟩
  · rw [hfirst i hi.le]
    exact hroot.terminated.used i hi
  · rw [hfirst n le_rfl]
    exact hroot.terminated.terminator
  · refine List.countP_congr fun i hi => ?_
    have hdeleted : (rootEntries v disk' i).Deleted ↔ (rootEntries v disk i).Deleted := by
      rw [FatDirectoryItem.Deleted, hfirst i (List.mem_range.mp hi).le]
      exact Iff.rfl
    simp only [hdeleted]

/-- What is read from the disk is the root directory in memory, up to dates of access. -/
lemma RootKept.load (h : RootKept mt) : ∃ root,
    fat16GetRootDirectory mt.volume mt.disk = some (.ok root) ∧
      DirectoriesAgree mt.root root := by
  obtain ⟨n, hroot, htotal, hagrees⟩ := h.cached
  obtain ⟨root, hload, hfrom⟩ := hroot.load h.faultFree
  refine ⟨root, hload, htotal.trans hfrom.total_eq.symm, fun i hi => ?_⟩
  have hlt : i < liveCount (rootEntries mt.volume mt.disk) n := by
    rw [htotal] at hi
    omega
  exact (hagrees i hlt).trans fun j hj _ _ => (hfrom.raw_eq i hlt j hj).symm

lemma FreshMount.rootKept (h : FreshMount mt) : RootKept mt := by
  obtain ⟨n, hroot⟩ := h.terminated
  obtain ⟨root, hload, hfrom⟩ := hroot.load h.faultFree
  obtain rfl : root = mt.root := Except.ok.inj (Option.some.inj (hload.symm.trans h.loaded))
  refine ⟨h.kind_eq, h.volume, h.faultFree, ?_, n, hroot, hfrom.total_eq,
    fun i hi j hj _ _ => hfrom.raw_eq i hi j hj⟩
  obtain ⟨total, -, hread⟩ := Option.bind_eq_some_iff.mp h.loaded
  simp only at hread
  split_ifs at hread
  · cases hread
  · exact congrArg FatDirectory.sectorPos (Except.ok.inj (Option.some.inj hread)).symm

lemma RootKept.of_sameRoot (h : RootKept mt) (hsame : SameRoot mt.volume mt.disk disk') :
    RootKept { mt with disk := disk' } := by
  obtain ⟨n, hroot, htotal, hagrees⟩ := h.cached
  obtain ⟨hroot', hcount⟩ := hsame.rootDirectory hroot
  refine ⟨h.kind_eq, h.volume, hsame.faultFree, h.sector_eq, n, hroot', ?_, fun i hi => ?_⟩
  · simp only [hcount]
    exact htotal
  · have hle := liveCount_le (rootEntries mt.volume mt.disk) n
    have hin := hroot.within
    simp only [hcount] at hi
    exact (hagrees i hi).trans (hsame.agrees i (by omega)).symm

/-! ## Storing entries -/

/-- A directory entry at the position lies neither in the tables nor in the root directory. -/
def OutsideRoot (v : FatVolume) (slot : ℕ) : Prop :=
  (fat16.dataStart v : ℤ) ≤ i32 slot ∨ i32 slot + itemSize ≤ v.tablesStart

instance (v : FatVolume) (slot : ℕ) : Decidable (OutsideRoot v slot) :=
  inferInstanceAs (Decidable (_ ∨ _))

/-- The entries from the cluster on link data clusters up to the end of a chain. -/
structure ChainFrom (v : FatVolume) (disk : Disk) (first : ℕ) (chain : List ℕ) : Prop where
  ne_nil : chain ≠ []
  first_eq : first = chain.getD 0 0
  linked : fat16.Linked v disk chain
  clusters : ∀ c ∈ chain, TableCluster v c

/-- An entry that is stored outside the root directory. -/
lemma sameFront_writeDirectoryEntry (hf : disk.FaultFree) {entry : ℤ × Disk}
    (hout : ∀ slot, fat16.entryLocation v disk d names = some (some slot) → OutsideRoot v slot)
    (h : fat16.writeDirectoryEntry v disk d names item = some entry) :
    SameFront v disk entry.2 := by
  obtain ⟨hf', hbyte⟩ := writeDirectoryEntry_frame hf h
  refine ⟨hf', fun a ha ha' => hbyte a fun slot hslot => ?_⟩
  rcases hout slot hslot with hpos | hpos
  · exact Or.inl (by omega)
  · exact Or.inr (by omega)

/-- An entry in memory agrees with the one on the disk, which lies in the root directory. -/
lemma RootKept.item_agrees (h : RootKept mt) (hi : i < mt.root.total.toNat) :
    (mt.root.item i).Agrees (rootEntries mt.volume mt.disk i) ∧
      i * itemSize + itemSize ≤ mt.volume.rootDirEntries * itemSize := by
  obtain ⟨n, hroot, htotal, hagrees⟩ := h.cached
  have hlt : i < liveCount (rootEntries mt.volume mt.disk) n := by
    rw [htotal] at hi
    omega
  have hle := liveCount_le (rootEntries mt.volume mt.disk) n
  have hwithin := hroot.within
  refine ⟨hagrees i hlt, ?_⟩
  rw [← Nat.succ_mul]
  exact Nat.mul_le_mul_right _ (by omega)

/-- Storing an entry that was found in the root directory, with another date of access. -/
lemma RootKept.sameRoot_date (h : RootKept mt) (hname : 0 ∉ name) {now : ℕ} {entry : ℤ × Disk}
    (hfile : FileAt mt mt.root [name] item b)
    (hstored : fat16.writeDirectoryEntry mt.volume mt.disk mt.root [name]
      ⟨store item.raw 18 (numberBytes 2 now)⟩ = some entry) :
    SameRoot mt.volume mt.disk entry.2 ∧ SameTables mt.volume mt.disk entry.2 := by
  have hfind : fat16.findItemInDirectory mt.root name = some item := by
    rw [← h.kind_eq]
    exact hfile.find
  obtain ⟨i, hi, rfl⟩ := fat16_findItem_iff.mp hfind
  obtain ⟨hagrees, hend⟩ := h.item_agrees hi.lt
  have hle := h.volume.root_le
  have hdata := h.volume.data_lt
  have hstart : fat16RootSector mt.volume * mt.volume.sectorSize = mt.volume.tablesEnd := by
    rw [fat16RootSector, FatVolume.tablesEnd, Nat.add_comm]
  have hlocation : fat16.entryLocation mt.volume mt.disk mt.fatPrivate.rootDirectory [name] =
      some (some (mt.volume.tablesEnd + i * itemSize)) := by
    rw [← hstart]
    exact entryLocation_root (hi.entryIndex_eq hname) h.sector_eq (by omega)
  change (fat16.entryLocation mt.volume mt.disk mt.fatPrivate.rootDirectory [name]).map _ = _
    at hstored
  rw [hlocation, Option.map_some] at hstored
  obtain rfl := Option.some.inj hstored
  simp only
  rw [i32_of_lt (by omega) (by omega), diskstreamerWrite_ok h.faultFree]
  have hf : ∀ byte, Disk.FaultFree { mt.disk with byte := byte } := fun _ =>
    ⟨h.faultFree.read_ok, h.faultFree.write_ok⟩
  refine ⟨⟨hf _, fun x hx j hj h1 h2 => ?_⟩, hf _, fun a _ ha => store_of_lt (Or.inl (by omega))⟩
  rw [rootEntries_raw, rootEntries_raw]
  simp only
  rcases Nat.lt_trichotomy x i with hxi | rfl | hxi
  · have hmul : (x + 1) * itemSize ≤ i * itemSize := Nat.mul_le_mul_right _ hxi
    rw [Nat.succ_mul] at hmul
    exact store_of_lt (Or.inl (by omega))
  · -- the entry itself: the one in memory agrees with the one on the disk
    have hitem := hagrees j hj h1 h2
    rw [rootEntries_raw] at hitem
    rw [← hitem, ← Nat.add_assoc, store_add (by rw [length_slice]; exact hj), getD_slice hj,
      Nat.zero_add]
    exact FatDirectoryItem.agrees_date (mt.root.item x) now j hj h1 h2
  · have hmul : (i + 1) * itemSize ≤ x * itemSize := Nat.mul_le_mul_right _ hxi
    rw [Nat.succ_mul] at hmul
    refine store_of_lt (Or.inr ?_)
    rw [length_slice]
    omega

/-! ## Opening -/

/-- The path has one part, or its entry does not lie in the root directory of the disk. -/
def OpenOutside (mt : FatMount) (names : List (List UInt8)) : Prop :=
  names.length = 1 ∨ ∀ slot,
    fat16.entryLocation mt.volume mt.disk mt.root names = some (some slot) →
      OutsideRoot mt.volume slot

/-- The disk after a call of `fat16_open`: an entry found for the path has been stored with
another date of access, or nothing was stored. -/
lemma FatMount.ends_fatOpen_disk (path : List PathPart) (mode now : ℕ) (m : KMemory) :
    Ends (mt.fatOpen path mode now) m fun r _ => r.2 = mt.disk ∨
      ∃ item b res, FileAt mt mt.root (path.map PathPart.part) item b ∧
        mt.kind.writeDirectoryEntry mt.volume mt.disk mt.root (path.map PathPart.part)
          ⟨store item.raw 18 (numberBytes 2 now)⟩ = some (res, r.2) := by
  refine Ends.bind (P := fun _ _ => True) (fun _ _ _ => trivial) fun ptr m₁ _ => ?_
  refine Ends.ite (fun _ => ends_pure (Or.inl rfl)) fun _ => ?_
  refine Ends.bind (P := fun r _ => ∀ p q item, r = some (.file p q item) →
      ∃ b, FileAt mt mt.root (path.map PathPart.part) item b) ?_ fun r m₂ hr => ?_
  · intro r m₂ hrun p q item hitem
    subst hitem
    exact FatMount.fileAt_of_openItem hrun
  rcases r with _ | ⟨p, q, item⟩ | ⟨p, handle⟩
  · exact Ends.bind (P := fun _ _ => True) (fun _ _ _ => trivial) fun _ m₃ _ =>
      ends_pure (Or.inl rfl)
  · refine Ends.ite (fun _ => ends_stuck) fun _ => Ends.ite (fun _ => ?_) fun _ => ?_
    · exact Ends.bind (P := fun _ _ => True) (fun _ _ _ => trivial) fun _ m₃ _ =>
        ends_pure (Or.inl rfl)
    obtain ⟨b, hfile⟩ := hr p q item rfl
    refine (FatMount.ends_writeDirectoryEntry _ m₂).bind fun written m₃ hwritten => ends_pure ?_
    rcases hwritten with rfl | hstored
    · exact Or.inl rfl
    · exact Or.inr ⟨item, b, written.1, hfile, hstored⟩
  · exact Ends.bind (P := fun _ _ => True) (fun _ _ _ => trivial) fun _ m₃ _ =>
      ends_pure (Or.inl rfl)

/-- The file that was opened has the path and the mode it was opened with. -/
lemma FatMount.ends_fatOpen_file (path : List PathPart) (mode now : ℕ) (m : KMemory) :
    Ends (mt.fatOpen path mode now) m fun r _ =>
      ∀ f, r.1 = .ok f → f.path = path ∧ f.mode = mode := by
  have hfail : ∀ (p : Ptr) (e : ℤ) (m : KMemory), Ends (do
      release p
      return (.error e, mt.disk) : KProg (Except ℤ FatOpenFile × Disk)) m fun r _ =>
        ∀ f, r.1 = .ok f → f.path = path ∧ f.mode = mode := fun p e m =>
    Ends.bind (P := fun _ _ => True) (fun _ _ _ => trivial) fun _ m' _ =>
      ends_pure fun f hf => nomatch hf
  refine Ends.bind (P := fun _ _ => True) (fun _ _ _ => trivial) fun ptr m₁ _ => ?_
  refine Ends.ite (fun _ => ends_pure fun f hf => nomatch hf) fun _ => ?_
  refine Ends.bind (P := fun _ _ => True) (fun _ _ _ => trivial) fun r m₂ _ => ?_
  rcases r with _ | ⟨p, q, item⟩ | ⟨p, handle⟩
  · exact hfail _ _ _
  · refine Ends.ite (fun _ => ends_stuck) fun _ => Ends.ite (fun _ => hfail _ _ _) fun _ => ?_
    refine Ends.bind (P := fun _ _ => True) (fun _ _ _ => trivial) fun _ m₃ _ => ends_pure ?_
    intro f hf
    cases hf
    exact ⟨rfl, rfl⟩
  · exact hfail _ _ _

/-- Opening a file changes at most a date of access in the root directory, and no table. -/
lemma RootKept.ends_fatOpen (h : RootKept mt) {path : List PathPart}
    (hname : ∀ name ∈ path.map PathPart.part, 0 ∉ name)
    (hout : OpenOutside mt (path.map PathPart.part)) (mode now : ℕ) (m : KMemory) :
    Ends (mt.fatOpen path mode now) m fun r _ =>
      SameRoot mt.volume mt.disk r.2 ∧ SameTables mt.volume mt.disk r.2 := by
  refine (FatMount.ends_fatOpen_disk path mode now m).mono fun r _ hr => ?_
  rcases hr with hsame | ⟨item, b, res, hfile, hstored⟩
  · rw [hsame]
    exact ⟨.refl h.faultFree, h.faultFree, fun _ _ _ => rfl⟩
  rw [h.kind_eq] at hstored
  rcases hout with hone | hout
  · obtain ⟨name, hpath⟩ := List.length_eq_one_iff.mp hone
    rw [hpath] at hfile hstored hname
    exact h.sameRoot_date (hname name List.mem_cons_self) hfile hstored
  · have hfront := sameFront_writeDirectoryEntry h.faultFree hout hstored
    exact ⟨hfront.sameRoot h.volume, hfront.sameTables⟩

/-! ## Writing -/

/-- The file has a chain of data clusters, and its directory entry, when there are enough free
clusters for it to be stored, does not lie in the root directory, whatever the last cluster and
the free ones are linked to. -/
structure WriteOutside (mt : FatMount) (f : FatOpenFile) (size : ℤ) : Prop where
  chain : ∃ chain, ChainFrom mt.volume mt.disk (f.item.firstCluster % 2 ^ 16) chain
  entry : clustersToAdd mt.volume f.item.filesize size ≤
      (fat16.freeClusters mt.volume mt.disk).length → ∀ last disk slot,
    fat16.findLastClusterOfChain mt.volume mt.disk (f.item.firstCluster % 2 ^ 16) = some last →
    TakesFree mt.volume last mt.disk disk →
    fat16.entryLocation mt.volume disk mt.root (f.path.map PathPart.part) = some (some slot) →
      OutsideRoot mt.volume slot

/-- The clusters that the search finds have their entries in the tables. -/
lemma SoundVolume.tableCluster (hv : SoundVolume v) {c : ℕ} (hc : c ∈ fat16.freeClusters v disk) :
    TableCluster v c := by
  obtain ⟨⟨h3, hle⟩, -⟩ := mem_freeClusters.mp hc
  refine ⟨by omega, hle.trans_lt hv.search_lt, hv.near_searchEnd h3 hle, ?_⟩
  have hin := hv.search_in
  have hmul : c * fat16.entrySize ≤ searchEnd v * fat16.entrySize := Nat.mul_le_mul_right _ hle
  simp only [tablePos] at hin ⊢
  omega

lemma ChainFrom.findLast_eq {first : ℕ} {chain : List ℕ} (h : ChainFrom v disk first chain)
    (hv : SmallVolume v) (hf : disk.FaultFree) :
    fat16.findLastClusterOfChain v disk first = some (lastCluster chain) := by
  have hpos := List.length_pos_iff.mpr h.ne_nil
  rw [h.first_eq]
  exact h.linked.findLast_eq hf (fun c hc => (h.clusters c hc).tablePos_lt hv)
    (fun c hc => (h.clusters c hc).lt_endOfChain) (chain.length - 1) 0 (by omega)

/-- Adding clusters to a chain. -/
lemma ChainFrom.growLoop {first : ℕ} {chain : List ℕ} (h : ChainFrom v disk first chain)
    (hv : SoundVolume v) (hf : disk.FaultFree) (priv : FatPrivate) (count : ℕ) :
    ∃ res disk' new, fat16Driver.growLoop v first count priv disk = some (res, priv, disk') ∧
      TakesFree v (lastCluster chain) disk disk' ∧ ChainFrom v disk' first (chain ++ new) ∧
      (0 ≤ res → count ≤ (fat16.freeClusters v disk).length) := by
  obtain ⟨res, disk', new, hgrow, htakes, hlinked, hnew, hlen⟩ := fat16GrowLoop_linked
    hv.toSmallVolume priv count h.linked h.ne_nil h.clusters hf fun c hc =>
      hv.tableCluster (List.mem_of_mem_take hc)
  refine ⟨res, disk', new, by rw [h.first_eq, hgrow], htakes, ⟨?_, ?_, hlinked, ?_⟩,
    fun hres => (hlen hres).2⟩
  · simp [h.ne_nil]
  · rw [getD_zero_append h.ne_nil, h.first_eq]
  · exact fun c hc => (List.mem_append.mp hc).elim (h.clusters c) (hnew c)

/-- A write that stores the directory entry outside the root directory. -/
lemma RootKept.sameRoot_fat16Write (h : RootKept mt) {f : FatOpenFile} {buf : ℕ → UInt8}
    {size : ℤ} (hout : size ≠ 0 → f.mode &&& fileModeWrite ≠ 0 → WriteOutside mt f size)
    {w : WriteResult}
    (hwrite : fat16Write mt.volume mt.fatPrivate mt.disk f.descriptor buf size = some w) :
    SameRoot mt.volume mt.disk w.disk := by
  by_cases hsize : size = 0
  · rw [fat16Write, FatDriver.write, if_pos hsize] at hwrite
    cases hwrite
    exact .refl h.faultFree
  by_cases hmode : f.descriptor.mode &&& fileModeWrite = 0
  · rw [fat16Write, FatDriver.write, if_neg hsize, if_pos hmode] at hwrite
    cases hwrite
    exact .refl h.faultFree
  obtain ⟨⟨chain, hchain⟩, hentry⟩ := hout hsize hmode
  have hlast := hchain.findLast_eq h.volume.toSmallVolume h.faultFree
  obtain ⟨res, grown, new, hgrow, htakes, hchain', henough⟩ := hchain.growLoop h.volume
    h.faultFree mt.fatPrivate (clustersToAdd mt.volume f.item.filesize size)
  rw [fat16Write_bind buf hsize hmode] at hwrite
  obtain ⟨last, hlast', hwrite⟩ := Option.bind_eq_some_iff.mp hwrite
  obtain rfl : lastCluster chain = last := Option.some.inj (hlast.symm.trans hlast')
  obtain ⟨g, hgrow', hwrite⟩ := Option.bind_eq_some_iff.mp hwrite
  obtain rfl : (res, mt.fatPrivate, grown) = g := Option.some.inj (hgrow.symm.trans hgrow')
  simp only at hwrite
  split_ifs at hwrite with hneg
  · cases hwrite
    exact htakes.sameRoot
  obtain ⟨entry, hstored, hwrite⟩ := Option.bind_eq_some_iff.mp hwrite
  have hfront := sameFront_writeDirectoryEntry htakes.faultFree (fun slot hslot =>
    hentry (henough (Int.not_lt.mp hneg)) _ _ slot hlast htakes hslot) hstored
  have hsame := htakes.sameRoot.trans (hfront.sameRoot h.volume)
  split_ifs at hwrite with hres
  · cases hwrite
    exact hsame
  · cases hwrite
    have hpos := List.length_pos_iff.mpr hchain.ne_nil
    have hgetD : (chain ++ new).getD (chain.length - 1) 0 = lastCluster chain :=
      List.getD_append _ _ _ _ (by omega)
    have hdata := sameFront_writeData mt.fatPrivate h.volume.toSmallVolume hfront.faultFree
      (hfront.sameTables.linked hchain'.linked hchain'.clusters) hchain'.clusters
      (by rw [List.length_append]; omega : chain.length - 1 < (chain ++ new).length)
      { f.descriptor with
        item := f.descriptor.item.setFilesize (u32 (f.descriptor.item.filesize + size)) } buf size
    rw [hgetD] at hdata
    exact hsame.trans (hdata.sameRoot h.volume)

/-- Writing an open file. -/
lemma RootKept.ends_fat16Write (h : RootKept mt) {f : FatOpenFile} {size : ℤ}
    (hout : size ≠ 0 → f.mode &&& fileModeWrite ≠ 0 → WriteOutside mt f size) (buf : ℕ → UInt8)
    (m : KMemory) : Ends (mt.fat16Write f buf size) m fun r _ =>
      ∃ disk, r.2.2 = { mt with disk := disk } ∧ SameRoot mt.volume mt.disk disk := by
  refine (FatMount.ends_fat16Write h.kind_eq f buf size m).mono fun r _ hr => ?_
  rcases hr with ⟨w, hwrite, rfl⟩ | ⟨grown, hsize, hmode, hgrow, -, -, hdisk, -⟩
  · exact ⟨w.disk, rfl, h.sameRoot_fat16Write hout hwrite⟩
  · obtain ⟨chain, hchain⟩ := (hout hsize hmode).chain
    obtain ⟨res, disk, new, hgrow', htakes, -, -⟩ := hchain.growLoop h.volume h.faultFree
      mt.fatPrivate (clustersToAdd mt.volume f.item.filesize size)
    obtain rfl : (res, mt.fatPrivate, disk) = grown := Option.some.inj (hgrow'.symm.trans hgrow)
    exact ⟨disk, hdisk, htakes.sameRoot⟩

/-! ## Deleting -/

/-- The directory entry of the file does not lie in the root directory, and the clusters to be
freed are a chain with the end that the loop stops at. -/
structure DeleteOutside (mt : FatMount) (f : FatOpenFile) : Prop where
  entry : ∀ slot,
    fat16.entryLocation mt.volume mt.disk mt.root (f.path.map PathPart.part) = some (some slot) →
      OutsideRoot mt.volume slot
  chain : f.item.low16BitsFirstCluster ≤ 2 ∨ ∃ chain,
    ChainFrom mt.volume mt.disk f.item.low16BitsFirstCluster chain ∧
      fat16.fatEntry mt.volume mt.disk (lastCluster chain) = 0xFFFF

/-- What is behind the first cluster of a chain stays one when the first cluster is freed. -/
lemma ChainFrom.free {first c : ℕ} {rest : List ℕ} (h : ChainFrom v disk first (c :: rest))
    (hne : rest ≠ []) : ChainFrom v (fat16.setEntry v disk c 0) (rest.getD 0 0) rest := by
  obtain ⟨hnotin, hnodup⟩ := List.nodup_cons.mp h.linked.nodup
  have hsame : ∀ x ∈ rest, fat16.fatEntry v (fat16.setEntry v disk c 0) x =
      fat16.fatEntry v disk x := fun x hx =>
    fatEntry_setEntry_of_ne fun hc => hnotin (hc ▸ hx)
  refine ⟨hne, rfl, ?_, fun x hx => h.clusters x (List.mem_cons_of_mem _ hx)⟩
  refine Linked.congr ⟨hnodup, fun i hi => ?_, fun i hi => ?_⟩ hsame
  · have hnext := h.linked.next (i + 1) (Nat.succ_lt_succ hi)
    rwa [List.getD_cons_succ, List.getD_cons_succ] at hnext
  · have hlast := h.linked.last (i + 1) (congrArg Nat.succ hi)
    rwa [List.getD_cons_succ] at hlast

/-- Freeing a chain changes nothing but its entries. -/
lemma ChainFrom.eraseLoop (hv : SmallVolume v) {last : ℕ} (hle : 0xFFF7 ≤ last) :
    ∀ {chain : List ℕ} {disk : Disk} {first : ℕ}, ChainFrom v disk first chain →
      disk.FaultFree → fat16.fatEntry v disk (lastCluster chain) = last →
      ∃ disk', eraseLoop (fat16.entryCode v)
          (fun disk curr => (fat16.writeFatEntry v disk curr 0x00).2) last disk first =
            some disk' ∧ disk'.FaultFree ∧
        ∀ a, a < v.tablesStart ∨ v.tablesEnd ≤ a → disk'.byte a = disk.byte a := by
  intro chain
  induction chain with
  | nil =>
    intro disk first h
    exact (h.ne_nil rfl).elim
  | cons c rest ih =>
    intro disk first h hf hlast
    have hc := h.clusters c List.mem_cons_self
    obtain rfl : first = c := h.first_eq
    have hcode : fat16.entryCode v disk first = fat16.fatEntry v disk first :=
      entryCode_eq hf (hc.tablePos_lt hv)
    have hf' : (fat16.setEntry v disk first 0).FaultFree := FaultFree.setEntry hf
    rw [eraseLoop_step]
    simp only [hcode, writeFatEntry_eq (hc.tablePos_lt hv) hf]
    by_cases hrest : rest = []
    · subst hrest
      have hone : lastCluster [first] = first := rfl
      rw [hone] at hlast
      rw [if_pos hlast]
      exact ⟨_, rfl, hf', fun a ha => setEntry_byte_of_tables hc 0 ha⟩
    · have hpos := List.length_pos_iff.mpr hrest
      have hnext : fat16.fatEntry v disk first = rest.getD 0 0 := by
        have hnext := h.linked.next 0 (Nat.succ_lt_succ hpos)
        rwa [List.getD_cons_zero, List.getD_cons_succ] at hnext
      have hmem : rest.getD 0 0 ∈ rest := IsChain.getD_mem hpos
      have hbad := (h.clusters _ (List.mem_cons_of_mem _ hmem)).lt_bad
      rw [hnext, if_neg (by omega)]
      have hend : lastCluster (first :: rest) = lastCluster rest := by
        rw [lastCluster, lastCluster, List.length_cons, Nat.add_sub_cancel]
        obtain ⟨m, hm⟩ : ∃ m, rest.length = m + 1 := ⟨rest.length - 1, by omega⟩
        rw [hm, List.getD_cons_succ, Nat.add_sub_cancel]
      have hne : first ≠ lastCluster rest := by
        intro heq
        refine (List.nodup_cons.mp h.linked.nodup).1 ?_
        rw [heq]
        exact lastCluster_mem hrest
      have hkept : fat16.fatEntry v (fat16.setEntry v disk first 0) (lastCluster rest) = _ :=
        fatEntry_setEntry_of_ne hne
      rw [hend, ← hkept] at hlast
      obtain ⟨disk', hloop, hfault, hbyte⟩ := ih (h.free hrest) hf' hlast
      exact ⟨disk', hloop, hfault, fun a ha =>
        (hbyte a ha).trans (setEntry_byte_of_tables hc 0 ha)⟩

lemma ChainFrom.congr {first : ℕ} {chain : List ℕ} (h : ChainFrom v disk first chain)
    (hsame : SameTables v disk disk') : ChainFrom v disk' first chain :=
  ⟨h.ne_nil, h.first_eq, hsame.linked h.linked h.clusters, h.clusters⟩

lemma ChainFrom.fatEntry_last {first : ℕ} {chain : List ℕ} (h : ChainFrom v disk first chain)
    (hsame : SameTables v disk disk') :
    fat16.fatEntry v disk' (lastCluster chain) = fat16.fatEntry v disk (lastCluster chain) := by
  have hin := (h.clusters _ (lastCluster_mem h.ne_nil)).in_tables
  exact fatEntry_congr fun a ha ha' =>
    hsame.byte_eq a ((Nat.le_add_right _ _).trans ha) (ha'.trans_le hin)

/-- Freeing the clusters of a file leaves the root directory alone. -/
lemma sameRoot_eraseClusterChain (hv : SmallVolume v) (hf : disk.FaultFree) {first : ℕ}
    (hchain : first ≤ 2 ∨ ∃ chain, ChainFrom v disk first chain ∧
      fat16.fatEntry v disk (lastCluster chain) = 0xFFFF) {erased : ℤ × Disk}
    (h : fat16EraseClusterChain v disk first = some erased) : SameRoot v disk erased.2 := by
  rw [fat16EraseClusterChain] at h
  split_ifs at h with hle
  · cases h
    exact .refl hf
  · obtain ⟨chain, hchain, hlast⟩ := hchain.resolve_left hle
    obtain ⟨disk', hloop, hf', hbyte⟩ := hchain.eraseLoop hv (by decide) hf hlast
    rw [hloop, Option.map_some] at h
    cases h
    exact sameRoot_of_bytes hf' fun a ha _ => hbyte a (Or.inr ha)

/-- Deleting an open file. -/
lemma RootKept.ends_fat16Delete (h : RootKept mt) {f : FatOpenFile}
    (hout : f.mode &&& fileModeWrite ≠ 0 → f.item.attributeBits &&& fatFileReadOnly = 0 →
      DeleteOutside mt f) (m : KMemory) :
    Ends (mt.fat16Delete f) m fun r _ => SameRoot mt.volume mt.disk r.2 := by
  refine Ends.ite (fun _ => ends_pure (.refl h.faultFree)) fun hpermitted => ?_
  rw [not_or, not_not] at hpermitted
  obtain ⟨hentry, hchain⟩ := hout hpermitted.1 hpermitted.2
  refine (FatMount.ends_writeDirectoryEntry _ m).bind fun written m₁ hwritten => ?_
  have hfront : SameFront mt.volume mt.disk written.2 := by
    rcases hwritten with rfl | hstored
    · exact ⟨h.faultFree, fun _ _ _ => rfl⟩
    · rw [h.kind_eq] at hstored
      exact sameFront_writeDirectoryEntry h.faultFree hentry hstored
  refine Ends.ite (fun _ => ends_pure (hfront.sameRoot h.volume)) fun _ => ?_
  rw [FatDirectoryItem.low16BitsFirstCluster_markDeleted]
  rcases herase : fat16EraseClusterChain mt.volume written.2 f.item.low16BitsFirstCluster with
    _ | erased
  · exact ends_stuck
  have hchain' : f.item.low16BitsFirstCluster ≤ 2 ∨ ∃ chain,
      ChainFrom mt.volume written.2 f.item.low16BitsFirstCluster chain ∧
        fat16.fatEntry mt.volume written.2 (lastCluster chain) = 0xFFFF := by
    exact hchain.imp_right fun ⟨chain, hchain, hlast⟩ =>
      ⟨chain, hchain.congr hfront.sameTables,
        (hchain.fatEntry_last hfront.sameTables).trans hlast⟩
  have hsame := sameRoot_eraseClusterChain h.volume.toSmallVolume hfront.faultFree hchain' herase
  refine Ends.bind (P := fun _ _ => True) (fun _ _ _ => trivial) fun _ m₂ _ => ?_
  refine Ends.bind (P := fun _ _ => True) (fun _ _ _ => trivial) fun _ m₃ _ => ends_pure ?_
  exact (hfront.sameRoot h.volume).trans hsame

end SerpaeOS
