import SerpaeOS.Fs.Fat.RootFrame
import SerpaeOS.Fs.FileClear
import SerpaeOS.Fs.FileReads
import SerpaeOS.Heap.Confined

/-!
# Files and the directory in memory

Runs of `fopen`, `fwrite`, `fclose` and `fdelete` on FAT16 volumes.  A later `fopen` sees the
directory entry on the disk as long as no file of a root directory is opened: subdirectories are
read again by every search, the root directory is not, and `write_directory_entry` gives back its
memory.
-/

namespace SerpaeOS

open BlockTable Bytes Word Prog StepRun FatKind

/-! ## Calls -/

/-- A call of one of the functions on files.  The buffer of a write is given with what it
contains. -/
inductive FileCall where
  | fopen (filename modeStr : List UInt8) (now : ℕ)
  | fwrite (fd : ℤ) (buf : Ptr) (contents : ℕ → UInt8) (size : ℤ)
  | fclose (fd : ℤ)
  | fdelete (fd : ℤ)

/-- The state after a call, when it returns. -/
def fileStep (k : Kernel) : FileCall → Option Kernel
  | .fopen filename modeStr now => (fopen filename modeStr now k).map Prod.snd
  | .fwrite fd buf contents size =>
    (fwrite (fun mt f _ size => mt.fat16Write f contents size) fd buf size k).map Prod.snd
  | .fclose fd => (fclose fd k).map Prod.snd
  | .fdelete fd => (fdelete FatMount.fat16Delete fd k).map Prod.snd

lemma fileStep_fopen {k k' : Kernel} {filename modeStr : List UInt8} {now : ℕ} {res : ℤ}
    (h : fopen filename modeStr now k = some (res, k')) :
    fileStep k (.fopen filename modeStr now) = some k' := by
  rw [fileStep, h, Option.map_some]

/-- The name of a file is a string. -/
def FileCallLegal (_ : Kernel) : FileCall → Prop
  | .fopen filename _ _ => 0 ∉ filename
  | _ => True

/-- The call stores no directory entry in a root directory, but for a date of access. -/
def StoresOutside (k : Kernel) : FileCall → Prop
  | .fopen filename _ _ => ∀ mt, diskGet k (driveOf filename) = some (some mt) →
      OpenOutside mt (namesOf filename)
  | .fwrite fd buf _ size => ∀ desc mt, fileGetDescriptor k fd = some desc →
      k.disks desc.disk = some (some mt) → buf ≠ 0 → size ≠ 0 →
      desc.privateData.mode &&& fileModeWrite ≠ 0 → WriteOutside mt desc.privateData size
  | .fclose _ => True
  | .fdelete fd => ∀ desc mt, fileGetDescriptor k fd = some desc →
      k.disks desc.disk = some (some mt) → desc.privateData.mode &&& fileModeWrite ≠ 0 →
      desc.privateData.item.attributeBits &&& fatFileReadOnly = 0 →
        DeleteOutside mt desc.privateData

/-- The path leads to the same file from the root directory in memory and from the one on the
disk, and `fopen` opens no other file. -/
def SeesDisk (k : Kernel) (filename : List UInt8) : Prop :=
  ∀ mt, diskGet k (driveOf filename) = some (some mt) →
    ∃ root, fat16GetRootDirectory mt.volume mt.disk = some (.ok root) ∧
      (∀ item b, FileAt mt mt.root (namesOf filename) item b →
        ∃ item', FileAt mt root (namesOf filename) item' b ∧ item.SameFile item') ∧
      (∀ item' b, FileAt mt root (namesOf filename) item' b →
        ∃ item, FileAt mt mt.root (namesOf filename) item b ∧ item.SameFile item') ∧
      ∀ modeStr now fd k', fopen filename modeStr now k = some (fd, k') → 0 < fd →
        ∃ i desc item b, fd = ((i + 1 : ℕ) : ℤ) ∧ k'.fileDescriptors i = some desc ∧
          FileAt mt root (namesOf filename) item b ∧ desc.privateData.item.SameFile item

variable {k k' : Kernel} {filename modeStr : List UInt8} {now : ℕ} {fd res : ℤ}

/-! ## What a call does to the disks -/

lemma fopenOut_disks (rootPath : PathRoot) (p : Ptr) (e : ℤ) :
    Ends (fopenOut rootPath p e) k fun _ k' => k'.disks = k.disks := by
  refine Ends.bind (P := fun _ k' => k'.disks = k.disks) (fun _ _ h => onMemory_disks h)
    fun _ k₁ h₁ => ?_
  refine Ends.ite (fun _ => ?_) fun _ => ends_pure h₁
  refine Ends.bind (P := fun _ k' => k'.disks = k.disks) (fun _ _ h => ?_)
    fun _ k₂ h₂ => ends_pure h₂
  exact (onMemory_disks h).trans h₁

lemma fopenEnter_disks (rootPath : PathRoot) (file : FatOpenFile) (mode : ℕ) :
    Ends (fopenEnter rootPath file mode) k fun _ k' => k'.disks = k.disks := by
  have hnew : Ends (fileNewDescriptor file rootPath.driveNo mode) k fun _ k' =>
      k'.disks = k.disks := by
    refine ends_getKernel_bind ?_
    rcases (List.range maxFileDescriptors).find? fun i => (k.fileDescriptors i).isNone with _ | i
    · exact ends_pure rfl
    refine Ends.bind (P := fun _ k' => k'.disks = k.disks) (fun _ _ h => onMemory_disks h)
      fun p k₁ h₁ => ?_
    refine Ends.ite (fun _ => ends_stuck) fun _ => ?_
    intro r k' hrun
    cases hrun
    exact h₁
  refine hnew.bind fun index k₁ h₁ => ?_
  cases index with
  | none => exact (fopenOut_disks _ _ _).mono fun _ _ h => h.trans h₁
  | some index =>
    refine Ends.bind (P := fun _ k' => k'.disks = k.disks) (fun _ _ h => ?_)
      fun _ k₂ h₂ => ends_pure h₂
    exact (onMemory_disks h).trans h₁

/-- The driver has opened a file, its disk may have changed, and a new descriptor is that of the
file. -/
def OpenedOn (k k' : Kernel) (filename modeStr : List UInt8) : Prop :=
  fileGetModeByString modeStr ≠ fileModeInvalid ∧
  ∃ mt path now m r m', diskGet k (driveOf filename) = some (some mt) ∧
    path.map PathPart.part = namesOf filename ∧
    mt.fatOpen path (fileGetModeByString modeStr) now m = some (r, m') ∧
    k'.disks = Function.update k.disks (driveOf filename) (some (some { mt with disk := r.2 })) ∧
    ∀ i desc, k'.fileDescriptors i = some desc →
      k.fileDescriptors i = some desc ∨ r.1 = .ok desc.privateData

lemma ends_fopen_opened (filename modeStr : List UInt8) (now : ℕ) :
    Ends (fopen filename modeStr now) k fun _ k' =>
      (k'.disks = k.disks ∧ k'.fileDescriptors = k.fileDescriptors) ∨
        OpenedOn k k' filename modeStr := by
  have hparse : Ends (onMemory (pathparserParse filename)) k fun r k' =>
      (k'.disks = k.disks ∧ k'.fileDescriptors = k.fileDescriptors) ∧ ∀ root, r = some root →
        root.driveNo = driveOf filename ∧ root.first.map PathPart.part = namesOf filename := by
    intro r k₁ hrun
    obtain ⟨m, hm, -⟩ := onMemory_eq_some hrun
    exact ⟨⟨onMemory_disks hrun, onMemory_fileDescriptors hrun⟩,
      ends_pathparserParse _ _ _ _ hm⟩
  refine hparse.bind fun r k₁ hr => ?_
  obtain ⟨⟨hdisks, htable⟩, hroot⟩ := hr
  cases r with
  | none => exact ends_pure (Or.inl ⟨hdisks, htable⟩)
  | some root =>
    obtain ⟨hdrive, hnames⟩ := hroot root rfl
    have hout : ∀ e : ℤ, Ends (fopenOut root 0 e) k₁ fun _ k' =>
        (k'.disks = k.disks ∧ k'.fileDescriptors = k.fileDescriptors) ∨
          OpenedOn k k' filename modeStr := fun e res k' hrun =>
      Or.inl ⟨(fopenOut_disks _ _ _ _ _ hrun).trans hdisks,
        (fopenOut_descriptors hrun).2.trans htable⟩
    refine Ends.ite (fun _ => hout _) fun _ => ends_getKernel_bind ?_
    rcases hdisk : diskGet k₁ root.driveNo with _ | _ | mt
    · exact hout _
    · exact hout _
    refine Ends.ite (fun _ => hout _) fun hmode => ?_
    -- the driver is asked
    intro res k' hrun
    obtain ⟨opened, k₂, hopen, hrun⟩ := bind_eq_some hrun
    obtain ⟨m, hm, rfl⟩ := onMemory_eq_some hopen
    obtain ⟨_, k₃, hupdate, hrun⟩ := bind_eq_some hrun
    cases hupdate
    rw [diskGet, hdisks, ← diskGet, hdrive] at hdisk
    simp only [hdrive, hdisks, htable] at hrun
    refine Or.inr ⟨hmode, mt, root.first, now, _, opened, m, hdisk, hnames, hm, ?_⟩
    rcases hres : opened.1 with e | f
    · rw [hres] at hrun
      refine ⟨fopenOut_disks _ _ _ _ _ hrun, fun i desc hi => Or.inl ?_⟩
      rwa [(fopenOut_descriptors hrun).2] at hi
    · rw [hres] at hrun
      refine ⟨fopenEnter_disks _ _ _ _ _ hrun, fun i desc hi => ?_⟩
      rcases fopenEnter_descriptors hrun with ⟨-, hsame⟩ | ⟨j, desc', -, hent, hfile, -⟩
      · exact Or.inl (by rwa [hsame] at hi)
      · rw [hent.table_eq] at hi
        by_cases hij : i = j
        · subst hij
          rw [Function.update_self] at hi
          cases hi
          exact Or.inr (by rw [hfile])
        · rw [Function.update_of_ne hij] at hi
          exact Or.inl hi

lemma fclose_disks (fd : ℤ) : Ends (fclose fd) k fun _ k' => k'.disks = k.disks := by
  refine ends_getKernel_bind ?_
  rcases fileGetDescriptor k fd with _ | desc
  · exact ends_pure rfl
  refine Ends.bind (P := fun _ k' => k'.disks = k.disks) (fun _ _ h => onMemory_disks h)
    fun res k₁ h₁ => ?_
  refine Ends.ite (fun _ => ?_) fun _ => ends_pure h₁
  intro r k' hrun
  cases hrun
  exact h₁

/-! ## Runs -/

/-- The root directories in memory agree with those on the disks. -/
def RootsKept (k : Kernel) : Prop := ∀ i mt, k.disks i = some (some mt) → RootKept mt

lemma RootsKept.of_update (h : RootsKept k) {i : ℕ} {mt : FatMount} (hmt : RootKept mt)
    (hdisks : k'.disks = Function.update k.disks i (some (some mt))) : RootsKept k' := by
  intro j mt' hj
  rw [hdisks] at hj
  by_cases hij : j = i
  · subst hij
    rw [Function.update_self] at hj
    cases hj
    exact hmt
  · rw [Function.update_of_ne hij] at hj
    exact h j mt' hj

lemma disks_of_diskGet {i : ℕ} {mt : FatMount} (h : diskGet k i = some (some mt)) :
    k.disks i = some (some mt) := by
  rw [diskGet] at h
  split_ifs at h
  exact h

lemma RootsKept.fopen (h : RootsKept k) (hname : 0 ∉ filename)
    (hout : StoresOutside k (.fopen filename modeStr now)) :
    Ends (fopen filename modeStr now) k fun _ k' => RootsKept k' := by
  refine (ends_fopen_opened filename modeStr now).mono fun _ k' hk' => ?_
  rcases hk' with ⟨hsame, -⟩ | ⟨-, mt, path, now, m, r, m', hdisk, hnames, hopen, hdisks, -⟩
  · intro i mt hi
    exact h i mt (hsame ▸ hi)
  · have hmt := h _ mt (disks_of_diskGet hdisk)
    have hpath : ∀ name ∈ path.map PathPart.part, 0 ∉ name := by
      rw [hnames]
      exact fun name hmem hzero => hname (mem_of_mem_namesOf hmem hzero)
    have hsame := hmt.ends_fatOpen hpath (by rw [hnames]; exact hout mt hdisk) _ now m r m' hopen
    exact h.of_update (hmt.of_sameRoot hsame.1) hdisks

lemma RootsKept.fwrite (h : RootsKept k) {buf : Ptr} {contents : ℕ → UInt8} {size : ℤ}
    (hout : StoresOutside k (.fwrite fd buf contents size)) :
    Ends (fwrite (fun mt f _ size => mt.fat16Write f contents size) fd buf size) k
      fun _ k' => RootsKept k' := by
  refine Ends.ite (fun _ => ends_pure h) fun hargs => ends_getKernel_bind ?_
  rw [not_or, not_or] at hargs
  rcases hget : fileGetDescriptor k fd with _ | desc
  · exact ends_pure h
  rcases hdisk : k.disks desc.disk with _ | _ | mt
  · simp only [hdisk]
    exact ends_stuck
  · simp only [hdisk]
    exact ends_stuck
  simp only [hdisk]
  intro res k' hrun
  obtain ⟨r, k₁, hwrite, hrun⟩ := bind_eq_some hrun
  obtain ⟨m, hm, rfl⟩ := onMemory_eq_some hwrite
  cases hrun
  have hmt := h _ mt hdisk
  obtain ⟨disk, hmount, hsame⟩ := hmt.ends_fat16Write
    (hout desc mt hget hdisk hargs.2.1) contents k.memory r m hm
  have hmt' : RootKept r.2.2 := by
    rw [hmount]
    exact hmt.of_sameRoot hsame
  exact h.of_update hmt' rfl

lemma RootsKept.fdelete (h : RootsKept k) (hout : StoresOutside k (.fdelete fd)) :
    Ends (fdelete FatMount.fat16Delete fd) k fun _ k' => RootsKept k' := by
  refine Ends.ite (fun _ => ends_pure h) fun _ => ends_getKernel_bind ?_
  rcases hget : fileGetDescriptor k fd with _ | desc
  · exact ends_pure h
  rcases hdisk : k.disks desc.disk with _ | _ | mt
  · simp only [hdisk]
    exact ends_stuck
  · simp only [hdisk]
    exact ends_stuck
  simp only [hdisk]
  intro res k' hrun
  obtain ⟨r, k₁, hdelete, hrun⟩ := bind_eq_some hrun
  obtain ⟨m, hm, rfl⟩ := onMemory_eq_some hdelete
  cases hrun
  have hmt := h _ mt hdisk
  have hsame := hmt.ends_fat16Delete (hout desc mt hget hdisk) k.memory r m hm
  exact h.of_update (hmt.of_sameRoot hsame) rfl

/-- A call that stores no entry in a root directory. -/
lemma RootsKept.step (h : RootsKept k) {call : FileCall} (hl : FileCallLegal k call)
    (hout : StoresOutside k call) (hstep : fileStep k call = some k') : RootsKept k' := by
  cases call with
  | fopen filename modeStr now =>
    obtain ⟨⟨res, k₁⟩, hrun, rfl⟩ := Option.map_eq_some_iff.mp hstep
    exact h.fopen hl hout res k₁ hrun
  | fwrite fd buf contents size =>
    obtain ⟨⟨res, k₁⟩, hrun, rfl⟩ := Option.map_eq_some_iff.mp hstep
    exact h.fwrite hout res k₁ hrun
  | fclose fd =>
    obtain ⟨⟨res, k₁⟩, hrun, rfl⟩ := Option.map_eq_some_iff.mp hstep
    intro i mt hi
    refine h i mt ?_
    rw [← fclose_disks fd res k₁ hrun]
    exact hi
  | fdelete fd =>
    obtain ⟨⟨res, k₁⟩, hrun, rfl⟩ := Option.map_eq_some_iff.mp hstep
    exact h.fdelete hout res k₁ hrun

/-- With root directories that agree every path leads to the file on the disk. -/
lemma RootsKept.seesDisk (h : RootsKept k) (filename : List UInt8) : SeesDisk k filename := by
  intro mt hdisk
  have hmt := h _ mt (disks_of_diskGet hdisk)
  obtain ⟨root, hload, hagree⟩ := hmt.load
  have hcache : ∀ item b, FileAt mt mt.root (namesOf filename) item b →
      ∃ item', FileAt mt root (namesOf filename) item' b ∧ item.SameFile item' := by
    intro item b hfile
    obtain ⟨item', hfile', hsame⟩ := hagree.fileAt hmt.kind_eq hfile
    exact ⟨item', hfile', hsame.sameFile⟩
  refine ⟨root, hload, hcache, fun item' b hfile => ?_, fun modeStr now fd k' hopen hfd => ?_⟩
  · obtain ⟨item, hfile', hsame⟩ := hagree.symm.fileAt hmt.kind_eq hfile
    exact ⟨item, hfile', hsame.symm.sameFile⟩
  · rcases fopen_cases hopen with
      ⟨hneg, -⟩ | ⟨i, desc, rfl, hent, mt', item, b, now', disk, hdisk', hfile, hitem, -⟩
    · omega
    obtain rfl : mt = mt' := Option.some.inj (Option.some.inj (hdisk.symm.trans hdisk'))
    obtain ⟨item', hfile', hsame⟩ := hcache item b hfile
    refine ⟨i, desc, item', b, rfl, ?_, hfile', ?_⟩
    · rw [hent.table_eq, Function.update_self]
    · have hdate := (FatDirectoryItem.agrees_date item now').sameFile
      rw [← hitem] at hdate
      exact ⟨hdate.filesize_eq.trans hsame.filesize_eq,
        hdate.firstCluster_eq.trans hsame.firstCluster_eq⟩

/-! ## The memory of the root directories -/

/-- The structures of an open file. -/
def FileDescriptor.pointers (desc : FileDescriptor) : List Ptr :=
  desc.ptr :: desc.privateData.clonePtr :: desc.privateData.itemPtr :: desc.privateData.ptr ::
    desc.privateData.path.flatMap fun part => [part.partPtr, part.ptr]

/-- The blocks of the root directories in memory are taken, and no structure of an open file lies
there. -/
def RootsHeld (k : Kernel) : Prop :=
  ∀ i mt, k.disks i = some (some mt) → ∀ a ∈ mt.extents, Taken a k.memory ∧
    ∀ j desc, k.fileDescriptors j = some desc → ∀ p ∈ desc.pointers, Clear a p

/-- Volumes that have just been mounted, and no open file. -/
structure FreshKernel (k : Kernel) : Prop where
  mounts : ∀ i mt, k.disks i = some (some mt) → FreshMount mt
  held : ∀ i mt, k.disks i = some (some mt) → ∀ a ∈ mt.extents, Taken a k.memory
  closed : ∀ i, k.fileDescriptors i = none
  heap : HeapPlain k.memory

/-- The call opens no file of a root directory: this would give back the blocks of the root
directory. -/
def OpensNested (k : Kernel) : FileCall → Prop
  | .fopen filename modeStr _ => fileGetModeByString modeStr ≠ fileModeInvalid →
      ∀ mt, diskGet k (driveOf filename) = some (some mt) →
        ¬ mt.OpensRoot (namesOf filename) (fileGetModeByString modeStr)
  | _ => True

/-- The structures in memory are intact, and the call leaves the root directories alone. -/
structure SparesRoots (k : Kernel) (call : FileCall) : Prop where
  intact : k.Intact
  nested : OpensNested k call
  outside : StoresOutside k call

/-- The root directory in memory lies outside the blocks. -/
def RootOutside (F : ℕ → Prop) (mt : FatMount) : Prop :=
  ∀ a ∈ mt.extents, 0 < a.len ∧ a.start + a.len ≤ kernelBlocks ∧ ∀ i, a.Covers i → ¬ F i

/-- The file lies in blocks of the set, and not in a root directory. -/
structure NestedFile (F : ℕ → Prop) (desc : FileDescriptor) : Prop
    extends ClearDescriptor (confinedGuard F) desc where
  nested : desc.privateData.path.length ≠ 1

/-- The root directories in memory lie outside the blocks, and the open files in them. -/
structure NestedInv (F : ℕ → Prop) (k : Kernel) : Prop where
  guarded : GuardedKernel (confinedGuard F) (RootOutside F) k
  files : ∀ i desc, k.fileDescriptors i = some desc → NestedFile F desc

variable {F : ℕ → Prop} {G : Guard} {mt : FatMount} {f : FatOpenFile}

lemma RootOutside.taken (h : RootOutside F mt) {m : KMemory} (hm : Confined F m) :
    ∀ a ∈ mt.extents, Taken a m := by
  intro a ha
  obtain ⟨hpos, hin, hout⟩ := h a ha
  refine ⟨hm.saddr_eq, hm.total_eq, hpos, hin, fun i hi => hm.taken i ?_ (hout i hi)⟩
  exact hi.2.trans_le hin

lemma RootOutside.clear (h : RootOutside F mt) {p : Ptr} (hp : (confinedGuard F).clear p) :
    ∀ a ∈ mt.extents, Clear a p := by
  intro a ha
  obtain ⟨-, -, hout⟩ := h a ha
  rcases hp with hcode | ⟨b, hb, hF⟩
  · exact hcode.clear
  have hnot : ¬ a.Covers b := fun hcov => hout b hcov hF
  rw [Extent.Covers] at hnot
  rw [Clear, hb]
  omega

lemma ClearDescriptor.pointers {desc : FileDescriptor} (h : ClearDescriptor G desc) :
    ∀ p ∈ desc.pointers, G.clear p := by
  intro p hp
  rw [FileDescriptor.pointers] at hp
  simp only [List.mem_cons, List.mem_flatMap, List.not_mem_nil, or_false] at hp
  rcases hp with rfl | rfl | rfl | rfl | ⟨part, hpart, rfl | rfl⟩
  · exact h.ptr
  · exact h.file.clone
  · exact h.file.item
  · exact h.file.ptr
  · exact (h.file.parts part hpart).1
  · exact (h.file.parts part hpart).2

lemma NestedInv.rootsHeld (h : NestedInv F k) : RootsHeld k := by
  intro i mt hi a ha
  have hout := h.guarded.mounts i mt hi
  refine ⟨hout.taken h.guarded.holds a ha, fun j desc hj p hp => ?_⟩
  exact hout.clear ((h.files j desc hj).pointers p hp) a ha

lemma FreshKernel.nestedInv (h : FreshKernel k) : NestedInv (blocksFree k.memory) k := by
  refine ⟨⟨h.heap.confined, fun i mt hi a ha => ?_⟩, fun i desc hi => ?_⟩
  · have htaken := h.held i mt hi a ha
    exact ⟨htaken.pos, htaken.inside, htaken.taken⟩
  · rw [h.closed i] at hi
    cases hi

/-! ## Steps -/

/-- For a file outside the root directory the driver frees nothing that it has not taken. -/
lemma gives_fat16Write (hne : f.path.length ≠ 1) (buf : ℕ → UInt8) (size : ℤ) :
    Gives G.holds (mt.fat16Write f buf size) fun r =>
      ∃ item disk, r.2 = ({ f with item := item }, { mt with disk := disk }) := by
  refine Gives.ite (fun _ => gives_pure ⟨f.item, mt.disk, rfl⟩) fun _ =>
    Gives.ite (fun _ => gives_pure ⟨f.item, mt.disk, rfl⟩) fun _ => ?_
  simp only
  rcases fat16.findLastClusterOfChain mt.volume mt.disk (f.item.firstCluster % 2 ^ 16) with _ | last
  · exact gives_stuck
  simp only
  rcases fat16Driver.growLoop mt.volume (f.item.firstCluster % 2 ^ 16)
    (clustersToAdd mt.volume f.item.filesize size) mt.fatPrivate mt.disk with _ | grown
  · exact gives_stuck
  refine Gives.ite (fun _ => gives_pure ⟨f.item, grown.2.2, rfl⟩) fun _ => ?_
  refine (gives_writeDirectoryEntry (fun hone => ?_) _).bind fun entry _ =>
    Gives.ite (fun _ => gives_pure ⟨_, entry.2, rfl⟩) fun _ => gives_pure ⟨_, _, rfl⟩
  rw [List.length_map] at hone
  exact absurd hone hne

lemma gives_fat16Delete (hf : ClearFile G f) (hne : f.path.length ≠ 1) :
    Gives G.holds (mt.fat16Delete f) fun _ => True := by
  refine Gives.ite (fun _ => gives_pure trivial) fun _ => ?_
  refine (gives_writeDirectoryEntry (fun hone => ?_) _).bind fun entry _ =>
    Gives.ite (fun _ => gives_pure trivial) fun _ => ?_
  · rw [List.length_map] at hone
    exact absurd hone hne
  rcases fat16EraseClusterChain mt.volume entry.2 f.item.markDeleted.low16BitsFirstCluster
    with _ | erased
  · exact gives_stuck
  have hitem : ClearItem G (.file f.itemPtr f.clonePtr f.item.markDeleted) := ⟨hf.item, hf.clone⟩
  exact (gives_fatItemFree hitem).bind fun _ _ =>
    (G.release hf.ptr).bind fun _ _ => gives_pure trivial

/-- The slot of a freed descriptor is empty. -/
lemma NestedInv.fileFreeDescriptor (h : NestedInv F k) {desc : FileDescriptor}
    (hptr : (confinedGuard F).clear desc.ptr) :
    Ends (SerpaeOS.fileFreeDescriptor desc) k fun _ k' => NestedInv F k' := by
  intro r k' hrun
  cases hrun
  have hm := ((confinedGuard F).release hptr k.memory h.guarded.holds () _ rfl).1
  refine ⟨⟨hm, h.guarded.mounts⟩, fun i desc' hi => ?_⟩
  by_cases hslot : i = desc.index - 1
  · subst hslot
    simp only [Function.update_self] at hi
    cases hi
  · simp only [Function.update_of_ne hslot] at hi
    exact h.files i desc' hi

/-- Another volume is mounted, with the root directory outside the blocks, and the heap has
changed. -/
lemma NestedInv.store (h : NestedInv F k) {m : KMemory} (hm : Confined F m) (i : ℕ)
    (hmt : RootOutside F mt) :
    NestedInv F { k with
      memory := m
      disks := Function.update k.disks i (some (some mt)) } := by
  refine ⟨⟨hm, fun j mt' hj => ?_⟩, h.files⟩
  by_cases hij : j = i
  · subst hij
    simp only [Function.update_self] at hj
    cases hj
    exact hmt
  · simp only [Function.update_of_ne hij] at hj
    exact h.guarded.mounts j mt' hj

lemma NestedInv.fopen (h : NestedInv F k) (hnested : OpensNested k (.fopen filename modeStr now)) :
    Ends (fopen filename modeStr now) k fun _ k' => NestedInv F k' := by
  intro res k' hrun
  obtain ⟨hguard, hentry⟩ := ends_fopen_guarded (fun {_ _} hmt => hmt)
    (fun mt hdisk hmode hopens => absurd hopens (hnested hmode mt hdisk)) now h.guarded res k' hrun
  refine ⟨hguard, fun j desc' hj => ?_⟩
  rcases fopen_cases hrun with ⟨-, htable⟩ | ⟨i, desc, rfl, hent, -⟩
  · exact h.files j desc' (htable ▸ hj)
  rw [hent.table_eq] at hj
  by_cases hji : j = i
  swap
  · rw [Function.update_of_ne hji] at hj
    exact h.files j desc' hj
  -- the file has just been opened
  subst hji
  rw [Function.update_self] at hj
  obtain rfl : desc = desc' := Option.some.inj hj
  have hslot : k'.fileDescriptors j = some desc := by rw [hent.table_eq, Function.update_self]
  refine ⟨hentry (by omega) desc ?_, fun hone => ?_⟩
  · rw [show (((j + 1 : ℕ) : ℤ) - 1).toNat = j by omega]
    exact hslot
  rcases ends_fopen_opened _ _ _ _ _ hrun with ⟨-, htable⟩ | hopened
  · rw [htable, hent.free] at hslot
    cases hslot
  obtain ⟨hmode, mt, path, now', m, ⟨opened, disk⟩, m', hdisk, hnames, hopen, -, hnew⟩ := hopened
  rcases hnew j desc hslot with hold | hfile
  · rw [hent.free] at hold
    cases hold
  simp only at hfile
  subst hfile
  obtain ⟨hpath, -⟩ := FatMount.ends_fatOpen_file _ _ _ _ _ _ hopen _ rfl
  obtain ⟨item, b, hat, hperm, -⟩ := FatMount.fileAt_of_fatOpen hopen
  rw [hnames] at hat
  refine hnested hmode mt hdisk ⟨?_, item, b, hat, hperm⟩
  rw [← hnames, List.length_map, ← hpath]
  exact hone

lemma NestedInv.fclose (h : NestedInv F k) (fd : ℤ) :
    Ends (fclose fd) k fun _ k' => NestedInv F k' := by
  refine ends_getKernel_bind ?_
  rcases hget : fileGetDescriptor k fd with _ | desc
  · exact ends_pure h
  have hdesc := h.files _ desc (slot_of_fileGetDescriptor hget).2
  refine Ends.bind (P := fun _ k' => NestedInv F k') ?_ fun res k₁ h₁ => ?_
  · intro res k₁ hrun
    obtain ⟨m, hclose, rfl⟩ := onMemory_eq_some hrun
    obtain ⟨hm, -⟩ := gives_fatClose hdesc.file k.memory h.guarded.holds res m hclose
    exact ⟨⟨hm, h.guarded.mounts⟩, h.files⟩
  refine Ends.ite (fun _ => ?_) fun _ => ends_pure h₁
  exact (h₁.fileFreeDescriptor hdesc.ptr).bind fun _ k₂ h₂ => ends_pure h₂

lemma NestedInv.fwrite (h : NestedInv F k) (fd : ℤ) (buf : Ptr) (contents : ℕ → UInt8) (size : ℤ) :
    Ends (fwrite (fun mt f _ size => mt.fat16Write f contents size) fd buf size) k
      fun _ k' => NestedInv F k' := by
  refine Ends.ite (fun _ => ends_pure h) fun _ => ends_getKernel_bind ?_
  rcases hget : fileGetDescriptor k fd with _ | desc
  · exact ends_pure h
  rcases hdisk : k.disks desc.disk with _ | _ | mt
  · simp only [hdisk]
    exact ends_stuck
  · simp only [hdisk]
    exact ends_stuck
  simp only [hdisk]
  obtain ⟨-, hslot⟩ := slot_of_fileGetDescriptor hget
  have hdesc := h.files _ desc hslot
  intro res k' hrun
  obtain ⟨r, k₁, hwrite, hrun⟩ := bind_eq_some hrun
  obtain ⟨m, hm, rfl⟩ := onMemory_eq_some hwrite
  cases hrun
  obtain ⟨hm', item, disk, hr⟩ :=
    gives_fat16Write hdesc.nested contents size k.memory h.guarded.holds r m hm
  have hmt : RootOutside F r.2.2 := by
    rw [hr]
    exact h.guarded.mounts _ mt hdisk
  have hstore := (h.store hm' desc.disk hmt).guarded
  refine ⟨⟨hstore.holds, hstore.mounts⟩, fun i desc' hi => ?_⟩
  by_cases hi' : i = (fd - 1).toNat
  · subst hi'
    simp only [Kernel.setPrivate, Function.update_self, hr] at hi
    cases hi
    have hfile := hdesc.file
    exact ⟨⟨hdesc.ptr, hfile.ptr, hfile.parts, hfile.item, hfile.clone⟩, hdesc.nested⟩
  · simp only [Kernel.setPrivate, Function.update_of_ne hi'] at hi
    exact h.files i desc' hi

lemma NestedInv.fdelete (h : NestedInv F k) (fd : ℤ) :
    Ends (fdelete FatMount.fat16Delete fd) k fun _ k' => NestedInv F k' := by
  refine Ends.ite (fun _ => ends_pure h) fun _ => ends_getKernel_bind ?_
  rcases hget : fileGetDescriptor k fd with _ | desc
  · exact ends_pure h
  rcases hdisk : k.disks desc.disk with _ | _ | mt
  · simp only [hdisk]
    exact ends_stuck
  · simp only [hdisk]
    exact ends_stuck
  simp only [hdisk]
  have hdesc := h.files _ desc (slot_of_fileGetDescriptor hget).2
  refine Ends.bind (P := fun deleted k₁ => NestedInv F { k₁ with
    disks := Function.update k₁.disks desc.disk (some (some { mt with disk := deleted.2 })) })
    ?_ fun deleted k₁ h₁ => ?_
  · intro deleted k₁ hrun
    obtain ⟨m, hdelete, rfl⟩ := onMemory_eq_some hrun
    obtain ⟨hm, -⟩ :=
      gives_fat16Delete hdesc.file hdesc.nested k.memory h.guarded.holds deleted m hdelete
    exact h.store hm desc.disk (h.guarded.mounts _ mt hdisk)
  refine Ends.bind (P := fun _ k' => NestedInv F k') ?_ fun _ k₂ h₂ => ?_
  · intro _ k₂ hrun
    cases hrun
    exact h₁
  exact (h₂.fileFreeDescriptor hdesc.ptr).bind fun _ k₃ h₃ => ends_pure h₃

lemma NestedInv.step (h : NestedInv F k) {call : FileCall} (hnested : OpensNested k call)
    (hstep : fileStep k call = some k') : NestedInv F k' := by
  cases call with
  | fopen filename modeStr now =>
    obtain ⟨⟨res, k₁⟩, hrun, rfl⟩ := Option.map_eq_some_iff.mp hstep
    exact h.fopen hnested res k₁ hrun
  | fwrite fd buf contents size =>
    obtain ⟨⟨res, k₁⟩, hrun, rfl⟩ := Option.map_eq_some_iff.mp hstep
    exact h.fwrite fd buf contents size res k₁ hrun
  | fclose fd =>
    obtain ⟨⟨res, k₁⟩, hrun, rfl⟩ := Option.map_eq_some_iff.mp hstep
    exact h.fclose fd res k₁ hrun
  | fdelete fd =>
    obtain ⟨⟨res, k₁⟩, hrun, rfl⟩ := Option.map_eq_some_iff.mp hstep
    exact h.fdelete fd res k₁ hrun

/-- A volume on disk 0, and no file open. -/
def freshKernel (mt : FatMount) : Kernel where
  memory := mountedMemory
  fileDescriptors _ := none
  disks i := if i = 0 then some (some mt) else none

/-- The volume of the file `A`, as it is mounted. -/
def cachedVolume : FatMount :=
  { mountedVolume 1 with
    disk := fileDisk 100
    root := ⟨itemsOf (slice (fileDisk 100).byte 1024 512), 1, 2⟩ }

lemma freshKernel_disks {i : ℕ} {mt' : FatMount} (h : (freshKernel mt).disks i = some (some mt')) :
    mt = mt' := by
  by_cases hi : i = 0
  · exact Option.some.inj (Option.some.inj ((if_pos hi).symm.trans h))
  · cases (if_neg hi).symm.trans h

lemma mountedMemory_taken {a : Extent} (ha : a ∈ mountedExtents) : Taken a mountedMemory := by
  rcases List.mem_pair.mp ha with rfl | rfl
  · refine ⟨rfl, rfl, by decide, by decide, fun i hi => ?_⟩
    obtain rfl : i = 1 := by
      obtain ⟨hle, hlt⟩ := hi
      simp only at hle hlt
      omega
    decide
  · refine ⟨rfl, rfl, by decide, by decide, fun i hi => ?_⟩
    obtain rfl : i = 0 := by
      obtain ⟨hle, hlt⟩ := hi
      simp only at hle hlt
      omega
    decide

lemma mountedMemory_plain : HeapPlain mountedMemory :=
  mountedMemory_kernelMemory.kernelHeap.heapPlain ⟨0, by decide, by decide⟩

lemma freshKernel_fresh (hmt : FreshMount mt) (hextents : mt.extents = mountedExtents) :
    FreshKernel (freshKernel mt) := by
  refine ⟨fun i mt' hi => ?_, fun i mt' hi a ha => ?_, fun _ => rfl, mountedMemory_plain⟩
  · rw [← freshKernel_disks hi]
    exact hmt
  · rw [← freshKernel_disks hi, hextents] at ha
    exact mountedMemory_taken ha

lemma soundVolume_small : SoundVolume smallVolume :=
  ⟨⟨by decide, by decide, by decide⟩, by decide, by decide, by decide⟩

lemma rootDirectory_file : RootDirectory smallVolume (fileDisk 100) 1 := by
  refine ⟨⟨fun i hi => ?_, by decide⟩, by decide, by decide⟩
  obtain rfl := Nat.lt_one_iff.mp hi
  decide

lemma cachedVolume_fresh : FreshMount cachedVolume := by
  refine ⟨rfl, soundVolume_small, diskWith_faultFree _, ⟨1, rootDirectory_file⟩, ?_⟩
  have hcount : liveCount (rootEntries smallVolume (fileDisk 100)) 1 = 1 := by decide
  have hload := rootDirectory_file.load_eq (diskWith_faultFree _)
  rw [hcount] at hload
  exact hload

/-- The entry in memory is that of the file `A`. -/
lemma cachedVolume_item : (cachedVolume.root.item 0).Agrees (fileItem 100) := by
  intro j hj _ _
  have hslice : (cachedVolume.root.item 0).raw j =
      (entriesIn (fun x => (fileDisk 100).byte (1024 + x)) 0).raw j :=
    itemsOf_slice (by simp only [itemSize] at hj ⊢; omega)
  have hbyte : (fileDisk 100).byte (1024 + j) = (fileItem 100).raw (1024 + j - 1024) := by
    simp only [itemSize] at hj
    simp only [fileDisk, diskWith]
    rw [if_neg (by omega), if_neg (by omega), if_pos (by omega)]
  rw [Nat.add_sub_cancel_left] at hbyte
  rw [hslice, ← hbyte, entriesIn]
  simp only [Nat.zero_mul, Nat.zero_add]

lemma cachedVolume_firstNamed : FirstNamed cachedVolume.root [0x41] 0 := by
  refine ⟨by decide, ?_, fun j hj => absurd hj (Nat.not_lt_zero j)⟩
  rw [cachedVolume_item.name_eq]
  decide

/-- The path of the file. -/
lemma cachedVolume_fileAt :
    FileAt cachedVolume cachedVolume.root (namesOf pathA) (cachedVolume.root.item 0) 2 := by
  rw [namesOf_pathA]
  refine .file (fat16_findItem_iff.mpr ⟨0, cachedVolume_firstNamed, rfl⟩) ?_
  rw [cachedVolume_item.attributeBits_eq]
  decide

/-- A short path on disk 0 can be opened. -/
lemma freshKernel_ready (hptr : mt.rootPtr = blockAddress 0 + 64)
    (hitem : mt.rootItemPtr = blockAddress 1) (hnul : 0 ∉ filename) (hlen : filename.length ≤ 10)
    (hfits : ∀ item b, FileAt mt mt.root (namesOf filename) item b → b ≤ 10) :
    FopenReady (freshKernel mt) filename mountedExtents 1000 := by
  refine ⟨mountedMemory_kernelMemory, hnul, fun mt' hmt' => ?_,
    mountedExtents_roomy.mono (by decide), by omega, fun mt' item b hmt' hfile => ?_⟩
  · obtain rfl := freshKernel_disks (disks_of_diskGet hmt')
    refine ⟨blockAddress 0, 1, [], ⟨isBlock_blockAddress 0, ?_, Nat.one_pos, ?_, ?_⟩, ?_⟩
    · rw [hitem]
      exact isBlock_blockAddress 1
    · rw [hptr]
      exact Nat.le_add_right _ _
    · rw [hptr]
      exact Nat.add_lt_add_left (by decide) _
    · rw [hitem, extentAt_blockAddress, extentAt_blockAddress]
      exact List.Perm.refl _
  · obtain rfl := freshKernel_disks (disks_of_diskGet hmt')
    have hle := hfits item b hfile
    omega

lemma freshKernel_structures (hextents : mt.extents = mountedExtents) :
    (freshKernel mt).structures = mountedExtents := by
  have hfiles : (List.range maxFileDescriptors).flatMap (fun i =>
      ((freshKernel mt).fileDescriptors i).elim [] FileDescriptor.extents) = [] :=
    List.flatMap_eq_nil_iff.mpr fun _ _ => rfl
  rw [Kernel.structures, hfiles, List.nil_append, ← hextents]
  refine flatMap_range_single (by decide : 0 < maxDisks) fun j hj => ?_
  have hnone : (freshKernel mt).disks j = none := if_neg hj
  rw [hnone]
  rfl

lemma freshKernel_intact (hextents : mt.extents = mountedExtents) : (freshKernel mt).Intact :=
  mountedMemory_kernelMemory.kernelHeap.intact (freshKernel_structures hextents) (by decide)

lemma cachedVolume_extents : cachedVolume.extents = mountedExtents := by decide

lemma cachedVolume_opens :
    Runs (fopen pathA modeR 0) (freshKernel cachedVolume) fun fd _ => 0 ≤ fd := by
  have hdisk : diskGet (freshKernel cachedVolume) (driveOf pathA) = some (some cachedVolume) := rfl
  have hready : FopenReady (freshKernel cachedVolume) pathA mountedExtents 1000 := by
    refine freshKernel_ready rfl rfl (by decide) (by decide) fun item b hfile => ?_
    obtain ⟨-, rfl⟩ := cachedVolume_fileAt.unique hfile
    decide
  have hperm : Permitted (fileGetModeByString modeR) (cachedVolume.root.item 0) := by
    rintro ⟨hwrite, -⟩
    exact hwrite (by decide)
  exact (hready.fopen_opens (pathA_late hdisk) hdisk cachedVolume_fileAt hperm
    (by decide : 0 < maxFileDescriptors) rfl).mono fun _ _ h => h.1

/-- The blocks of an open file are those of its pointers. -/
lemma FileDescriptor.mem_extents {d : FileDescriptor} (hptr : IsBlock d.ptr)
    (hown : d.privateData.Owned) (hparts : PartsOk d.privateData.path) {e : Extent}
    (he : e ∈ d.extents) : ∃ p ∈ d.pointers, IsBlock p ∧ e = extentAt p 1 := by
  rw [FileDescriptor.extents, FatOpenFile.extents] at he
  simp only [List.cons_append, List.nil_append, List.mem_cons] at he
  rw [FileDescriptor.pointers]
  rcases he with rfl | rfl | rfl | rfl | he
  · exact ⟨_, List.mem_cons_self, hptr, rfl⟩
  · exact ⟨_, by simp, hown.clone_block, rfl⟩
  · exact ⟨_, by simp, hown.item_block, rfl⟩
  · exact ⟨_, by simp, hown.ptr_block, rfl⟩
  · obtain ⟨part, hpart, hext⟩ := mem_pathExtents he
    have hpointers : ∀ p ∈ [part.partPtr, part.ptr], p ∈ d.privateData.path.flatMap fun part =>
        [part.partPtr, part.ptr] := fun p hp => List.mem_flatMap.mpr ⟨part, hpart, hp⟩
    rcases hext with rfl | rfl
    · exact ⟨_, by simp [hpointers], (hparts part hpart).1, rfl⟩
    · exact ⟨_, by simp [hpointers], (hparts part hpart).2, rfl⟩

/-- A structure in the block does not lie outside an extent with the block. -/
lemma IsBlock.not_clear {p b : ℕ} (hp : IsBlock p) (hb : b < kernelBlocks)
    (hcov : (extentAt p 1).Covers b) {a : Extent} (ha : a.Covers b) : ¬ Clear a p := by
  have hstart : (p - heapAddress) / heapBlockSize = b := by
    obtain ⟨hle, hlt⟩ := hcov
    simp only [extentAt] at hle hlt
    omega
  rw [IsBlock, hstart] at hp
  obtain ⟨hle, hlt⟩ := ha
  rw [Clear, hp, blockIndex_blockAddress hb]
  omega

/-- What `fopen` leaves of the root directory in memory: its blocks are free, or one of them has the
new descriptor. -/
lemma cachedVolume_not_held {fd : ℤ} (hopen : fopen pathA modeR 0 (freshKernel cachedVolume) =
    some (fd, k')) (hfd : 0 ≤ fd) : ¬ RootsHeld k' := by
  intro hheld
  have hready : FopenReady (freshKernel cachedVolume) pathA mountedExtents 1000 := by
    refine freshKernel_ready rfl rfl (by decide) (by decide) fun item b hfile => ?_
    obtain ⟨-, rfl⟩ := cachedVolume_fileAt.unique hfile
    decide
  have hmounted : ∃ disk, k'.disks 0 = some (some { cachedVolume with disk := disk }) := by
    rcases ends_fopen_opened _ _ _ _ _ hopen with ⟨hsame, -⟩ | hopened
    · exact ⟨_, congrFun hsame 0⟩
    obtain ⟨-, mt, path, now, m, r, m', hdisk, -, -, hdisks, -⟩ := hopened
    obtain rfl := freshKernel_disks (disks_of_diskGet hdisk)
    exact ⟨r.2, (congrFun hdisks 0).trans (Function.update_self _ _ _)⟩
  obtain ⟨disk, hdisk⟩ := hmounted
  have hextents : { cachedVolume with disk := disk }.extents = mountedExtents :=
    cachedVolume_extents
  obtain ⟨htaken, hclear⟩ := hheld 0 _ hdisk ⟨0, 1⟩ (hextents ▸ by decide)
  cases fopen_result hready hopen with
  | early _ hres => omega
  | failed _ hres => omega
  | full _ hres => omega
  | @opened mt _ i drive mode q f L' hlate hi hnone hfirst hq hown hparts hrem hdesc hacc =>
    rw [namesOf_pathA] at hrem
    rcases hrem with ⟨hlen, -⟩ | ⟨-, holder, blocks, -, hperm⟩
    · exact absurd hlen (by decide)
    obtain rfl : L' = [] := by
      have hlen := hperm.length_eq
      simp only [mountedExtents, List.length_cons, List.length_nil] at hlen
      exact List.length_eq_zero_iff.mp (by omega)
    -- a block that is taken has a structure of the new file
    have htotal : 0 < k'.memory.heap.table.total := hacc.kernelHeap.total_eq ▸ by decide
    have hfree := hacc.kernelHeap.records.entryFree_iff htotal
    obtain ⟨e, he, hcov⟩ := not_not.mp fun hno =>
      htaken.taken 0 ⟨le_rfl, Nat.one_pos⟩ (hfree.mpr hno)
    rw [List.append_nil] at he
    have hslot : k'.fileDescriptors i = some ⟨q, i + 1, f, drive, mode⟩ := by
      rw [hdesc, Function.update_self]
    obtain ⟨p, hp, hblock, rfl⟩ :=
      FileDescriptor.mem_extents (d := ⟨q, i + 1, f, drive, mode⟩) hq hown hparts he
    have hin : (⟨0, 1⟩ : Extent).Covers 0 := ⟨le_rfl, Nat.one_pos⟩
    exact hblock.not_clear (by decide) hcov hin (hclear i _ hslot p hp)

/-- A disk with the directory `D` in cluster 2, which has the file `A` in cluster 3. -/
def nestedDisk : Disk :=
  diskWith fun a =>
    if 516 ≤ a ∧ a < 520 then 0xFF
    else if a = 1024 then 0x44
    else if a = 1035 then 0x10
    else if a = 1050 then 2
    else if 1536 ≤ a ∧ a < 1568 then (fileItem 100).raw (a - 1536)
    else 0

/-- The volume on this disk, as it is mounted. -/
def nestedVolume : FatMount :=
  { mountedVolume 1 with
    disk := nestedDisk
    root := ⟨itemsOf (slice nestedDisk.byte 1024 512), 1, 2⟩ }

/-- The directory in cluster 2. -/
def nestedDirectory : FatDirectory := ⟨itemsOf (slice nestedDisk.byte 1536 32), 1, 3⟩

/-- The path `0:/D/A`. -/
def pathDA : List UInt8 := [0x30, 0x3A, 0x2F, 0x44, 0x2F, 0x41]

lemma namesOf_pathDA : namesOf pathDA = [[0x44], [0x41]] := by decide

lemma nestedVolume_fresh : FreshMount nestedVolume := by
  have hroot : RootDirectory smallVolume nestedDisk 1 := by
    refine ⟨⟨fun i hi => ?_, by decide⟩, by decide, by decide⟩
    obtain rfl := Nat.lt_one_iff.mp hi
    decide
  refine ⟨rfl, soundVolume_small, diskWith_faultFree _, ⟨1, hroot⟩, ?_⟩
  have hcount : liveCount (rootEntries smallVolume nestedDisk) 1 = 1 := by decide
  have hload := hroot.load_eq (diskWith_faultFree _)
  rw [hcount] at hload
  exact hload

lemma nestedVolume_extents : nestedVolume.extents = mountedExtents := by decide

lemma nestedRoot_find : nestedVolume.kind.findItemInDirectory nestedVolume.root [0x44] =
    some (nestedVolume.root.item 0) := by
  refine fat16_findItem_iff.mpr ⟨0, ⟨by decide, by decide +kernel, fun j hj => ?_⟩, rfl⟩
  exact absurd hj (Nat.not_lt_zero j)

lemma nestedRoot_subdirectory :
    (nestedVolume.root.item 0).attributeBits &&& fatFileSubdirectory ≠ 0 := by
  decide +kernel

lemma nestedDirectory_find : nestedVolume.kind.findItemInDirectory nestedDirectory [0x41] =
    some (nestedDirectory.item 0) := by
  rfl

lemma nestedVolume_load : nestedVolume.kind.loadFatDirectory nestedVolume.volume nestedVolume.disk
    (nestedVolume.root.item 0) = some (.ok nestedDirectory) := by
  have hat : EntriesAt nestedDisk (3 * smallVolume.sectorSize)
      (entriesIn fun x => nestedDisk.byte (1536 + x)) 1 := fun i _ => rfl
  have hterm : Terminated (entriesIn fun x => nestedDisk.byte (1536 + x)) 1 := by
    refine ⟨fun i hi => ?_, by decide⟩
    obtain rfl := Nat.lt_one_iff.mp hi
    decide
  have hcluster : (nestedVolume.root.item 0).firstClusterInt = (2 : ℕ) := by
    decide +kernel
  have hsector : fat16.clusterToSector smallVolume (2 : ℕ) = (3 : ℕ) := by decide
  exact FatKind.loadFatDirectory_within (fun _ => rfl) nestedRoot_subdirectory hcluster hsector
    (by decide) hat hterm (by decide)

lemma nestedVolume_fileAt :
    FileAt nestedVolume nestedVolume.root (namesOf pathDA) (nestedDirectory.item 0) 5 := by
  rw [namesOf_pathDA]
  have hfile : FileAt nestedVolume nestedDirectory [[0x41]] (nestedDirectory.item 0) 2 :=
    .file nestedDirectory_find (by decide)
  exact .sub nestedRoot_find nestedRoot_subdirectory nestedVolume_load hfile

/-- The entry of the file lies in the data area. -/
lemma nestedVolume_openOutside : OpenOutside nestedVolume (namesOf pathDA) := by
  rw [namesOf_pathDA]
  refine Or.inr fun slot hslot => ?_
  have hparent : fat16.getParentDir nestedVolume.volume nestedVolume.disk nestedVolume.root
      [[0x44], [0x41]] = some (some (.directory (.ok nestedDirectory))) := by
    change fat16.getDirectoryEntry nestedVolume.volume nestedVolume.disk nestedVolume.root
      [[0x44]] = _
    have hload : fat16.loadFatDirectory nestedVolume.volume nestedVolume.disk
      (nestedVolume.root.item 0) = some (.ok nestedDirectory) := nestedVolume_load
    have hfind : fat16.findItemInDirectory nestedVolume.root [0x44] =
      some (nestedVolume.root.item 0) := nestedRoot_find
    rw [getDirectoryEntry, findFatItem, hfind]
    simp only [newFatItem, if_pos nestedRoot_subdirectory, hload]
    rfl
  have hindex : FatKind.entryIndex nestedDirectory [0x41] = some 0 := by decide +kernel
  rw [entryLocation, hparent] at hslot
  simp only [Option.bind_some] at hslot
  rw [show ([[0x44], [0x41]] : List (List UInt8)).getLastD [] = [0x41] from rfl, hindex] at hslot
  simp only [Option.map_some, Option.some.injEq] at hslot
  rw [← hslot]
  decide

lemma nestedVolume_spares : SparesRoots (freshKernel nestedVolume) (.fopen pathDA modeR 0) := by
  have hmt : ∀ {mt}, diskGet (freshKernel nestedVolume) (driveOf pathDA) = some (some mt) →
      nestedVolume = mt := fun hdisk => freshKernel_disks (disks_of_diskGet hdisk)
  refine ⟨freshKernel_intact nestedVolume_extents, fun _ mt hdisk hroot => ?_, fun mt hdisk => ?_⟩
  · exact absurd hroot.1 (by rw [namesOf_pathDA]; decide)
  · rw [← hmt hdisk]
    exact nestedVolume_openOutside

/-- An open file and a volume are all the structures. -/
lemma structures_opened {i : ℕ} {desc : FileDescriptor} {disk : Disk} (hi : i < maxFileDescriptors)
    (hdesc : k.fileDescriptors = Function.update (freshKernel mt).fileDescriptors i (some desc))
    (hdisks : k.disks = Function.update (freshKernel mt).disks 0
      (some (some { mt with disk := disk }))) :
    k.structures = desc.extents ++ mt.extents := by
  rw [Kernel.structures, hdesc, hdisks, flatMap_range_single hi fun j hj => ?_,
    flatMap_range_single (by decide : 0 < maxDisks) fun j hj => ?_]
  · simp only [Function.update_self]
    rfl
  · rw [Function.update_of_ne hj]
    have hnone : (freshKernel mt).disks j = none := if_neg hj
    rw [hnone]
    rfl
  · rw [Function.update_of_ne hj]
    rfl

/-- The file is opened, and the structures in memory are intact. -/
lemma nestedVolume_opens : Runs (fopen pathDA modeR 0) (freshKernel nestedVolume) fun fd k =>
    fd = 1 ∧ k.Intact := by
  have hdisk : diskGet (freshKernel nestedVolume) (driveOf pathDA) = some (some nestedVolume) := rfl
  have hready : FopenReady (freshKernel nestedVolume) pathDA mountedExtents 1000 := by
    refine freshKernel_ready rfl rfl (by decide) (by decide) fun item b hfile => ?_
    obtain ⟨-, rfl⟩ := nestedVolume_fileAt.unique hfile
    decide
  have hlate : ¬ EarlyFailure (freshKernel nestedVolume) pathDA modeR := by
    rintro (hacc | hnil | hnone | hinvalid)
    · exact hacc (by decide)
    · rw [namesOf_pathDA] at hnil
      cases hnil
    · exact hnone _ hdisk
    · exact absurd hinvalid (by decide)
  have hperm : Permitted (fileGetModeByString modeR) (nestedDirectory.item 0) := by
    rintro ⟨hwrite, -⟩
    exact hwrite (by decide)
  obtain ⟨fd, k, hopen, hfd, -⟩ := hready.fopen_opens hlate hdisk nestedVolume_fileAt hperm
    (by decide : 0 < maxFileDescriptors) rfl
  refine ⟨fd, k, hopen, ?_⟩
  cases fopen_result hready hopen with
  | early _ hres => omega
  | failed _ hres => omega
  | full _ hres => omega
  | @opened mt _ i drive mode q f L' _ hi hnone hfirst hq hown hparts hrem hdesc hacc =>
    obtain rfl : i = 0 := by
      by_contra hne
      exact hfirst 0 (Nat.pos_of_ne_zero hne) rfl
    refine ⟨rfl, ?_⟩
    obtain rfl : L' = mountedExtents := by
      rw [namesOf_pathDA] at hrem
      rcases hrem with ⟨-, hsame⟩ | ⟨hlen, -⟩
      · exact hsame
      · exact absurd hlen (by decide)
    have hmounted : ∃ disk, k.disks = Function.update (freshKernel nestedVolume).disks 0
        (some (some { nestedVolume with disk := disk })) := by
      rcases ends_fopen_opened _ _ _ _ _ hopen with ⟨-, hsame⟩ | hopened
      · rw [hdesc] at hsame
        have hslot := congrFun hsame 0
        rw [Function.update_self] at hslot
        cases hslot
      obtain ⟨-, mt', path, now, m, r, m', hdisk', -, -, hdisks, -⟩ := hopened
      obtain rfl := freshKernel_disks (disks_of_diskGet hdisk')
      exact ⟨r.2, hdisks⟩
    obtain ⟨disk, hdisks⟩ := hmounted
    -- the new file and the root directory are all there is
    refine hacc.kernelHeap.intact ?_ fun a ha => ?_
    · rw [structures_opened hi hdesc hdisks, nestedVolume_extents, FileDescriptor.extents]
      simp only [List.cons_append, List.append_assoc]
    · rw [← List.append_assoc f.extents, ← List.cons_append, List.mem_append] at ha
      rcases ha with ha | ha
      · exact FileDescriptor.extents_pos (d := ⟨q, 0 + 1, f, drive, mode⟩) ha
      · exact (mountedMemory_taken ha).pos

end SerpaeOS
