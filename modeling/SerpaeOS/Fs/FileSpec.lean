import SerpaeOS.Fs.File

/-!
# What `fopen` and `fclose` leave behind

A call of `fopen` fails before the driver is asked, or the driver fails, or there is no
descriptor left, or the file is open.  `fopen_result` says for each of these what the heap and
the table of descriptors are afterwards.  Two results follow: when closing a file restores the
state before it was opened, and when a failed `fopen` changes nothing.
-/

namespace SerpaeOS

open BlockTable Bytes Word Prog

variable {α : Type} {p : KProg α} {k k' : Kernel}

/-! ## Programs over the memory -/

lemma onMemory_eq_some {a : α} (h : onMemory p k = some (a, k')) :
    ∃ m, p k.memory = some (a, m) ∧ k' = { k with memory := m } := by
  obtain ⟨⟨b, m⟩, hp, heq⟩ := Option.map_eq_some_iff.mp h
  cases heq
  exact ⟨m, hp, rfl⟩

lemma runs_onMemory {Q : α → KMemory → Prop} (h : Runs p k.memory Q) :
    Runs (onMemory p) k fun a k' => ∃ m, Q a m ∧ k' = { k with memory := m } := by
  obtain ⟨a, m, hp, hQ⟩ := h
  refine ⟨a, { k with memory := m }, ?_, m, hQ, rfl⟩
  rw [onMemory, hp, Option.map_some]

lemma ends_onMemory {Q : α → KMemory → Prop} (h : Ends p k.memory Q) :
    Ends (onMemory p) k fun a k' => ∃ m, Q a m ∧ k' = { k with memory := m } := by
  intro a k' hrun
  obtain ⟨m, hp, rfl⟩ := onMemory_eq_some hrun
  exact ⟨m, h a m hp, rfl⟩

lemma getKernel_bind {α : Type} (f : Kernel → KernelProg α) (k : Kernel) :
    (getKernel >>= f) k = f k k := rfl

lemma runs_getKernel : Runs getKernel k fun a k' => a = k ∧ k' = k := ⟨k, k, rfl, rfl, rfl⟩

lemma ends_getKernel_bind {f : Kernel → KernelProg α} {Q : α → Kernel → Prop}
    (h : Ends (f k) k Q) : Ends (getKernel >>= f) k Q := h

/-! ## The setting -/

/-- The memory of the kernel with the given allocations, all of which `kzalloc` has
returned. -/
structure KernelMemory (m : KMemory) (L : List Extent) : Prop where
  kernelHeap : KernelHeap m.heap L
  known : ∀ e ∈ L, blockAddress e.start ∈ m.returned
  returned_lt : ∀ p ∈ m.returned, p < 2 ^ 31

lemma KernelMemory.recorded {m : KMemory} {L : List Extent} (h : KernelMemory m L) :
    Recorded m m :=
  ⟨h.kernelHeap.saddr_eq, h.kernelHeap.total_eq, h.returned_lt, [], rfl⟩

/-- Taking a block. -/
lemma KernelMemory.allocate {m : KMemory} {L : List Extent} {n size : ℕ} (h : KernelMemory m L)
    (hroomy : Roomy L n) (hpos : 0 < size) (hroom : blocksFor size ≤ n) :
    Runs (SerpaeOS.allocate size) m fun p m' => IsBlock p ∧
      KernelMemory m' (extentAt p (blocksFor size) :: L) ∧
      Roomy (extentAt p (blocksFor size) :: L) (n - blocksFor size) := by
  obtain ⟨p, m', hrun, hp, hacc⟩ :=
    (accounts_refl (X := []) h.kernelHeap hroomy h.known).allocate size hpos hroom
  have hrec := keeps_allocate size _ _ _ h.recorded hrun
  exact ⟨p, m', hrun, hp, ⟨hacc.kernelHeap, hacc.known, hrec.returned_lt⟩, hacc.roomy⟩

/-- The memory after a call of `kzalloc`. -/
def KMemory.afterKzalloc (m : KMemory) (size : ℕ) : KMemory where
  heap := (kzalloc m.heap size).1
  returned := (kzalloc m.heap size).2 :: m.returned
  freed := m.freed

lemma KernelMemory.afterKzalloc {m : KMemory} {L : List Extent} {n size : ℕ}
    (h : KernelMemory m L) (hroomy : Roomy L n) (hpos : 0 < size) (hroom : blocksFor size ≤ n) :
    IsBlock (kzalloc m.heap size).2 ∧
      KernelMemory (m.afterKzalloc size)
        (extentAt (kzalloc m.heap size).2 (blocksFor size) :: L) ∧
      Roomy (extentAt (kzalloc m.heap size).2 (blocksFor size) :: L) (n - blocksFor size) := by
  obtain ⟨p, m', hrun, hspec⟩ := h.allocate hroomy hpos hroom
  cases hrun
  exact hspec

/-- The number of the drive in an accepted path. -/
def driveOf (filename : List UInt8) : ℕ := tonumericdigit (filename.getD 0 0)

/-- A kernel before a call of `fopen`: the root directory of the volume is in memory, and
there is a run of free blocks for the path and for the directories on the way to the
file. -/
structure FopenReady (k : Kernel) (filename : List UInt8) (L : List Extent) (n : ℕ) : Prop where
  memory : KernelMemory k.memory L
  no_nul : 0 ∉ filename
  mounted : ∀ mt, diskGet k (driveOf filename) = some (some mt) →
    ∃ holder blocks L', mt.RootHeld holder blocks ∧
      L.Perm (extentAt mt.rootItemPtr blocks :: extentAt holder 1 :: L')
  roomy : Roomy L n
  room_path : 2 * filename.length + 3 ≤ n
  room_file : ∀ mt item b, diskGet k (driveOf filename) = some (some mt) →
    FileAt mt mt.root (namesOf filename) item b → 2 * filename.length + 2 * b + 6 ≤ n

/-- The call fails before the driver is asked: the path is malformed or has no name, the disk
does not exist or has no volume, or the mode is invalid. -/
def EarlyFailure (k : Kernel) (filename modeStr : List UInt8) : Prop :=
  ¬ PathAccepted filename ∨ namesOf filename = [] ∨
    (∀ mt, diskGet k (driveOf filename) ≠ some (some mt)) ∨
    fileGetModeByString modeStr = fileModeInvalid

/-- The table of the heap, the memory around it, and the table of descriptors are as
before. -/
structure Restored (k k' : Kernel) : Prop where
  entries_eq : k'.memory.heap.table.entries = k.memory.heap.table.entries
  descriptors_eq : k'.fileDescriptors = k.fileDescriptors

/-- Moreover `kfree` was only applied to pointers that `kzalloc` had returned. -/
structure Unchanged (k k' : Kernel) : Prop extends Restored k k' where
  freed_ok : ∃ F, k'.memory.freed = F ++ k.memory.freed ∧ ∀ p ∈ F, p ∈ k'.memory.returned

/-! ## The result of a call -/

/-- What a call of `fopen` can do. -/
inductive FopenResult (k : Kernel) (filename modeStr : List UInt8) (L : List Extent) :
    ℤ → Kernel → Prop
  /-- It fails before the driver is asked. -/
  | early {res : ℤ} {k' : Kernel} (hearly : EarlyFailure k filename modeStr) (hres : res < 0)
      (hdesc : k'.fileDescriptors = k.fileDescriptors)
      (hacc : Accounts k.memory [] k'.memory L 0) : FopenResult k filename modeStr L res k'
  /-- The driver fails, and its error code is freed. -/
  | failed {res : ℤ} {k' : Kernel} {F : List Ptr} {q : Ptr}
      (hlate : ¬ EarlyFailure k filename modeStr) (hres : res < 0)
      (hfreed : k'.memory.freed = q :: F ++ k.memory.freed) (hq : 2 ^ 31 ≤ q)
      (hreturned : ∀ p ∈ k'.memory.returned, p < 2 ^ 31) :
      FopenResult k filename modeStr L res k'
  /-- The table of descriptors is full, and the item of the file stays. -/
  | full {res : ℤ} {k' : Kernel} {X : List Ptr} {L' : List Extent} {q : Ptr}
      (hlate : ¬ EarlyFailure k filename modeStr) (hres : res < 0) (hfresh : FreshBlock L q)
      (hmem : extentAt q 1 ∈ L') (hacc : Accounts k.memory X k'.memory L' 0) :
      FopenResult k filename modeStr L res k'
  /-- The file is open. -/
  | opened {mt : FatMount} {k' : Kernel} {i disk mode : ℕ} {q : Ptr} {f : FatOpenFile}
      {L' : List Extent} (hlate : ¬ EarlyFailure k filename modeStr) (hi : i < maxFileDescriptors)
      (hnone : k.fileDescriptors i = none) (hfirst : ∀ j < i, k.fileDescriptors j ≠ none)
      (hq : IsBlock q) (hown : f.Owned)
      (hparts : PartsOk f.path) (hrem : Remains mt (namesOf filename) L L')
      (hdesc : k'.fileDescriptors =
        Function.update k.fileDescriptors i (some ⟨q, i + 1, f, disk, mode⟩))
      (hacc : Accounts k.memory [mt.rootPtr] k'.memory
        (extentAt q 1 :: (f.extents ++ (pathExtents f.path ++ L'))) 1) :
      FopenResult k filename modeStr L ((i + 1 : ℕ) : ℤ) k'

variable {A : KMemory → List Extent → ℕ → Prop} {m₀ : KMemory} {X : List Ptr}
  {L L' : List Extent} {n : ℕ} {res : ℤ} {filename modeStr : List UInt8}

/-- A failed call without a pointer of the driver frees the path. -/
lemma Ledger.fopenOut_null (hA : Ledger A) {q d : ℕ} {parts : List PathPart} (hok : PartsOk parts)
    (hq : IsBlock q)
    (h : A k.memory (pathExtents parts ++ extentAt q 1 :: L) n) :
    Runs (fopenOut ⟨q, d, parts⟩ 0 res) k fun r k' => r = res ∧
      k'.fileDescriptors = k.fileDescriptors ∧ A k'.memory L n := by
  rw [← List.nil_append (pathExtents parts ++ _)] at h
  refine (runs_onMemory (hA.pathparserFree hok hq h)).bind fun _ k₁ hk₁ => ?_
  obtain ⟨m₁, hm₁, rfl⟩ := hk₁
  exact runs_pure ⟨rfl, rfl, hm₁⟩

/-- A failed call with an open file frees the path and the descriptor of the driver. -/
lemma Ledger.fopenOut_file (hA : Ledger A) {q d : ℕ} {f : FatOpenFile} (hok : PartsOk f.path)
    (hq : IsBlock q) (hown : f.Owned)
    (h : A k.memory (f.extents ++ (pathExtents f.path ++ extentAt q 1 :: L)) n) :
    Runs (fopenOut ⟨q, d, f.path⟩ f.ptr res) k fun r k' => r = res ∧
      A k'.memory (extentAt f.clonePtr 1 :: extentAt f.itemPtr 1 :: L) n := by
  refine (runs_onMemory (hA.pathparserFree hok hq h)).bind fun _ k₁ hk₁ => ?_
  obtain ⟨m₁, hm₁, rfl⟩ := hk₁
  rw [if_pos hown.ptr_block.ne_zero]
  have hm₁' : A m₁
      ([extentAt f.clonePtr 1, extentAt f.itemPtr 1] ++ extentAt f.ptr 1 :: L) n := hm₁
  have hrelease := hA.release_middle hm₁' hown.ptr_block Nat.one_pos
  refine (runs_onMemory (k := { k with memory := m₁ }) hrelease).bind fun _ k₂ hk₂ => ?_
  obtain ⟨m₂, hm₂, rfl⟩ := hk₂
  exact runs_pure ⟨rfl, hm₂⟩

/-- A failed call with an error code for a pointer applies `kfree` to the error code. -/
lemma Recorded.fopenOut_error {root : PathRoot} {e : ℤ} (he : -8 ≤ e ∧ e < 0)
    (h : Recorded m₀ k.memory) (hout : fopenOut root (u32 e) e k = some (res, k')) :
    res = e ∧ (∃ F, k'.memory.freed = u32 e :: F ++ m₀.freed) ∧ 2 ^ 31 ≤ u32 e ∧
      ∀ p ∈ k'.memory.returned, p < 2 ^ 31 := by
  have hcode : 2 ^ 31 ≤ u32 e := by
    rw [u32]
    omega
  obtain ⟨_, k₁, hfree, hout⟩ := bind_eq_some hout
  obtain ⟨m₁, hrun, rfl⟩ := onMemory_eq_some hfree
  have hm₁ := keeps_pathparserFree root _ _ _ h hrun
  obtain ⟨F, hF⟩ := hm₁.freed_eq
  rw [if_pos (by omega : u32 e ≠ 0)] at hout
  obtain ⟨_, k₂, hrelease, hout⟩ := bind_eq_some hout
  obtain ⟨m₂, hrun, rfl⟩ := onMemory_eq_some hrelease
  cases pure_eq_some hout
  cases hrun
  refine ⟨rfl, ⟨F, ?_⟩, hcode, hm₁.returned_lt⟩
  simp only [hF, List.cons_append]

/-- With an open file the call finds a descriptor, or the table is full. -/
lemma Ledger.fopenEnter (hA : Ledger A) {q d mode : ℕ} {f : FatOpenFile} (hok : PartsOk f.path)
    (hq : IsBlock q) (hown : f.Owned) (hroom : 1 ≤ n)
    (h : A k.memory (f.extents ++ (pathExtents f.path ++ extentAt q 1 :: L)) n) :
    Runs (fopenEnter ⟨q, d, f.path⟩ f mode) k fun r k' =>
      (r = -enomem ∧ (∀ i < maxFileDescriptors, k.fileDescriptors i ≠ none) ∧
        A k'.memory (extentAt f.clonePtr 1 :: extentAt f.itemPtr 1 :: L) 0) ∨
      ∃ i p, i < maxFileDescriptors ∧ k.fileDescriptors i = none ∧
        (∀ j < i, k.fileDescriptors j ≠ none) ∧ IsBlock p ∧ r = ((i + 1 : ℕ) : ℤ) ∧
        k'.fileDescriptors = Function.update k.fileDescriptors i (some ⟨p, i + 1, f, d, mode⟩) ∧
        A k'.memory
          (extentAt p 1 :: (f.extents ++ (pathExtents f.path ++ L))) (n - 1) := by
  have hblocks : blocksFor fileDescriptorSize = 1 := by decide
  rcases hfind : (List.range maxFileDescriptors).find? fun i => (k.fileDescriptors i).isNone
    with _ | i
  · -- the table is full
    have hnew : Runs (fileNewDescriptor f d mode) k fun r k' => r = none ∧ k' = k := by
      refine runs_getKernel.bind fun k₁ k₂ hk => ?_
      obtain ⟨rfl, rfl⟩ := hk
      rw [hfind]
      exact runs_pure ⟨rfl, rfl⟩
    refine hnew.bind fun r k₁ hr => ?_
    obtain ⟨rfl, rfl⟩ := hr
    refine (hA.fopenOut_file hok hq hown h).mono fun r k₂ hr => ?_
    refine Or.inl ⟨hr.1, fun i hi hnone => ?_, hA.mono hr.2 (by omega)⟩
    exact List.find?_eq_none.mp hfind i (List.mem_range.mpr hi) (by rw [hnone]; rfl)
  · obtain ⟨hnone, hi, hfirst⟩ := List.find?_range_eq_some.mp hfind
    have hnew : Runs (fileNewDescriptor f d mode) k fun r k' => r = some (i + 1) ∧
        ∃ p, IsBlock p ∧
          k'.fileDescriptors =
            Function.update k.fileDescriptors i (some ⟨p, i + 1, f, d, mode⟩) ∧
          A k'.memory
            (extentAt p 1 :: (f.extents ++ (pathExtents f.path ++ extentAt q 1 :: L))) (n - 1) := by
      refine runs_getKernel.bind fun k₁ k₂ hk => ?_
      obtain ⟨rfl, rfl⟩ := hk
      rw [hfind]
      have halloc := hA.allocate h fileDescriptorSize (by decide) (by omega)
      refine (runs_onMemory halloc).bind fun p k₃ hk₃ => ?_
      obtain ⟨m₃, ⟨hp, hm₃⟩, rfl⟩ := hk₃
      rw [hblocks] at hm₃
      rw [if_neg hp.ne_zero]
      exact ⟨_, _, rfl, rfl, p, hp, rfl, hm₃⟩
    refine hnew.bind fun r k₁ hr => ?_
    obtain ⟨rfl, p, hp, hdesc, hk₁⟩ := hr
    have hrelease : Runs (SerpaeOS.release q) k₁.memory fun _ m' => A m'
        (extentAt p 1 :: (f.extents ++ (pathExtents f.path ++ L))) (n - 1) := by
      have hk₁' : A k₁.memory
          ((extentAt p 1 :: (f.extents ++ pathExtents f.path)) ++ extentAt q 1 :: L) (n - 1) := by
        rw [List.cons_append, List.append_assoc]
        exact hk₁
      refine (hA.release_middle hk₁' hq Nat.one_pos).mono fun _ m' hm' => ?_
      rw [List.cons_append, List.append_assoc] at hm'
      exact hm'
    refine (runs_onMemory hrelease).bind fun _ k₂ hk₂ => ?_
    obtain ⟨m₂, hm₂, rfl⟩ := hk₂
    exact runs_pure (Or.inr ⟨i, p, by simpa using hi, by simpa using hnone,
      fun j hj => by simpa [← Option.isSome_iff_ne_none] using hfirst j hj, hp, rfl, hdesc, hm₂⟩)

lemma FopenReady.remains {mt : FatMount} (h : FopenReady k filename L n)
    (hdisk : diskGet k (driveOf filename) = some (some mt)) (hne : namesOf filename ≠ []) :
    ∃ L', Remains mt (namesOf filename) L L' := by
  have hpos := List.length_pos_iff.mpr hne
  by_cases hlen : 2 ≤ (namesOf filename).length
  · exact ⟨L, Or.inl ⟨hlen, rfl⟩⟩
  · obtain ⟨holder, blocks, L', hheld, hperm⟩ := h.mounted mt hdisk
    exact ⟨L', Or.inr ⟨by omega, holder, blocks, hheld, hperm⟩⟩

/-- The driver opens a file for a parsed path. -/
lemma FopenReady.runs_fatOpen {mt : FatMount} {q : Ptr} {parts : List PathPart} {mode now b : ℕ}
    {m₁ : KMemory} {item : FatDirectoryItem} (h : FopenReady k filename L n)
    (hdisk : diskGet k (driveOf filename) = some (some mt))
    (hnames : parts.map PathPart.part = namesOf filename)
    (hm₁ : Accounts k.memory [] m₁ (pathExtents parts ++ extentAt q 1 :: L)
      (n - (2 * filename.length + 3)))
    (hfile : FileAt mt mt.root (namesOf filename) item b) (hperm : Permitted mode item) :
    Runs (mt.fatOpen parts mode now) m₁ fun r m₂ => ∃ f disk L', r = (.ok f, disk) ∧
      Remains mt (namesOf filename) L L' ∧ f.path = parts ∧ f.Owned ∧
      FreshBlock L f.itemPtr ∧ Accounts k.memory [mt.rootPtr] m₂
        (f.extents ++ (pathExtents parts ++ extentAt q 1 :: L'))
        (n - (2 * filename.length + 2 * b + 4)) := by
  obtain ⟨L', hrem⟩ := h.remains hdisk hfile.ne_nil
  have hroom := h.room_file mt item b hdisk hfile
  have hno : ∀ name ∈ namesOf filename, 0 ∉ name :=
    fun name hname hzero => h.no_nul (mem_of_mem_namesOf hname hzero)
  rw [← hnames] at hfile hrem hno
  have hwrite : ∀ (F : List Extent) (m : KMemory) (n : ℕ) (newItem : FatDirectoryItem),
      Accounts k.memory [mt.rootPtr] m (F ++ (pathExtents parts ++ extentAt q 1 :: L)) n →
      b ≤ n → Runs (mt.writeDirectoryEntry (parts.map PathPart.part) newItem) m fun _ m' =>
        Accounts k.memory [mt.rootPtr] m'
          (F ++ (pathExtents parts ++ extentAt q 1 :: L')) (n - b) := by
    intro F m n newItem hm hb
    rw [List.append_cons] at hm ⊢
    exact hm.writeDirectoryEntry_remains hfile hno hrem F _ hb newItem
  refine (Accounts.fatOpen hfile hperm hwrite (hm₁.weaken (List.nil_subset _))
    (by omega)).mono fun r m₂ hr => ?_
  obtain ⟨f, disk, rfl, hpath, hown, hfresh, hm₂⟩ := hr
  rw [hnames] at hrem
  refine ⟨f, disk, L', rfl, hrem, hpath, hown, hfresh.subset ?_, hm₂.mono (by omega)⟩
  intro e he
  simp [he]

/-- When the driver opens a file, it does so for a path to a file. -/
lemma FopenReady.fatOpen_ok {mt : FatMount} {q : Ptr} {parts : List PathPart} {mode now : ℕ}
    {m₁ m₂ : KMemory} {f : FatOpenFile} {disk : Disk} (h : FopenReady k filename L n)
    (hdisk : diskGet k (driveOf filename) = some (some mt))
    (hnames : parts.map PathPart.part = namesOf filename)
    (hm₁ : Accounts k.memory [] m₁ (pathExtents parts ++ extentAt q 1 :: L)
      (n - (2 * filename.length + 3)))
    (hopen : mt.fatOpen parts mode now m₁ = some ((.ok f, disk), m₂)) :
    ∃ L', Remains mt (namesOf filename) L L' ∧ f.path = parts ∧ f.Owned ∧
      FreshBlock L f.itemPtr ∧ Accounts k.memory [mt.rootPtr] m₂
        (f.extents ++ (pathExtents parts ++ extentAt q 1 :: L')) 2 := by
  obtain ⟨item, b, hfile, hperm, -⟩ := FatMount.fileAt_of_fatOpen hopen
  rw [hnames] at hfile
  obtain ⟨f', disk', L', heq, hrem, hpath, hown, hfresh, hacc⟩ :=
    (h.runs_fatOpen hdisk hnames hm₁ hfile hperm).of_eq hopen
  cases heq
  have hroom := h.room_file mt item b hdisk hfile
  exact ⟨L', hrem, hpath, hown, hfresh, hacc.mono (by omega)⟩

/-- A call that fails early frees the path that it has parsed. -/
lemma FopenReady.fopen_early {now : ℕ} (h : FopenReady k filename L n)
    (hearly : EarlyFailure k filename modeStr) :
    Runs (fopen filename modeStr now) k fun res k' => res < 0 ∧
      k'.fileDescriptors = k.fileDescriptors ∧ Accounts k.memory [] k'.memory L 0 := by
  have hstart : Accounts k.memory [] k.memory L n :=
    accounts_refl h.memory.kernelHeap h.roomy h.memory.known
  by_cases hacc : PathAccepted filename
  swap
  · refine ⟨-einvarg, k, ?_, by decide, rfl, hstart.mono (Nat.zero_le n)⟩
    rw [fopen]
    change ((pathparserParse filename k.memory).map _).bind _ = _
    rw [pathparserParse_rejected hacc]
    rfl
  have hparse := accounts_ledger.pathparserParse hstart hacc h.room_path
  refine (runs_onMemory hparse).bind fun r k₁ hk₁ => ?_
  obtain ⟨m₁, ⟨q, parts, rfl, hq, hok, hnames, hm₁⟩, rfl⟩ := hk₁
  have hout : ∀ e < 0, Runs (fopenOut ⟨q, driveOf filename, parts⟩ 0 e) { k with memory := m₁ }
      fun res k' => res < 0 ∧ k'.fileDescriptors = k.fileDescriptors ∧
        Accounts k.memory [] k'.memory L 0 := by
    intro e he
    refine (accounts_ledger.fopenOut_null (k := { k with memory := m₁ }) hok hq hm₁).mono
      fun r k₂ hr => ?_
    exact ⟨by rw [hr.1]; exact he, hr.2.1, hr.2.2.mono (Nat.zero_le _)⟩
  simp only
  by_cases hempty : parts.isEmpty = true
  · rw [if_pos hempty]
    exact hout _ (by decide)
  rw [if_neg hempty]
  refine runs_getKernel.bind fun k₂ k₃ hk => ?_
  obtain ⟨rfl, rfl⟩ := hk
  rcases hdisk : diskGet { k with memory := m₁ } (tonumericdigit (filename.getD 0 0))
    with _ | _ | mt
  · exact hout _ (by decide)
  · exact hout _ (by decide)
  rcases hearly with hacc' | hnil | hnone | hmode
  · exact absurd hacc hacc'
  · rw [← hnames, List.map_eq_nil_iff] at hnil
    exact absurd (List.isEmpty_iff.mpr hnil) hempty
  · exact absurd hdisk (hnone mt)
  · simp only [if_pos hmode]
    exact hout _ (by decide)

/-- A call that does not fail early goes on with the driver. -/
lemma FopenReady.fopen_late (h : FopenReady k filename L n) (now : ℕ)
    (hlate : ¬ EarlyFailure k filename modeStr) :
    ∃ mt q parts m₁, diskGet k (driveOf filename) = some (some mt) ∧ IsBlock q ∧
      PartsOk parts ∧ parts.map PathPart.part = namesOf filename ∧
      Accounts k.memory [] m₁ (pathExtents parts ++ extentAt q 1 :: L)
        (n - (2 * filename.length + 3)) ∧ Recorded k.memory m₁ ∧
      fopen filename modeStr now k = fopenOn mt ⟨q, driveOf filename, parts⟩
        (fileGetModeByString modeStr) now { k with memory := m₁ } := by
  simp only [EarlyFailure, not_or, not_not, not_forall] at hlate
  obtain ⟨hacc, hne, ⟨mt, hdisk⟩, hmode⟩ := hlate
  have hstart : Accounts k.memory [] k.memory L n :=
    accounts_refl h.memory.kernelHeap h.roomy h.memory.known
  obtain ⟨r, m₁, hparse, q, parts, rfl, hq, hok, hnames, hm₁⟩ :=
    accounts_ledger.pathparserParse hstart hacc h.room_path
  refine ⟨mt, q, parts, m₁, hdisk, hq, hok, hnames, hm₁,
    keeps_pathparserParse filename _ _ _ h.memory.recorded hparse, ?_⟩
  have hempty : ¬ parts.isEmpty = true := by
    rw [List.isEmpty_iff, ← List.map_eq_nil_iff (f := PathPart.part), hnames]
    exact hne
  have hdisk' : diskGet { k with memory := m₁ } (tonumericdigit (filename.getD 0 0)) =
      some (some mt) := hdisk
  rw [fopen]
  change ((pathparserParse filename k.memory).map _).bind _ = _
  rw [hparse]
  simp only [Option.map_some, Option.bind_some, if_neg hempty]
  rw [getKernel_bind, hdisk']
  simp only [if_neg hmode]
  rfl

/-- Everything that a call of `fopen` can do. -/
theorem fopen_result {now : ℕ} (hready : FopenReady k filename L n)
    (h : fopen filename modeStr now k = some (res, k')) :
    FopenResult k filename modeStr L res k' := by
  by_cases hearly : EarlyFailure k filename modeStr
  · obtain ⟨hres, hdesc, hacc⟩ := (hready.fopen_early hearly).of_eq h
    exact .early hearly hres hdesc hacc
  obtain ⟨mt, q, parts, m₁, hdisk, hq, hok, hnames, hm₁, hrec, heq⟩ :=
    hready.fopen_late now hearly
  rw [heq] at h
  obtain ⟨⟨opened, disk⟩, k₂, hopen, h⟩ := bind_eq_some h
  obtain ⟨m₂, hopen', rfl⟩ := onMemory_eq_some hopen
  obtain ⟨_, k₃, hupdate, h⟩ := bind_eq_some h
  cases hupdate
  cases opened with
  | error e =>
    have hrec' := FatMount.keeps_fatOpen _ _ _ _ _ _ hrec hopen'
    have he := FatMount.fatOpen_error hopen'
    obtain ⟨rfl, ⟨F, hF⟩, hcode, hreturned⟩ := Recorded.fopenOut_error he hrec' h
    exact .failed hearly he.2 hF hcode hreturned
  | ok f =>
    obtain ⟨L', hrem, rfl, hown, hfresh, hm₂⟩ := hready.fatOpen_ok hdisk hnames hm₁ hopen'
    rcases (accounts_ledger.fopenEnter hok hq hown one_le_two hm₂).of_eq h with
      ⟨rfl, -, hk'⟩ | ⟨i, p, hi, hnone, hfirst, hp, rfl, hdesc, hk'⟩
    · exact .full hearly (by decide) hfresh (by simp) hk'
    · exact .opened hearly hi hnone hfirst hp hown hok hrem hdesc hk'

/-- A file that is found and permitted is opened when there is a free descriptor.  Some room
is left. -/
lemma FopenReady.fopen_opens {mt : FatMount} {item : FatDirectoryItem} {now b i : ℕ}
    (h : FopenReady k filename L n) (hlate : ¬ EarlyFailure k filename modeStr)
    (hdisk : diskGet k (driveOf filename) = some (some mt))
    (hfile : FileAt mt mt.root (namesOf filename) item b)
    (hperm : Permitted (fileGetModeByString modeStr) item) (hi : i < maxFileDescriptors)
    (hfree : k.fileDescriptors i = none) :
    Runs (fopen filename modeStr now) k fun res k' => 0 ≤ res ∧
      ∃ E, Accounts k.memory [mt.rootPtr] k'.memory E
        (n - (2 * filename.length + 2 * b + 4) - 1) := by
  obtain ⟨mt', q, parts, m₁, hdisk', hq, hok, hnames, hm₁, hrec, heq⟩ :=
    h.fopen_late now hlate
  cases hdisk.symm.trans hdisk'
  have hroom := h.room_file mt item b hdisk hfile
  have hrun : Runs (fopenOn mt ⟨q, driveOf filename, parts⟩ (fileGetModeByString modeStr) now)
      { k with memory := m₁ } fun res k' => 0 ≤ res ∧
        ∃ E, Accounts k.memory [mt.rootPtr] k'.memory E
          (n - (2 * filename.length + 2 * b + 4) - 1) := by
    refine (runs_onMemory (k := { k with memory := m₁ })
      (h.runs_fatOpen hdisk hnames hm₁ hfile hperm)).bind fun r k₂ hk₂ => ?_
    obtain ⟨m₂, ⟨f, disk, L', rfl, hrem, rfl, hown, -, hm₂⟩, rfl⟩ := hk₂
    refine Runs.bind (P := fun _ k₃ => k₃.memory = m₂ ∧ k₃.fileDescriptors = k.fileDescriptors)
      ⟨_, _, rfl, rfl, rfl⟩ fun _ k₃ hk₃ => ?_
    rw [← hk₃.1] at hm₂
    refine (accounts_ledger.fopenEnter hok hq hown (by omega) hm₂).mono fun res k₄ hres => ?_
    rcases hres with ⟨-, hfull, -⟩ | ⟨j, p, -, -, -, -, rfl, -, hacc⟩
    · rw [hk₃.2] at hfull
      exact absurd hfree (hfull i hi)
    · exact ⟨Int.natCast_nonneg _, _, hacc⟩
  obtain ⟨res, k', hfopen, hres⟩ := hrun
  exact ⟨res, k', heq.trans hfopen, hres⟩

lemma FopenReady.fopen_found {mt : FatMount} {item : FatDirectoryItem} {now b i : ℕ}
    (h : FopenReady k filename L n) (hlate : ¬ EarlyFailure k filename modeStr)
    (hdisk : diskGet k (driveOf filename) = some (some mt))
    (hfile : FileAt mt mt.root (namesOf filename) item b)
    (hperm : Permitted (fileGetModeByString modeStr) item) (hi : i < maxFileDescriptors)
    (hfree : k.fileDescriptors i = none) :
    Runs (fopen filename modeStr now) k fun res _ => 0 ≤ res :=
  (h.fopen_opens hlate hdisk hfile hperm hi hfree).mono fun _ _ hres => hres.1

/-- A file whose first name is not in the root directory is not opened. -/
lemma FopenReady.fopen_missing {mt : FatMount} {now : ℕ} {name : List UInt8}
    {rest : List (List UInt8)} (h : FopenReady k filename L n)
    (hlate : ¬ EarlyFailure k filename modeStr)
    (hdisk : diskGet k (driveOf filename) = some (some mt))
    (hname : namesOf filename = name :: rest)
    (hfind : mt.kind.findItemInDirectory mt.root name = none)
    (hroom : 2 * filename.length + 4 ≤ n) :
    Runs (fopen filename modeStr now) k fun res _ => res < 0 := by
  obtain ⟨mt', q, parts, m₁, hdisk', hq, hok, hnames, hm₁, hrec, heq⟩ :=
    h.fopen_late now hlate
  cases hdisk.symm.trans hdisk'
  have hrun : Runs (fopenOn mt ⟨q, driveOf filename, parts⟩ (fileGetModeByString modeStr) now)
      { k with memory := m₁ } fun res _ => res < 0 := by
    refine (runs_onMemory (k := { k with memory := m₁ })
      (accounts_ledger.fatOpen_missing (hnames.trans hname) hfind hm₁ (by omega))).bind
      fun r k₂ hk₂ => ?_
    obtain ⟨m₂, ⟨rfl, -⟩, rfl⟩ := hk₂
    refine Runs.bind (P := fun _ _ => True) ⟨_, _, rfl, trivial⟩ fun _ k₃ _ => ?_
    refine (runs_onMemory (runs_pathparserFree _ k₃.memory)).bind fun _ k₄ _ => ?_
    rw [if_pos (by decide)]
    refine Runs.bind (P := fun _ _ => True) ⟨_, _, rfl, trivial⟩ fun _ k₅ _ => ?_
    exact runs_pure (by decide)
  obtain ⟨res, k', hfopen, hres⟩ := hrun
  exact ⟨res, k', heq.trans hfopen, hres⟩

/-! ## A small volume -/

/-- The memory with the two blocks of the root directory of a FAT16 volume. -/
def mountedMemory : KMemory where
  heap := ⟨⟨fun i => if i = 0 ∨ i = 1 then blockCode 1 0 else entryFree, kernelBlocks, []⟩,
    heapAddress⟩
  returned := [blockAddress 1, blockAddress 0]
  freed := []

def mountedExtents : List Extent := [⟨1, 1⟩, ⟨0, 1⟩]

/-- A FAT16 volume whose root directory has the given number of entries, all with the name
`A`. -/
def mountedVolume (total : ℤ) : FatMount where
  kind := fat16
  looksTwice := true
  volume := smallVolume
  disk := diskWith fun _ => 0
  rootPtr := blockAddress 0 + 64
  rootItemPtr := blockAddress 1
  root := ⟨fun _ => ⟨fun i => if i = 0 then 0x41 else 0⟩, total, 2⟩

/-- The volume on disk 0, and no file open. -/
def mountedKernel (total : ℤ) : Kernel where
  memory := mountedMemory
  fileDescriptors _ := none
  disks i := if i = 0 then some (some (mountedVolume total)) else none

/-- The path `0:/A` and the mode `r`. -/
def pathA : List UInt8 := [0x30, 0x3A, 0x2F, 0x41]
def modeR : List UInt8 := [0x72]

lemma mountedMemory_kernelMemory : KernelMemory mountedMemory mountedExtents := by
  have hcov : ∀ i, ¬ Extent.Covered mountedExtents i → i ≠ 0 ∧ i ≠ 1 := by
    intro i hi
    constructor
    · rintro rfl
      exact hi ⟨⟨0, 1⟩, by simp [mountedExtents], by decide⟩
    · rintro rfl
      exact hi ⟨⟨1, 1⟩, by simp [mountedExtents], by decide⟩
  refine ⟨⟨rfl, rfl, ⟨⟨?_, ?_⟩, ?_, ?_⟩, by simp [mountedMemory], ?_⟩, ?_, ?_⟩
  · intro a ha
    rcases List.mem_pair.mp ha with rfl | rfl
    · exact Nat.le_of_ble_eq_true rfl
    · exact Nat.le_of_ble_eq_true rfl
  · refine List.pairwise_pair.mpr fun i hi => ?_
    have h1 := hi.1.1
    have h2 := hi.2.2
    simp only at h1 h2
    omega
  · intro a ha j hj
    rcases List.mem_pair.mp ha with rfl | rfl
    · obtain rfl : j = 0 := by simpa using hj
      rfl
    · obtain rfl : j = 0 := by simpa using hj
      rfl
  · intro i _ hi
    obtain ⟨h0, h1⟩ := hcov i hi
    exact if_neg (by omega)
  · exact Nat.le_of_ble_eq_true rfl
  · intro e he
    rcases List.mem_pair.mp he with rfl | rfl
    · exact List.mem_cons_self
    · exact List.mem_cons_of_mem _ List.mem_cons_self
  · intro p hp
    rcases List.mem_pair.mp hp with rfl | rfl
    · exact Nat.le_of_ble_eq_true rfl
    · exact Nat.le_of_ble_eq_true rfl

lemma diskGet_mountedKernel (total : ℤ) :
    diskGet (mountedKernel total) (driveOf pathA) = some (some (mountedVolume total)) := rfl

lemma namesOf_pathA : namesOf pathA = [[0x41]] := by decide

lemma mountedExtents_roomy : Roomy mountedExtents 5000 := by
  refine ⟨2, Nat.le_of_ble_eq_true rfl, ?_⟩
  rintro i hi ⟨e, he, hcov⟩
  have h1 := hi.1
  have h2 := hcov.2
  rcases List.mem_pair.mp he with rfl | rfl
  · simp only at h1 h2
    omega
  · simp only at h1 h2
    omega

/-- The root directory of the small volume may be held next to other allocations. -/
lemma fopenReady_pathA {R : List Extent} (hmem : KernelMemory k.memory L) (hroomy : Roomy L n)
    (hn : 18 ≤ n) (hperm : L.Perm (⟨1, 1⟩ :: ⟨0, 1⟩ :: R))
    (hroot : ∀ mt, diskGet k (driveOf pathA) = some (some mt) →
      mt.rootItemPtr = blockAddress 1 ∧ mt.rootPtr = blockAddress 0 + 64) :
    FopenReady k pathA L n := by
  refine ⟨hmem, by decide, ?_, hroomy, ?_, ?_⟩
  · intro mt hmt
    obtain ⟨hitem, hptr⟩ := hroot mt hmt
    refine ⟨blockAddress 0, 1, R, ⟨isBlock_blockAddress 0, ?_, Nat.one_pos, ?_, ?_⟩, ?_⟩
    · rw [hitem]
      exact isBlock_blockAddress 1
    · rw [hptr]
      exact Nat.le_add_right _ _
    · rw [hptr]
      exact Nat.add_lt_add_left (by decide) _
    · rw [hitem, extentAt_blockAddress, extentAt_blockAddress]
      exact hperm
  · have hlen : pathA.length = 4 := rfl
    omega
  · intro mt item b _ hfile
    have hlen : pathA.length = 4 := rfl
    rw [namesOf_pathA] at hfile
    cases hfile with
    | file => omega
    | sub _ _ _ hrest => exact absurd rfl hrest.ne_nil

lemma mountedKernel_ready (total : ℤ) :
    FopenReady (mountedKernel total) pathA mountedExtents 1000 := by
  refine fopenReady_pathA mountedMemory_kernelMemory (mountedExtents_roomy.mono (by decide))
    (by decide) (List.Perm.refl _) fun mt hmt => ?_
  cases (diskGet_mountedKernel total).symm.trans hmt
  exact ⟨rfl, rfl⟩

lemma pathA_late_mode {mt : FatMount} (hdisk : diskGet k (driveOf pathA) = some (some mt))
    (hmode : fileGetModeByString modeStr ≠ fileModeInvalid) : ¬ EarlyFailure k pathA modeStr := by
  rintro (hacc | hnil | hnone | hinvalid)
  · exact hacc (by decide)
  · rw [namesOf_pathA] at hnil
    cases hnil
  · exact hnone _ hdisk
  · exact hmode hinvalid

lemma pathA_late {mt : FatMount} (hdisk : diskGet k (driveOf pathA) = some (some mt)) :
    ¬ EarlyFailure k pathA modeR :=
  pathA_late_mode hdisk (by decide)

lemma mountedKernel_late (total : ℤ) : ¬ EarlyFailure (mountedKernel total) pathA modeR :=
  pathA_late (diskGet_mountedKernel total)

/-- A file in the root directory can be opened. -/
lemma mountedKernel_opens : Runs (fopen pathA modeR 0) (mountedKernel 1) fun res _ => 0 ≤ res := by
  have hfile : FileAt (mountedVolume 1) (mountedVolume 1).root (namesOf pathA)
      ⟨fun i => if i = 0 then 0x41 else 0⟩ 2 := by
    rw [namesOf_pathA]
    exact .file rfl (by decide)
  refine (mountedKernel_ready 1).fopen_found (i := 0) (mountedKernel_late 1)
    (diskGet_mountedKernel 1) hfile ?_ (by decide) rfl
  rintro ⟨hwrite, -⟩
  exact hwrite (by decide)

/-- In an empty root directory no file is found. -/
lemma mountedKernel_misses : Runs (fopen pathA modeR 0) (mountedKernel 0) fun res _ => res < 0 :=
  (mountedKernel_ready 0).fopen_missing (mountedKernel_late 0) (diskGet_mountedKernel 0)
    namesOf_pathA rfl (by decide)

/-! ## Closing what was opened -/

/-- Closing an open file of the table frees its descriptor. -/
lemma Ledger.fclose (hA : Ledger A) {fd : ℤ} {desc : FileDescriptor}
    (hget : fileGetDescriptor k fd = some desc) (hptr : IsBlock desc.ptr)
    (hown : desc.privateData.Owned) (hparts : PartsOk desc.privateData.path) (hn : 1 ≤ n)
    (h : A k.memory (extentAt desc.ptr 1 ::
      (desc.privateData.extents ++ (pathExtents desc.privateData.path ++ L))) n) :
    Runs (SerpaeOS.fclose fd) k fun r k' => r = 0 ∧
      k'.fileDescriptors = Function.update k.fileDescriptors (desc.index - 1) none ∧
      k'.disks = k.disks ∧ A k'.memory L (n - 1) := by
  refine runs_getKernel.bind fun k₁ k₂ hk => ?_
  obtain ⟨rfl, rfl⟩ := hk
  rw [hget]
  have hperm : A k₂.memory (desc.privateData.extents ++
      (pathExtents desc.privateData.path ++ extentAt desc.ptr 1 :: L)) n := by
    refine hA.perm h ?_
    rw [← List.append_assoc, ← List.append_assoc]
    exact List.perm_middle.symm
  refine (runs_onMemory (hA.fatClose hown hparts hperm hn)).bind fun r k₁ hk₁ => ?_
  obtain ⟨m₁, ⟨rfl, hm₁⟩, rfl⟩ := hk₁
  have hall : (0 : ℤ) = allOk := rfl
  rw [if_pos hall]
  have hfree : Runs (fileFreeDescriptor desc) { k₂ with memory := m₁ } fun _ k' =>
      k'.fileDescriptors = Function.update k₂.fileDescriptors (desc.index - 1) none ∧
        k'.disks = k₂.disks ∧ A k'.memory L (n - 1) := by
    refine Runs.bind (P := fun _ k' => k'.memory = m₁ ∧ k'.disks = k₂.disks ∧
      k'.fileDescriptors = Function.update k₂.fileDescriptors (desc.index - 1) none)
      ⟨_, _, rfl, rfl, rfl, rfl⟩ fun _ k₃ hk₃ => ?_
    have hrelease : Runs (SerpaeOS.release desc.ptr) k₃.memory fun _ m' => A m' L (n - 1) := by
      rw [hk₃.1]
      exact hA.release hm₁ hptr Nat.one_pos
    refine (runs_onMemory hrelease).mono fun _ k₄ hk₄ => ?_
    obtain ⟨m₄, hm₄, rfl⟩ := hk₄
    exact ⟨hk₃.2.2, hk₃.2.1, hm₄⟩
  refine hfree.bind fun _ k₄ hk₄ => ?_
  exact runs_pure ⟨rfl, hk₄⟩

lemma Accounts.fclose {i q disk mode : ℕ} {f : FatOpenFile} (hi : i + 1 < maxFileDescriptors)
    (hq : IsBlock q) (hown : f.Owned) (hparts : PartsOk f.path)
    (hdesc : k.fileDescriptors i = some ⟨q, i + 1, f, disk, mode⟩)
    (h : Accounts m₀ X k.memory
      (extentAt q 1 :: (f.extents ++ (pathExtents f.path ++ L))) 1) :
    Runs (SerpaeOS.fclose ((i + 1 : ℕ) : ℤ)) k fun r k' => r = 0 ∧
      k'.fileDescriptors = Function.update k.fileDescriptors i none ∧
      Accounts m₀ X k'.memory L 0 := by
  have hget : fileGetDescriptor k ((i + 1 : ℕ) : ℤ) = some ⟨q, i + 1, f, disk, mode⟩ := by
    rw [fileGetDescriptor, if_neg (by simp only [maxFileDescriptors] at *; omega)]
    rw [show (((i + 1 : ℕ) : ℤ) - 1).toNat = i by omega, hdesc]
  refine (accounts_ledger.fclose hget hq hown hparts le_rfl h).mono fun r k' hk' => ?_
  exact ⟨hk'.1, hk'.2.1, hk'.2.2.2⟩

/-- A descriptor that is entered and removed again leaves the table as it was. -/
lemma update_update_none {g : ℕ → Option FileDescriptor} {i : ℕ} {x : Option FileDescriptor}
    (h : g i = none) : Function.update (Function.update g i x) i none = g := by
  rw [Function.update_idem, ← h, Function.update_eq_self]

/-- When a file is closed after it was opened, the heap and the table of descriptors are as
before exactly if the file is not in the root directory and a descriptor before the last one
was free. -/
theorem fclose_fopen_restored_iff {now : ℕ} {fd : ℤ} (hready : FopenReady k filename L n)
    (hopen : fopen filename modeStr now k = some (fd, k')) (hfd : 0 ≤ fd) :
    Runs (fclose fd) k' fun _ k₂ => Restored k k₂ ↔
      2 ≤ (namesOf filename).length ∧
        ∃ i, i + 1 < maxFileDescriptors ∧ k.fileDescriptors i = none := by
  have hheap := hready.memory.kernelHeap
  cases fopen_result hready hopen with
  | early _ hres => omega
  | failed _ hres => omega
  | full _ hres => omega
  | @opened mt _ i disk mode q f L' hlate hi hnone hfirst hq hown hparts hrem hdesc hacc =>
    by_cases hlast : i + 1 < maxFileDescriptors
    · have hslot : k'.fileDescriptors i = some ⟨q, i + 1, f, disk, mode⟩ := by
        rw [hdesc, Function.update_self]
      refine (hacc.fclose hlast hq hown hparts hslot).mono fun r k₂ hk₂ => ?_
      obtain ⟨-, hdesc₂, hacc₂⟩ := hk₂
      rw [hdesc, update_update_none hnone] at hdesc₂
      rcases hrem with ⟨hlen, rfl⟩ | ⟨hlen, holder, blocks, hheld, hperm⟩
      · refine iff_of_true ⟨?_, hdesc₂⟩ ⟨hlen, i, hlast, hnone⟩
        exact hacc₂.entries_eq hheap fun _ => Iff.rfl
      · -- the items of the root directory have been freed
        refine iff_of_false (fun hrest => ?_) (by omega)
        have hstart : Accounts k.memory [] k.memory
            ([] ++ extentAt mt.rootItemPtr blocks :: extentAt holder 1 :: L') n :=
          (accounts_refl hheap hready.roomy hready.memory.known).perm hperm
        refine hacc₂.entries_ne_of_freed hheap (hperm.symm.subset List.mem_cons_self)
          hheld.blocks_pos ?_ hrest.entries_eq
        rintro ⟨e, he, hcov⟩
        exact hstart.not_covered hheld.blocks_pos ⟨e, List.mem_cons_of_mem _ he, hcov⟩
    · -- the last descriptor cannot be closed
      refine ⟨-eio, k', ?_, iff_of_false (fun hrest => ?_) ?_⟩
      · have hget : fileGetDescriptor k' ((i + 1 : ℕ) : ℤ) = none := by
          rw [fileGetDescriptor, if_pos (by omega)]
        rw [fclose, getKernel_bind, hget]
        rfl
      · have hslot := congrFun hrest.descriptors_eq i
        rw [hdesc, Function.update_self, hnone] at hslot
        cases hslot
      · rintro ⟨-, j, hj, hfree⟩
        exact hfirst j (by omega) hfree

/-- A file in the root directory, opened and closed. -/
theorem fclose_fopen_restored_iff_root :
    ∃ fd k', fopen pathA modeR 0 (mountedKernel 1) = some (fd, k') ∧
      Runs (fclose fd) k' fun _ k₂ => Restored (mountedKernel 1) k₂ ↔
        2 ≤ (namesOf pathA).length ∧
          ∃ i, i + 1 < maxFileDescriptors ∧ (mountedKernel 1).fileDescriptors i = none := by
  obtain ⟨fd, k', hopen, hfd⟩ := mountedKernel_opens
  exact ⟨fd, k', hopen, fclose_fopen_restored_iff (mountedKernel_ready 1) hopen hfd⟩

/-- After the file in the root directory has been closed, the blocks of the mounted volume
are free. -/
theorem not_fclose_fopen_restored_root :
    ∃ fd k' r k₂, fopen pathA modeR 0 (mountedKernel 1) = some (fd, k') ∧ 0 ≤ fd ∧
      fclose fd k' = some (r, k₂) ∧ ¬ Restored (mountedKernel 1) k₂ := by
  obtain ⟨fd, k', hopen, hfd⟩ := mountedKernel_opens
  cases fopen_result (mountedKernel_ready 1) hopen with
  | early _ hres => omega
  | failed _ hres => omega
  | full _ hres => omega
  | @opened mt _ i disk mode q f L' hlate hi hnone hfirst hq hown hparts hrem hdesc hacc =>
    have hi0 : i = 0 := by
      by_contra hne
      exact hfirst 0 (by omega) rfl
    have hslot : k'.fileDescriptors i = some ⟨q, i + 1, f, disk, mode⟩ := by
      rw [hdesc, Function.update_self]
    obtain ⟨r, k₂, hclose, -, -, hacc₂⟩ :=
      hacc.fclose (by rw [hi0]; decide) hq hown hparts hslot
    refine ⟨_, k', r, k₂, hopen, hfd, hclose, fun hrest => ?_⟩
    rw [namesOf_pathA] at hrem
    rcases hrem with ⟨hlen, -⟩ | ⟨-, holder, blocks, hheld, hperm⟩
    · exact absurd hlen (by decide)
    · -- the two blocks are those of the root directory
      obtain rfl : L' = [] := by
        have hlen := hperm.length_eq
        simp only [mountedExtents, List.length_cons, List.length_nil] at hlen
        exact List.length_eq_zero_iff.mp (by omega)
      refine hacc₂.entries_ne_of_freed mountedMemory_kernelMemory.kernelHeap
        (a := ⟨0, 1⟩) (by simp [mountedExtents]) Nat.one_pos ?_ hrest.entries_eq
      rintro ⟨e, he, -⟩
      cases he

/-! ## Failed calls -/

/-- A call that fails when the driver was asked leaves something behind. -/
lemma FopenResult.not_unchanged (h : FopenResult k filename modeStr L res k')
    (hheap : KernelHeap k.memory.heap L) (hlate : ¬ EarlyFailure k filename modeStr)
    (hres : res < 0) : ¬ Unchanged k k' := by
  intro hun
  cases h with
  | early hearly => exact hlate hearly
  | @failed _ _ F q _ _ hfreed hq hreturned =>
    obtain ⟨F', hF', hmem⟩ := hun.freed_ok
    rw [hfreed] at hF'
    have hcode := hreturned q (hmem q (by rw [← List.append_cancel_right hF']; simp))
    exact absurd hcode (not_lt.mpr hq)
  | full _ _ hfresh hmem hacc =>
    -- the item of the file has not been freed
    exact hacc.entries_ne hheap hmem Nat.one_pos hfresh hun.entries_eq
  | opened => omega

/-- A call of `fopen` that fails leaves everything unchanged exactly if it fails before the
driver is asked. -/
theorem fopen_failed_unchanged_iff {now : ℕ} (hready : FopenReady k filename L n)
    (hopen : fopen filename modeStr now k = some (res, k')) (hres : res < 0) :
    Unchanged k k' ↔ EarlyFailure k filename modeStr := by
  have hheap := hready.memory.kernelHeap
  constructor
  · intro hun
    by_contra hlate
    exact (fopen_result hready hopen).not_unchanged hheap hlate hres hun
  · intro hearly
    obtain ⟨-, hdesc, hacc⟩ := (hready.fopen_early hearly).of_eq hopen
    obtain ⟨F, hF, hmem⟩ := hacc.freed_ok
    exact ⟨⟨hacc.entries_eq hheap fun _ => Iff.rfl, hdesc⟩, F, hF,
      fun p hp => (hmem p hp).resolve_right List.not_mem_nil⟩

/-- A file that is not there. -/
theorem fopen_failed_unchanged_iff_missing :
    ∃ res k', fopen pathA modeR 0 (mountedKernel 0) = some (res, k') ∧ res < 0 ∧
      (Unchanged (mountedKernel 0) k' ↔ EarlyFailure (mountedKernel 0) pathA modeR) := by
  obtain ⟨res, k', hopen, hres⟩ := mountedKernel_misses
  exact ⟨res, k', hopen, hres,
    fopen_failed_unchanged_iff (mountedKernel_ready 0) hopen hres⟩

/-- For a file that is not there `kfree` is applied to the error code. -/
theorem not_fopen_failed_unchanged_missing :
    ∃ res k', fopen pathA modeR 0 (mountedKernel 0) = some (res, k') ∧ res < 0 ∧
      ¬ Unchanged (mountedKernel 0) k' := by
  obtain ⟨res, k', hopen, hres⟩ := mountedKernel_misses
  exact ⟨res, k', hopen, hres, (fopen_result (mountedKernel_ready 0) hopen).not_unchanged
    mountedMemory_kernelMemory.kernelHeap (mountedKernel_late 0) hres⟩

end SerpaeOS
