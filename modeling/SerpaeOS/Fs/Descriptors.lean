import SerpaeOS.Fs.Structures
import SerpaeOS.Lib.StepRun

/-!
# The table of file descriptors

`fopen` enters a file into the first free slot of the table and returns the number of the
slot plus one.  `fopen_descriptors` and `fclose_descriptors` say what the two calls do to the
table, whatever the state of the heap.  Over whole runs the indices of open files are
different and resolve to the descriptors they were returned for, as long as the last slot of
the table is not used: its index is rejected by `file_get_descriptor`.
-/

namespace SerpaeOS

open BlockTable Bytes Word Prog StepRun

variable {k k' : Kernel} {m₀ : KMemory} {res fd : ℤ}

/-! ## What a call does to the table -/

lemma Keeps.onMemory {α : Type} {I : KMemory → Prop} {p : KProg α} (h : Keeps I p) :
    Keeps (fun k : Kernel => I k.memory) (SerpaeOS.onMemory p) := by
  intro k a k' hk hrun
  obtain ⟨m, hp, rfl⟩ := onMemory_eq_some hrun
  exact h k.memory a m hk hp

lemma onMemory_fileDescriptors {α : Type} {p : KProg α} {a : α}
    (h : onMemory p k = some (a, k')) : k'.fileDescriptors = k.fileDescriptors := by
  obtain ⟨m, -, rfl⟩ := onMemory_eq_some h
  rfl

lemma onMemory_disks {α : Type} {p : KProg α} {a : α} (h : onMemory p k = some (a, k')) :
    k'.disks = k.disks := by
  obtain ⟨m, -, rfl⟩ := onMemory_eq_some h
  rfl

lemma fopenOut_descriptors {rootPath : PathRoot} {p : Ptr} {e : ℤ}
    (h : fopenOut rootPath p e k = some (res, k')) :
    res = e ∧ k'.fileDescriptors = k.fileDescriptors := by
  obtain ⟨_, k₁, hfree, h⟩ := bind_eq_some h
  have hfirst := onMemory_fileDescriptors hfree
  by_cases hp : p ≠ 0
  · rw [if_pos hp] at h
    obtain ⟨_, k₂, hrelease, h⟩ := bind_eq_some h
    cases pure_eq_some h
    exact ⟨rfl, (onMemory_fileDescriptors hrelease).trans hfirst⟩
  · rw [if_neg hp] at h
    cases pure_eq_some h
    exact ⟨rfl, hfirst⟩

/-- The descriptor with the given contents has been entered into the first free slot. -/
structure Entered (k k' : Kernel) (i : ℕ) (desc : FileDescriptor) : Prop where
  lt : i < maxFileDescriptors
  free : k.fileDescriptors i = none
  first : ∀ j < i, k.fileDescriptors j ≠ none
  index_eq : desc.index = i + 1
  table_eq : k'.fileDescriptors = Function.update k.fileDescriptors i (some desc)

lemma fopenEnter_descriptors {rootPath : PathRoot} {file : FatOpenFile} {mode : ℕ}
    (h : fopenEnter rootPath file mode k = some (res, k')) :
    (res < 0 ∧ k'.fileDescriptors = k.fileDescriptors) ∨
      ∃ i desc, res = ((i + 1 : ℕ) : ℤ) ∧ Entered k k' i desc ∧ desc.privateData = file ∧
        desc.disk = rootPath.driveNo ∧ k'.disks = k.disks := by
  obtain ⟨index, k₁, hnew, h⟩ := bind_eq_some h
  obtain ⟨_, k₂, hget, hnew⟩ := bind_eq_some hnew
  cases hget
  rcases hfind : (List.range maxFileDescriptors).find? fun i => (k.fileDescriptors i).isNone
    with _ | i
  · simp only [hfind] at hnew
    cases pure_eq_some hnew
    obtain ⟨rfl, htable⟩ := fopenOut_descriptors h
    exact Or.inl ⟨by decide, htable⟩
  · obtain ⟨hnone, hi, hfirst⟩ := List.find?_range_eq_some.mp hfind
    simp only [hfind] at hnew
    obtain ⟨p, k₃, halloc, hnew⟩ := bind_eq_some hnew
    by_cases hp : p = 0
    · rw [if_pos hp] at hnew
      cases hnew
    rw [if_neg hp] at hnew
    obtain ⟨_, k₄, hupdate, hnew⟩ := bind_eq_some hnew
    cases hupdate
    cases pure_eq_some hnew
    obtain ⟨_, k₅, hrelease, h⟩ := bind_eq_some h
    cases pure_eq_some h
    have hsame := onMemory_fileDescriptors halloc
    refine Or.inr ⟨i, ⟨p, i + 1, file, rootPath.driveNo, mode⟩, rfl, ⟨List.mem_range.mp hi, ?_,
      fun j hj => ?_, rfl, ?_⟩, rfl, rfl, ?_⟩
    · exact Option.isNone_iff_eq_none.mp hnone
    · simpa [← Option.isSome_iff_ne_none] using hfirst j hj
    · rw [onMemory_fileDescriptors hrelease]
      simp only [hsame]
    · rw [onMemory_disks hrelease]
      simp only [onMemory_disks halloc]

/-- A parsed path has the drive and the names that its text says. -/
lemma ends_pathparserParse (path : List UInt8) (m : KMemory) :
    Ends (pathparserParse path) m fun r _ => ∀ root, r = some root →
      root.driveNo = driveOf path ∧ root.first.map PathPart.part = namesOf path := by
  refine Ends.ite (fun _ => ends_pure fun root h => by cases h) fun _ => ?_
  refine Ends.ite (fun _ => ends_pure fun root h => by cases h) fun _ => ?_
  refine Ends.bind (P := fun _ _ => True) (fun _ _ _ => trivial) fun ptr m₁ _ => ?_
  refine Ends.ite (fun _ => ends_stuck) fun _ => ?_
  refine (ends_pathparserLoop _ _ _).bind fun parts m₂ hparts => ends_pure ?_
  intro root h
  cases h
  exact ⟨rfl, hparts⟩

/-- The descriptor is that of the file that the path leads to, on the volume of its drive. -/
def OpenedFrom (k k' : Kernel) (filename modeStr : List UInt8) (desc : FileDescriptor) : Prop :=
  ∃ mt item b now disk, diskGet k (driveOf filename) = some (some mt) ∧
    FileAt mt mt.root (namesOf filename) item b ∧
    desc.privateData.item = ⟨store item.raw 18 (numberBytes 2 now)⟩ ∧
    (fileGetModeByString modeStr &&& fileModeAppend = 0 → desc.privateData.pos = 0) ∧
    desc.disk = driveOf filename ∧
    k'.disks = Function.update k.disks (driveOf filename) (some (some { mt with disk := disk }))

/-- A call of `fopen` fails and leaves the table as it is, or it enters the descriptor of the
file into the first free slot and returns its index. -/
lemma fopen_cases {filename modeStr : List UInt8} {now : ℕ}
    (h : fopen filename modeStr now k = some (res, k')) :
    (res < 0 ∧ k'.fileDescriptors = k.fileDescriptors) ∨
      ∃ i desc, res = ((i + 1 : ℕ) : ℤ) ∧ Entered k k' i desc ∧
        OpenedFrom k k' filename modeStr desc := by
  obtain ⟨root, k₁, hparse, h⟩ := bind_eq_some h
  have hsame := onMemory_fileDescriptors hparse
  have hdisks := onMemory_disks hparse
  obtain ⟨m₁, hparse', -⟩ := onMemory_eq_some hparse
  have hroot := ends_pathparserParse _ _ _ _ hparse'
  have hout : ∀ {root : PathRoot} {e : ℤ}, e < 0 → fopenOut root 0 e k₁ = some (res, k') →
      (res < 0 ∧ k'.fileDescriptors = k.fileDescriptors) ∨
        ∃ i desc, res = ((i + 1 : ℕ) : ℤ) ∧ Entered k k' i desc ∧
          OpenedFrom k k' filename modeStr desc := by
    intro root e he hrun
    obtain ⟨rfl, htable⟩ := fopenOut_descriptors hrun
    exact Or.inl ⟨he, htable.trans hsame⟩
  cases root with
  | none =>
    cases pure_eq_some h
    exact Or.inl ⟨by decide, hsame⟩
  | some root =>
    obtain ⟨hdrive, hnames⟩ := hroot root rfl
    simp only at h
    by_cases hempty : root.first.isEmpty = true
    · rw [if_pos hempty] at h
      exact hout (by decide) h
    rw [if_neg hempty] at h
    obtain ⟨k₂, k₃, hget, h⟩ := bind_eq_some h
    cases hget
    rcases hdisk : diskGet k₁ root.driveNo with _ | _ | mt
    · simp only [hdisk] at h
      exact hout (by decide) h
    · simp only [hdisk] at h
      exact hout (by decide) h
    simp only [hdisk] at h
    by_cases hmode : fileGetModeByString modeStr = fileModeInvalid
    · rw [if_pos hmode] at h
      exact hout (by decide) h
    rw [if_neg hmode] at h
    -- the driver is asked
    obtain ⟨⟨opened, disk⟩, k₄, hopen, h⟩ := bind_eq_some h
    obtain ⟨m₂, hopen', rfl⟩ := onMemory_eq_some hopen
    obtain ⟨_, k₅, hupdate, h⟩ := bind_eq_some h
    cases hupdate
    cases opened with
    | error e =>
      obtain ⟨rfl, htable⟩ := fopenOut_descriptors h
      exact Or.inl ⟨(FatMount.fatOpen_error hopen').2, htable.trans hsame⟩
    | ok f =>
      obtain ⟨item, b, hfile, -, hitem, hpos⟩ := FatMount.fileAt_of_fatOpen hopen'
      rcases fopenEnter_descriptors h with
        ⟨hres, htable⟩ | ⟨i, desc, hres, hent, hprivate, hdrive', hdisks'⟩
      · exact Or.inl ⟨hres, htable.trans hsame⟩
      · obtain ⟨hlt, hfree, hfirst, hindex, htable⟩ := hent
        simp only [hsame] at hfree hfirst htable
        refine Or.inr ⟨i, desc, hres, ⟨hlt, hfree, hfirst, hindex, htable⟩, ?_⟩
        rw [hnames] at hfile
        rw [diskGet, hdisks, ← diskGet, hdrive] at hdisk
        simp only [hdrive, hdisks] at hdisks' hdrive'
        exact ⟨mt, item, b, now, disk, hdisk, hfile, by rw [hprivate, hitem],
          by rw [hprivate]; exact hpos, hdrive', hdisks'⟩

lemma fopen_descriptors {filename modeStr : List UInt8} {now : ℕ}
    (h : fopen filename modeStr now k = some (res, k')) :
    (res < 0 ∧ k'.fileDescriptors = k.fileDescriptors) ∨
      ∃ i desc, res = ((i + 1 : ℕ) : ℤ) ∧ Entered k k' i desc := by
  rcases fopen_cases h with hfail | ⟨i, desc, hres, hent, -⟩
  · exact Or.inl hfail
  · exact Or.inr ⟨i, desc, hres, hent⟩

lemma keeps_fopen (filename modeStr : List UInt8) (now : ℕ) :
    Keeps (fun k : Kernel => Recorded m₀ k.memory) (fopen filename modeStr now) := by
  have hget : Keeps (fun k : Kernel => Recorded m₀ k.memory) getKernel := by
    intro k a k' hk h
    cases h
    exact hk
  have hout : ∀ root p e, Keeps (fun k : Kernel => Recorded m₀ k.memory) (fopenOut root p e) := by
    intro root p e
    refine (Keeps.onMemory (keeps_pathparserFree root)).bind fun _ => Keeps.ite ?_ (keeps_pure _)
    exact (Keeps.onMemory (keeps_release p)).bind fun _ => keeps_pure _
  have hupdate : ∀ f : Kernel → Kernel, (∀ k, (f k).memory = k.memory) →
      Keeps (fun k : Kernel => Recorded m₀ k.memory) (updateKernel f) := by
    intro f hf k a k' hk h
    cases h
    rw [hf]
    exact hk
  refine (Keeps.onMemory (keeps_pathparserParse filename)).bind fun root => ?_
  cases root with
  | none => exact keeps_pure _
  | some root =>
    refine Keeps.ite (hout _ _ _) (hget.bind fun k => ?_)
    split
    · exact hout _ _ _
    · exact hout _ _ _
    · refine Keeps.ite (hout _ _ _) ?_
      refine (Keeps.onMemory (FatMount.keeps_fatOpen _ _ _)).bind fun opened => ?_
      refine Keeps.bind (hupdate _ ?_) fun _ => ?_
      · exact fun _ => rfl
      split
      · exact hout _ _ _
      · refine (hget.bind fun k => ?_).bind fun index => ?_
        · split
          · exact keeps_pure _
          · refine (Keeps.onMemory (keeps_allocate _)).bind fun p => Keeps.ite keeps_stuck ?_
            refine Keeps.bind (hupdate _ ?_) fun _ => keeps_pure _
            exact fun _ => rfl
        · cases index with
          | none => exact hout _ _ _
          | some index => exact (Keeps.onMemory (keeps_release _)).bind fun _ => keeps_pure _

/-- The slot of a descriptor that an index resolves to. -/
lemma slot_of_fileGetDescriptor {desc : FileDescriptor} (h : fileGetDescriptor k fd = some desc) :
    0 < fd ∧ k.fileDescriptors (fd - 1).toNat = some desc := by
  rw [fileGetDescriptor] at h
  split_ifs at h with hrange
  exact ⟨by omega, h⟩

/-- `fclose` of an index without a descriptor does nothing. -/
lemma fclose_none (h : fileGetDescriptor k fd = none) : fclose fd k = some (-eio, k) := by
  rw [fclose, getKernel_bind, h]
  rfl

lemma fclose_some {desc : FileDescriptor} (h : fileGetDescriptor k fd = some desc) :
    fclose fd k = (do
      let res ← onMemory (fatClose desc.privateData)
      if res = allOk then
        fileFreeDescriptor desc
        return res
      else return res : KernelProg ℤ) k := by
  rw [fclose, getKernel_bind, h]

lemma runs_fatItemFree_file (p q : Ptr) (item : FatDirectoryItem) (m : KMemory) :
    Runs (fatItemFree (.file p q item)) m fun _ _ => True :=
  ⟨_, _, rfl, trivial⟩

/-- The driver closes a file when it gets memory for the root of the path. -/
lemma runs_fatClose (f : FatOpenFile) {m : KMemory}
    (h : (kzalloc m.heap pathRootSize).2 ≠ 0) :
    Runs (fatClose f) m fun r _ => r = 0 := by
  refine Runs.bind (P := fun p _ => p = (kzalloc m.heap pathRootSize).2) ⟨_, _, rfl, rfl⟩
    fun p m₁ hp => ?_
  rw [if_neg (by rw [hp]; exact h)]
  refine (runs_pathparserFree _ m₁).bind fun _ m₂ _ => ?_
  refine (runs_fatItemFree_file _ _ _ m₂).bind fun _ m₃ _ => ?_
  refine Runs.bind (P := fun _ _ => True) ⟨_, _, rfl, trivial⟩ fun _ m₄ _ => ?_
  exact runs_pure rfl

/-- `fclose` of an open file removes its descriptor, when there is memory for it. -/
lemma fclose_open {desc : FileDescriptor} (h : fileGetDescriptor k fd = some desc)
    (hroom : (kzalloc k.memory.heap pathRootSize).2 ≠ 0) :
    ∃ k', fclose fd k = some (0, k') ∧
      k'.fileDescriptors = Function.update k.fileDescriptors (desc.index - 1) none := by
  have hrun : Runs (fclose fd) k fun r k' => r = 0 ∧
      k'.fileDescriptors = Function.update k.fileDescriptors (desc.index - 1) none := by
    rw [Runs, fclose_some h]
    refine (runs_onMemory (runs_fatClose desc.privateData hroom)).bind fun r k₁ hk₁ => ?_
    obtain ⟨m₁, rfl, rfl⟩ := hk₁
    exact ⟨_, _, rfl, rfl, rfl⟩
  obtain ⟨r, k', hclose, rfl, htable⟩ := hrun
  exact ⟨k', hclose, htable⟩

/-- Without memory the driver uses a `NULL` pointer. -/
lemma fclose_stuck {desc : FileDescriptor} (h : fileGetDescriptor k fd = some desc)
    (hroom : (kzalloc k.memory.heap pathRootSize).2 = 0) : fclose fd k = none := by
  rw [fclose_some h]
  rcases hrun : (do
      let res ← onMemory (fatClose desc.privateData)
      if res = allOk then
        fileFreeDescriptor desc
        return res
      else return res : KernelProg ℤ) k with _ | ⟨r, k'⟩
  · rfl
  obtain ⟨_, k₁, hclose, -⟩ := bind_eq_some hrun
  obtain ⟨m₁, hclose, -⟩ := onMemory_eq_some hclose
  obtain ⟨p, m₂, halloc, hclose⟩ := bind_eq_some hclose
  cases halloc
  rw [if_pos hroom] at hclose
  cases hclose

lemma keeps_fclose (fd : ℤ) :
    Keeps (fun k : Kernel => Recorded m₀ k.memory) (fclose fd) := by
  intro k res k' hk h
  rcases hget : fileGetDescriptor k fd with _ | desc
  · rw [fclose_none hget] at h
    cases h
    exact hk
  rw [fclose_some hget] at h
  have hclose : Keeps (Recorded m₀) (fatClose desc.privateData) := by
    refine (keeps_allocate _).bind fun p => Keeps.ite keeps_stuck ?_
    refine (keeps_pathparserFree _).bind fun _ => (FatMount.keeps_fatItemFree _).bind fun _ => ?_
    exact (keeps_release _).bind fun _ => keeps_pure _
  have hfree : Keeps (fun k : Kernel => Recorded m₀ k.memory) (fileFreeDescriptor desc) := by
    refine Keeps.bind ?_ fun _ => Keeps.onMemory (keeps_release _)
    intro k₁ a k₂ hk₁ h₁
    cases h₁
    exact hk₁
  refine ((Keeps.onMemory hclose).bind fun r => Keeps.ite ?_ (keeps_pure r)) k res k' hk h
  exact hfree.bind fun _ => keeps_pure r

/-! ## Runs -/

/-- The kernel, with the indices that `fopen` has returned and that are not closed yet, each
with the descriptor that was in its slot when it was returned, and with the index and the
result of the last call if that was `fclose`. -/
structure DescriptorRun where
  kernel : Kernel
  opened : List (ℤ × Option FileDescriptor)
  closed : Option (ℤ × ℤ)

inductive DescriptorOp
  | fopen (filename modeStr : List UInt8) (now : ℕ)
  | fclose (fd : ℤ)

/-- The descriptor in the slot of an index. -/
def Kernel.slot (k : Kernel) (fd : ℤ) : Option FileDescriptor := k.fileDescriptors (fd - 1).toNat

def descriptorCall (r : DescriptorRun) : DescriptorOp → Option DescriptorRun
  | .fopen filename modeStr now =>
    (fopen filename modeStr now r.kernel).map fun (fd, k) =>
      ⟨k, (fd, k.slot fd) :: r.opened, none⟩
  | .fclose fd =>
    (fclose fd r.kernel).map fun (res, k) =>
      ⟨k, r.opened.filter fun o => o.1 ≠ fd, some (fd, res)⟩

/-- The calls, as long as the structures of the file layer are intact. -/
abbrev descriptorStep (lost : DescriptorRun → DescriptorOp → Option DescriptorRun) :
    DescriptorRun → DescriptorOp → Option DescriptorRun :=
  intactStep DescriptorRun.kernel lost descriptorCall

/-- Calls of `fopen` succeed, and `fclose` is called for indices of open files. -/
def DescriptorLegal (r : DescriptorRun) : DescriptorOp → Prop
  | .fopen filename modeStr now =>
    ∃ fd k, fopen filename modeStr now r.kernel = some (fd, k) ∧ 0 ≤ fd
  | .fclose fd => fd ∈ r.opened.map Prod.fst

/-- The indices of open files are positive and different, each resolves to the descriptor it
was returned for, and `fclose` has succeeded and freed its slot. -/
structure DescriptorsOk (r : DescriptorRun) : Prop where
  positive : ∀ o ∈ r.opened, 0 < o.1
  nodup : (r.opened.map Prod.fst).Nodup
  resolves : ∀ o ∈ r.opened, ∃ desc, o.2 = some desc ∧ fileGetDescriptor r.kernel o.1 = some desc
  closed_ok : ∀ fd res, r.closed = some (fd, res) → res = 0 ∧ r.kernel.slot fd = none

/-- A slot other than the last one is free for `fopen`, and a block of the heap is free for
`fclose`. -/
def DescriptorRoom (r : DescriptorRun) : DescriptorOp → Prop
  | .fopen _ _ _ => ∃ i, i + 1 < maxFileDescriptors ∧ r.kernel.fileDescriptors i = none
  | .fclose _ => HasFreeBlock r.kernel.memory.heap

/-- What holds along a run: moreover every descriptor of an open file knows its slot. -/
structure DescriptorInv (m₀ : KMemory) (r : DescriptorRun) : Prop extends DescriptorsOk r where
  recorded : Recorded m₀ r.kernel.memory
  slots : ∀ o ∈ r.opened, ∃ i desc, o.1 = ((i + 1 : ℕ) : ℤ) ∧ i + 1 < maxFileDescriptors ∧
    r.kernel.fileDescriptors i = some desc ∧ desc.index = i + 1

lemma fileGetDescriptor_succ {i : ℕ} (hi : i + 1 < maxFileDescriptors) :
    fileGetDescriptor k ((i + 1 : ℕ) : ℤ) = k.fileDescriptors i := by
  rw [fileGetDescriptor, if_neg (by omega), show (((i + 1 : ℕ) : ℤ) - 1).toNat = i by omega]

lemma Kernel.slot_succ (i : ℕ) : k.slot ((i + 1 : ℕ) : ℤ) = k.fileDescriptors i := by
  rw [Kernel.slot, show (((i + 1 : ℕ) : ℤ) - 1).toNat = i by omega]

variable {r : DescriptorRun}

/-- An index of an open file resolves to its descriptor as long as its slot is the same. -/
lemma DescriptorInv.resolves_of_slot (h : DescriptorInv m₀ r) {o : ℤ × Option FileDescriptor}
    (ho : o ∈ r.opened) (hslot : k.slot o.1 = r.kernel.slot o.1) :
    (∃ desc, o.2 = some desc ∧ fileGetDescriptor k o.1 = some desc) ∧
      ∃ i desc, o.1 = ((i + 1 : ℕ) : ℤ) ∧ i + 1 < maxFileDescriptors ∧
        k.fileDescriptors i = some desc ∧ desc.index = i + 1 := by
  obtain ⟨desc, hdesc, hget⟩ := h.resolves o ho
  obtain ⟨i, desc', hfd, hi, htable, hindex⟩ := h.slots o ho
  rw [hfd, Kernel.slot_succ, Kernel.slot_succ] at hslot
  rw [hfd, fileGetDescriptor_succ hi] at hget
  refine ⟨⟨desc, hdesc, ?_⟩, i, desc', hfd, hi, hslot.trans htable, hindex⟩
  rw [hfd, fileGetDescriptor_succ hi, hslot, hget]

/-- A file entered into a slot before the last one. -/
lemma DescriptorInv.entered (h : DescriptorInv m₀ r) (hrec : Recorded m₀ k.memory) {i : ℕ}
    {desc : FileDescriptor} (hent : Entered r.kernel k i desc) (hi : i + 1 < maxFileDescriptors) :
    DescriptorInv m₀ ⟨k, (((i + 1 : ℕ) : ℤ), k.slot ((i + 1 : ℕ) : ℤ)) :: r.opened, none⟩ := by
  have hself : k.fileDescriptors i = some desc := by
    rw [hent.table_eq, Function.update_self]
  -- the slots of the other open files are not free
  have hother : ∀ o ∈ r.opened, o.1 ≠ ((i + 1 : ℕ) : ℤ) ∧ k.slot o.1 = r.kernel.slot o.1 := by
    intro o ho
    obtain ⟨j, desc', hfd, hj, htable, -⟩ := h.slots o ho
    have hne : j ≠ i := by
      rintro rfl
      rw [hent.free] at htable
      cases htable
    rw [hfd]
    refine ⟨by omega, ?_⟩
    rw [Kernel.slot_succ, Kernel.slot_succ, hent.table_eq, Function.update_of_ne hne]
  refine ⟨⟨?_, ?_, ?_, ?_⟩, hrec, ?_⟩
  · intro o ho
    rcases List.mem_cons.mp ho with rfl | ho
    · simp only
      omega
    · exact h.positive o ho
  · rw [List.map_cons, List.nodup_cons]
    refine ⟨fun hmem => ?_, h.nodup⟩
    obtain ⟨o, ho, hfd⟩ := List.mem_map.mp hmem
    exact (hother o ho).1 hfd
  · intro o ho
    rcases List.mem_cons.mp ho with rfl | ho
    · refine ⟨desc, ?_, ?_⟩
      · exact (Kernel.slot_succ i).trans hself
      · exact (fileGetDescriptor_succ hi).trans hself
    · exact (h.resolves_of_slot ho (hother o ho).2).1
  · intro fd res hclosed
    cases hclosed
  · intro o ho
    rcases List.mem_cons.mp ho with rfl | ho
    · exact ⟨i, desc, rfl, hi, hself, hent.index_eq⟩
    · exact (h.resolves_of_slot ho (hother o ho).2).2

/-- An open file closed. -/
lemma DescriptorInv.closed_slot (h : DescriptorInv m₀ r) (hrec : Recorded m₀ k.memory)
    {o : ℤ × Option FileDescriptor} {i : ℕ} (hfd : o.1 = ((i + 1 : ℕ) : ℤ))
    (htable : k.fileDescriptors = Function.update r.kernel.fileDescriptors i none) :
    DescriptorInv m₀ ⟨k, r.opened.filter fun o' => o'.1 ≠ o.1, some (o.1, 0)⟩ := by
  have hother : ∀ o' ∈ r.opened.filter (fun o' => o'.1 ≠ o.1),
      o' ∈ r.opened ∧ k.slot o'.1 = r.kernel.slot o'.1 := by
    intro o' ho'
    obtain ⟨hmem, hne⟩ := List.mem_filter.mp ho'
    obtain ⟨j, desc, hfd', hj, -, -⟩ := h.slots o' hmem
    refine ⟨hmem, ?_⟩
    have hji : j ≠ i := by
      rintro rfl
      exact absurd (hfd'.trans hfd.symm) (of_decide_eq_true hne)
    rw [hfd', Kernel.slot_succ, Kernel.slot_succ, htable, Function.update_of_ne hji]
  refine ⟨⟨?_, ?_, ?_, ?_⟩, hrec, ?_⟩
  · exact fun o' ho' => h.positive o' (hother o' ho').1
  · exact h.nodup.sublist (List.filter_sublist.map Prod.fst)
  · exact fun o' ho' => (h.resolves_of_slot (hother o' ho').1 (hother o' ho').2).1
  · intro fd res hclosed
    cases hclosed
    refine ⟨rfl, ?_⟩
    rw [hfd, Kernel.slot_succ, htable, Function.update_self]
  · exact fun o' ho' => (h.resolves_of_slot (hother o' ho').1 (hother o' ho').2).2

/-- A call that meets the condition. -/
lemma DescriptorInv.step (h : DescriptorInv m₀ r) {op : DescriptorOp}
    (hl : DescriptorLegal r op) (hroom : DescriptorRoom r op) :
    ∃ r', descriptorCall r op = some r' ∧ DescriptorInv m₀ r' := by
  cases op with
  | fopen filename modeStr now =>
    obtain ⟨fd, k, hopen, hfd⟩ := hl
    obtain ⟨j, hj, hfree⟩ := hroom
    refine ⟨_, by rw [descriptorCall, hopen, Option.map_some], ?_⟩
    have hrec := keeps_fopen _ _ _ _ _ _ h.recorded hopen
    rcases fopen_descriptors hopen with ⟨hres, -⟩ | ⟨i, desc, rfl, hent⟩
    · omega
    · have hij : i ≤ j := by
        by_contra hlt
        exact hent.first j (by omega) hfree
      exact h.entered hrec hent (by omega)
  | fclose fd =>
    obtain ⟨o, ho, rfl⟩ := List.mem_map.mp hl
    obtain ⟨i, desc, hfd, hi, htable, hindex⟩ := h.slots o ho
    have hget : fileGetDescriptor r.kernel o.1 = some desc := by
      rw [hfd, fileGetDescriptor_succ hi, htable]
    have hmem := (kzalloc_ne_zero_iff h.recorded.saddr_eq h.recorded.total_eq
      (by decide : 0 < pathRootSize) (by decide)).mpr hroom
    obtain ⟨k, hclose, htable'⟩ := fclose_open hget hmem
    have hrec := keeps_fclose _ _ _ _ h.recorded hclose
    refine ⟨_, by rw [descriptorCall, hclose, Option.map_some], ?_⟩
    rw [hindex, Nat.add_sub_cancel] at htable'
    exact h.closed_slot hrec hfd htable'

/-- A call that misses the condition and returns. -/
lemma DescriptorInv.step_bad (h : DescriptorInv m₀ r) {op : DescriptorOp} {r' : DescriptorRun}
    (hl : DescriptorLegal r op) (hroom : ¬ DescriptorRoom r op)
    (hstep : descriptorCall r op = some r') : ¬ DescriptorsOk r' := by
  intro hok
  cases op with
  | fopen filename modeStr now =>
    obtain ⟨fd, k, hopen, hfd⟩ := hl
    rw [descriptorCall, hopen, Option.map_some] at hstep
    cases hstep
    rcases fopen_descriptors hopen with ⟨hres, -⟩ | ⟨i, desc, rfl, hent⟩
    · omega
    · -- the file is in the last slot
      have hi : ¬ i + 1 < maxFileDescriptors := fun hi => hroom ⟨i, hi, hent.free⟩
      obtain ⟨desc', -, hget⟩ := hok.resolves _ List.mem_cons_self
      rw [fileGetDescriptor, if_pos (by omega)] at hget
      cases hget
  | fclose fd =>
    obtain ⟨o, ho, rfl⟩ := List.mem_map.mp hl
    obtain ⟨i, desc, hfd, hi, htable, -⟩ := h.slots o ho
    have hget : fileGetDescriptor r.kernel o.1 = some desc := by
      rw [hfd, fileGetDescriptor_succ hi, htable]
    have hmem := kzalloc_ne_zero_iff h.recorded.saddr_eq h.recorded.total_eq
      (by decide : 0 < pathRootSize) (by decide)
    have hstuck := fclose_stuck hget (not_not.mp fun hne => hroom (hmem.mp hne))
    rw [descriptorCall, hstuck] at hstep
    cases hstep

lemma KernelMemory.descriptorInv {L : List Extent} (h : KernelMemory k.memory L) :
    DescriptorInv k.memory ⟨k, [], none⟩ := by
  refine ⟨⟨by simp, by simp, by simp, ?_⟩, h.recorded, by simp⟩
  intro fd res hclosed
  cases hclosed

variable {lost : DescriptorRun → DescriptorOp → Option DescriptorRun}

/-- As long as the structures are intact before every call, the indices of open files resolve to
their descriptors in every state of a run exactly if every `fopen` finds a free slot other than the
last one and every `fclose` a free block. -/
theorem open_indices_resolve_iff {L : List Extent} (hmem : KernelMemory k.memory L)
    {ops : List DescriptorOp}
    (hintact : Guarded (descriptorStep lost) (fun r _ => r.kernel.Intact) ⟨k, [], none⟩ ops)
    (hl : Guarded (descriptorStep lost) DescriptorLegal ⟨k, [], none⟩ ops) :
    Always (descriptorStep lost) DescriptorsOk ⟨k, [], none⟩ ops ↔
      Guarded (descriptorStep lost) DescriptorRoom ⟨k, [], none⟩ ops := by
  refine always_iff_guarded (fun _ h => h.toDescriptorsOk) (fun r op h hl hc => ?_)
    (fun r op r' h hl hc hstep => ?_) hmem.descriptorInv (hintact.and hl)
  · rw [descriptorStep, intactStep_eq hl.1]
    exact h.step hl.2 hc
  · rw [descriptorStep, intactStep_eq hl.1] at hstep
    exact h.step_bad hl.2 hc hstep

lemma intact_mountedKernel (total : ℤ) : (mountedKernel total).Intact := by
  have hstructures : (mountedKernel total).structures = (mountedKernel 1).structures := rfl
  have hone : (mountedKernel 1).Intact := by decide +kernel
  exact ⟨hstructures ▸ hone.allocated, hstructures ▸ hone.apart⟩

/-- A file opened when the table is empty. -/
theorem open_indices_resolve_iff_one_file :
    Always (descriptorStep fun _ _ => none) DescriptorsOk ⟨mountedKernel 1, [], none⟩
      [.fopen pathA modeR 0] := by
  have hlegal : Guarded (descriptorStep fun _ _ => none) DescriptorLegal
      ⟨mountedKernel 1, [], none⟩ [.fopen pathA modeR 0] := by
    obtain ⟨fd, k, hopen, hfd⟩ := mountedKernel_opens
    exact ⟨⟨fd, k, hopen, hfd⟩, fun _ _ => trivial⟩
  have hintact : Guarded (descriptorStep fun _ _ => none) (fun r _ => r.kernel.Intact)
      ⟨mountedKernel 1, [], none⟩ [.fopen pathA modeR 0] :=
    ⟨intact_mountedKernel 1, fun _ _ => trivial⟩
  refine (open_indices_resolve_iff mountedMemory_kernelMemory hintact hlegal).mpr
    ⟨?_, fun _ _ => trivial⟩
  exact ⟨0, by decide, rfl⟩

/-! ## A table that is almost full -/

/-- The memory in which the first blocks are allocations of one block. -/
def filledMemory (blocks : ℕ) : KMemory where
  heap := ⟨⟨fun i => if 0 ≤ i ∧ i < blocks then blockCode 1 0 else entryFree, kernelBlocks, []⟩,
    heapAddress⟩
  returned := (List.range blocks).map blockAddress
  freed := []

def filledExtents (blocks : ℕ) : List Extent := (List.range blocks).map (⟨·, 1⟩)

/-- The descriptor of a file in a subdirectory. -/
def filledDescriptor (i : ℕ) : FileDescriptor :=
  let block j := blockAddress (2 + 8 * i + j)
  ⟨block 0, i + 1, ⟨block 3, [⟨[0x44], block 4, block 5⟩, ⟨[0x41], block 6, block 7⟩], block 2,
    block 1, ⟨fun _ => 0⟩, 0, 1⟩, 0, 1⟩

/-- The kernel of the small volume, with the first descriptors in use. -/
def filledKernel (files : ℕ) : Kernel where
  memory := filledMemory (2 + 8 * files)
  fileDescriptors i := if i < files then some (filledDescriptor i) else none
  disks i := if i = 0 then some (some (mountedVolume 1)) else none

lemma mem_filledExtents {blocks : ℕ} {a : Extent} :
    a ∈ filledExtents blocks ↔ a.start < blocks ∧ a.len = 1 := by
  rw [filledExtents, List.mem_map]
  constructor
  · rintro ⟨s, hs, rfl⟩
    exact ⟨List.mem_range.mp hs, rfl⟩
  · rintro ⟨hs, hlen⟩
    exact ⟨a.start, List.mem_range.mpr hs, by rw [← hlen]⟩

lemma apart_single {s t : ℕ} (h : s ≠ t) : Extent.Apart ⟨s, 1⟩ ⟨t, 1⟩ := by
  intro i hi
  simp only [Extent.Covers] at hi
  omega

lemma filledMemory_kernelMemory {blocks : ℕ} (h : blocks ≤ kernelBlocks) :
    KernelMemory (filledMemory blocks) (filledExtents blocks) := by
  refine ⟨⟨rfl, rfl, ⟨⟨fun a ha => ?_, ?_⟩, fun a ha j hj => ?_, fun i _ hi => ?_⟩,
    by simp [filledMemory], (by decide : kernelBlocks < 2 ^ 20)⟩, fun e he => ?_, fun p hp => ?_⟩
  · obtain ⟨hs, hlen⟩ := mem_filledExtents.mp ha
    rw [hlen]
    exact hs.trans_le h
  · exact List.pairwise_map.mpr (List.nodup_range.imp apart_single)
  · obtain ⟨hs, hlen⟩ := mem_filledExtents.mp ha
    obtain rfl : j = 0 := by omega
    rw [hlen]
    exact if_pos (by omega)
  · refine if_neg fun hlt => hi ⟨⟨i, 1⟩, mem_filledExtents.mpr ⟨?_, rfl⟩, le_rfl, ?_⟩
    · exact Nat.cast_lt.mp hlt.2
    · exact Nat.lt_succ_self i
  · obtain ⟨hs, -⟩ := mem_filledExtents.mp he
    exact List.mem_map.mpr ⟨e.start, List.mem_range.mpr hs, rfl⟩
  · obtain ⟨s, hs, rfl⟩ := List.mem_map.mp hp
    have hlt : blockAddress s < blockAddress kernelBlocks :=
      Nat.add_lt_add_left (Nat.mul_lt_mul_of_pos_right
        ((List.mem_range.mp hs).trans_le h) (by decide)) _
    exact hlt.trans_le (Nat.le_of_ble_eq_true rfl)

lemma filledExtents_roomy {blocks n : ℕ} (h : blocks + n ≤ kernelBlocks) :
    Roomy (filledExtents blocks) n := by
  refine ⟨blocks, h, ?_⟩
  rintro i hi ⟨e, he, hcov⟩
  obtain ⟨hs, hlen⟩ := mem_filledExtents.mp he
  have h1 := hi.1
  have h2 := hcov.2
  simp only at h1
  omega

lemma filledDescriptor_extents (i : ℕ) : (filledDescriptor i).extents =
    (List.range 8).map fun j => ⟨2 + 8 * i + j, 1⟩ := by
  simp only [filledDescriptor, FileDescriptor.extents, FatOpenFile.extents, pathExtents,
    extentAt_blockAddress]
  rfl

/-- The files are in blocks of their own. -/
lemma intact_filledKernel (files : ℕ) : (filledKernel files).Intact := by
  have hmounts : ((List.range maxDisks).flatMap fun i =>
      ((filledKernel files).disks i).join.elim [] FatMount.extents) = [⟨1, 1⟩, ⟨0, 1⟩] := by
    rfl
  have hslot : ∀ i a, a ∈ ((filledKernel files).fileDescriptors i).elim []
      FileDescriptor.extents → i < files ∧ ∃ j < 8, a = ⟨2 + 8 * i + j, 1⟩ := by
    intro i a ha
    by_cases hi : i < files
    · simp only [filledKernel, if_pos hi, Option.elim_some, filledDescriptor_extents] at ha
      obtain ⟨j, hj, rfl⟩ := List.mem_map.mp ha
      exact ⟨hi, j, List.mem_range.mp hj, rfl⟩
    · simp only [filledKernel, if_neg hi, Option.elim_none, List.not_mem_nil] at ha
  have hblock : ∀ a ∈ (filledKernel files).structures, a ∈ filledExtents (2 + 8 * files) := by
    intro a ha
    rw [Kernel.structures, hmounts] at ha
    rcases List.mem_append.mp ha with ha | ha
    · obtain ⟨i, -, ha⟩ := List.mem_flatMap.mp ha
      obtain ⟨hi, j, hj, rfl⟩ := hslot i a ha
      refine mem_filledExtents.mpr ⟨?_, rfl⟩
      simp only
      omega
    · rcases List.mem_pair.mp ha with rfl | rfl
      · exact mem_filledExtents.mpr ⟨by simp only; omega, rfl⟩
      · exact mem_filledExtents.mpr ⟨by simp only; omega, rfl⟩
  refine ⟨fun a ha => ?_, ?_⟩
  · obtain ⟨hs, hlen⟩ := mem_filledExtents.mp (hblock a ha)
    refine ⟨by omega, fun j hj => ?_⟩
    obtain rfl : j = 0 := by omega
    rw [hlen]
    exact if_pos (by omega)
  · rw [Kernel.structures, hmounts]
    refine List.pairwise_append.mpr ⟨List.pairwise_flatMap.mpr ⟨fun i _ => ?_, ?_⟩, by decide, ?_⟩
    · by_cases hi : i < files
      · simp only [filledKernel, if_pos hi, Option.elim_some, filledDescriptor_extents]
        exact List.pairwise_map.mpr (List.nodup_range.imp fun hne => apart_single (by omega))
      · simp only [filledKernel, if_neg hi, Option.elim_none]
        exact List.Pairwise.nil
    · refine List.nodup_range.imp fun {i i'} hne a ha a' ha' => ?_
      obtain ⟨-, j, hj, rfl⟩ := hslot i a ha
      obtain ⟨-, j', hj', rfl⟩ := hslot i' a' ha'
      exact apart_single (by omega)
    · intro a ha a' ha'
      obtain ⟨i, -, ha⟩ := List.mem_flatMap.mp ha
      obtain ⟨-, j, hj, rfl⟩ := hslot i a ha
      rcases List.mem_pair.mp ha' with rfl | rfl
      · exact apart_single (by omega)
      · exact apart_single (by omega)

/-- All slots but the last one are in use. -/
def crowdedKernel : Kernel := filledKernel 511

lemma crowdedMemory_kernelMemory : KernelMemory crowdedKernel.memory (filledExtents 4090) :=
  filledMemory_kernelMemory (by decide)

lemma crowdedKernel_opens : Runs (fopen pathA modeR 0) crowdedKernel fun res _ => 0 ≤ res := by
  have hdisk : diskGet crowdedKernel (driveOf pathA) = some (some (mountedVolume 1)) := rfl
  have hperm : (filledExtents 4090).Perm
      (⟨1, 1⟩ :: ⟨0, 1⟩ :: (List.range' 2 4088).map (⟨·, 1⟩)) := by
    have hrange : List.range 4090 = 0 :: 1 :: List.range' 2 4088 := by
      rw [List.range_eq_range', List.range'_succ, List.range'_succ]
    rw [filledExtents, hrange]
    exact List.Perm.swap _ _ _
  have hready : FopenReady crowdedKernel pathA (filledExtents 4090) 1000 := by
    refine fopenReady_pathA crowdedMemory_kernelMemory (filledExtents_roomy (by decide))
      (by decide) hperm fun mt hmt => ?_
    cases hdisk.symm.trans hmt
    exact ⟨rfl, rfl⟩
  have hfile : FileAt (mountedVolume 1) (mountedVolume 1).root (namesOf pathA)
      ⟨fun i => if i = 0 then 0x41 else 0⟩ 2 := by
    rw [namesOf_pathA]
    exact .file rfl (by decide)
  refine hready.fopen_found (i := 511) (pathA_late hdisk) hdisk hfile ?_ (by decide) rfl
  rintro ⟨hwrite, -⟩
  exact hwrite (by decide)

/-- Whatever is done with structures that are not intact, the index of the file in the last slot
does not resolve. -/
theorem not_open_indices_resolve_crowded : crowdedKernel.Intact ∧
    ∀ lost : DescriptorRun → DescriptorOp → Option DescriptorRun,
      Guarded (descriptorStep lost) (fun r _ => r.kernel.Intact) ⟨crowdedKernel, [], none⟩
          [.fopen pathA modeR 0] ∧
        Guarded (descriptorStep lost) DescriptorLegal ⟨crowdedKernel, [], none⟩
          [.fopen pathA modeR 0] ∧
        ¬ Always (descriptorStep lost) DescriptorsOk ⟨crowdedKernel, [], none⟩
          [.fopen pathA modeR 0] := by
  have hintact : crowdedKernel.Intact := intact_filledKernel 511
  refine ⟨hintact, fun lost => ?_⟩
  obtain ⟨fd, k, hopen, hfd⟩ := crowdedKernel_opens
  have hlegal : DescriptorLegal ⟨crowdedKernel, [], none⟩ (.fopen pathA modeR 0) :=
    ⟨fd, k, hopen, hfd⟩
  refine ⟨⟨hintact, fun _ _ => trivial⟩, ⟨hlegal, fun _ _ => trivial⟩, ?_⟩
  rintro ⟨-, r, hstep, hok⟩
  have hcall : descriptorStep lost ⟨crowdedKernel, [], none⟩ (.fopen pathA modeR 0) =
      descriptorCall ⟨crowdedKernel, [], none⟩ (.fopen pathA modeR 0) := if_pos hintact
  rw [hcall] at hstep
  have hinv : DescriptorInv crowdedKernel.memory ⟨crowdedKernel, [], none⟩ :=
    KernelMemory.descriptorInv crowdedMemory_kernelMemory
  refine hinv.step_bad hlegal ?_ hstep hok
  rintro ⟨i, hi, hfree⟩
  have hlt : i < 511 := Nat.lt_of_succ_lt_succ hi
  have hsome : crowdedKernel.fileDescriptors i ≠ none := by
    rw [crowdedKernel, filledKernel]
    simp only [if_pos hlt]
    exact Option.some_ne_none _
  exact hsome hfree

end SerpaeOS
