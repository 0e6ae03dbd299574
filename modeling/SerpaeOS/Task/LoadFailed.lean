import SerpaeOS.Fs.FileClear
import SerpaeOS.Heap.Pinned
import SerpaeOS.Task.Table

/-!
# A load that fails

The error paths of `process_load` free what is entered in the structure of the process, and not
the structure itself.  So every load that fails after a slot was found leaves blocks taken: the
first block of the structure was free before, and no other call of `kfree` on the way comes to
it.
-/

namespace SerpaeOS

open BlockTable Prog TaskList

/-- The tables of the kernel are as before: that of the heap, that of the open files, the list of
tasks and the table of processes. -/
structure TablesRestored (s s' : System) : Prop where
  heap : ∀ i : ℕ, i < kernelBlocks →
    s'.kernel.memory.heap.table.entries i = s.kernel.memory.heap.table.entries i
  fileDescriptors : s'.kernel.fileDescriptors = s.kernel.fileDescriptors
  tasks : s'.sched.mem = s.sched.mem ∧ s'.sched.taskHead = s.sched.taskHead ∧
    s'.sched.taskTail = s.sched.taskTail ∧ s'.sched.currentTask = s.sched.currentTask
  processes : s'.processes = s.processes

/-- The root directories of the mounted volumes do not lie in free blocks. -/
def RootsTaken (k : Kernel) : Prop :=
  ∀ i mt, k.disks i = some (some mt) → ∀ j < kernelBlocks,
    EntryFree k.memory.heap.table.entries j → ClearMount (pinnedGuard (Block j)) mt

/-- The block is pinned, and the root directories of the mounted volumes do not lie in it. -/
abbrev ClearBlock (b : ℕ) (k : Kernel) : Prop := ClearKernel (pinnedGuard (Block b)) k

variable {G : Guard} {C : FatMount → Prop} {s s' t : System} {p : Ptr}
  {filename : List UInt8} {now : ℕ}

/-! ## Calls of the kernel -/

lemma ends_onKernel {α : Type} {q : KernelProg α} {Q : α → Kernel → Prop}
    (h : Ends q s.kernel Q) : Ends (onKernel q) s fun a s' => Q a s'.kernel ∧
      s' = { s with kernel := s'.kernel } := by
  intro a s' hrun
  obtain ⟨k, hq, rfl⟩ := onKernel_eq_some hrun
  exact ⟨h a k hq, rfl⟩

/-- A call of `kzalloc` gives an address that does not lie in the block. -/
lemma ends_kzallocCall (size : ℕ) (hs : GuardedKernel G C s.kernel) :
    Ends (kzallocCall size) s fun q s' => G.clear q ∧ GuardedKernel G C s'.kernel ∧
      ∃ m, s' = s.withMemory m := by
  intro q s' hrun
  obtain ⟨⟨hk, hq⟩, -⟩ := ends_onKernel (gives_onMemory (G.allocate size) s.kernel hs) q s' hrun
  exact ⟨hq, hk, ends_onSystemMemory _ q s' hrun⟩

lemma ends_kfreeCall {q : Ptr} (hq : G.clear q) (hs : GuardedKernel G C s.kernel) :
    Ends (kfreeCall q) s fun _ s' => GuardedKernel G C s'.kernel ∧ ∃ m, s' = s.withMemory m := by
  intro _ s' hrun
  obtain ⟨⟨hk, -⟩, -⟩ := ends_onKernel (gives_onMemory (G.release hq) s.kernel hs) _ s' hrun
  exact ⟨hk, ends_onSystemMemory _ _ s' hrun⟩

/-! ## The program data -/

/-- What `process_free_program_data` frees for the process does not lie in the block. -/
def ClearProgram (G : Guard) (p : Ptr) (s : System) : Prop :=
  match (s.process p).filetype with
  | .elf => (s.process p).data = 0 ∨
    G.clear (s.process p).data ∧ G.clear (s.elfFile (s.process p).data).elfMemory
  | .binary => G.clear (s.process p).data
  | .driver => True

lemma ends_processFreeProgramData (hs : GuardedKernel G C s.kernel) (hp : ClearProgram G p s) :
    Ends (processFreeProgramData p) s fun _ s' => GuardedKernel G C s'.kernel := by
  refine ends_getSystem_bind ?_
  rw [ClearProgram] at hp
  rcases htype : (s.process p).filetype with _ | _ | _
  · rw [htype] at hp
    refine Ends.bind (P := fun _ s' => GuardedKernel G C s'.kernel) ?_ fun _ s' hs' => ends_pure hs'
    refine Ends.ite (fun _ => ends_pure hs) fun hne => ends_getSystem_bind ?_
    obtain ⟨hdata, himage⟩ := hp.resolve_left hne
    refine (ends_kfreeCall himage hs).bind fun _ t ht => ?_
    exact (ends_kfreeCall hdata ht.1).mono fun _ s' hs' => hs'.1
  · rw [htype] at hp
    refine (ends_kfreeCall hp hs).bind fun _ t ht => ends_pure ht.1
  · exact ends_pure hs

lemma elfProcessLoaded_elfMemory (mem : Memory) (file : ElfFile) :
    (elfProcessLoaded mem file).2.elfMemory = file.elfMemory := by
  rw [elfProcessLoaded]
  split_ifs
  · rfl
  · exact elfProcessPheadersLoop_elfMemory _ _ _ _

/-- The file is loaded through an index that does not lead to the block. -/
lemma ends_elfLoadFrom {elfFile : Ptr} {fd : ℤ} (hs : GuardedKernel G C s.kernel)
    (hfd : ClearIndex G fd s.kernel) :
    Ends (elfLoadFrom elfFile fd) s fun r s' => GuardedKernel G C s'.kernel ∧
      ClearIndex G fd s'.kernel ∧ s'.process = s.process ∧
      (0 ≤ r.1 → r.2 = elfFile ∧ G.clear (s'.elfFile elfFile).elfMemory) := by
  refine (ends_fstatCall fd).bind fun stat t ht => ?_
  obtain ⟨rfl, rfl | ⟨st, rfl⟩⟩ := ht
  · exact ends_pure ⟨hs, hfd, rfl, fun hpos => absurd hpos (by decide)⟩
  refine Ends.ite (fun _ => ends_stuck) fun _ => ?_
  refine (ends_kzallocCall st.filesize hs).bind fun image t₁ ht₁ => ?_
  obtain ⟨himage, hk₁, m, rfl⟩ := ht₁
  have hindex₁ : ClearIndex G fd (t.withMemory m).kernel := hfd
  refine (ends_onKernel (ends_fread hk₁ hindex₁ st.filesize)).bind fun read t₂ ht₂ => ?_
  obtain ⟨⟨hk, hindex⟩, hsame⟩ := ht₂
  have hprocess : t₂.process = t.process := by rw [hsame]; rfl
  refine Ends.ite (fun _ => ends_stuck) fun _ => ends_updateSystem_bind ?_
  refine Ends.ite (fun hneg => ?_) fun _ => ends_getSystem_bind (ends_updateSystem_bind ?_)
  · exact ends_pure ⟨hk, hindex, hprocess, fun hpos => absurd hneg (not_lt.mpr hpos)⟩
  refine Ends.ite (fun hneg => ?_) fun _ => ?_
  · exact ends_pure ⟨hk, hindex, hprocess, fun hpos => absurd hneg (not_lt.mpr hpos)⟩
  · refine ends_pure ⟨hk, hindex, hprocess, fun _ => ⟨rfl, ?_⟩⟩
    simp only [Function.update_self, elfProcessLoaded_elfMemory]
    exact himage

/-- `elf_load` gives an `elf_file` with an image. -/
lemma ends_elfLoad (hC : Spares G C filename) (hs : GuardedKernel G C s.kernel) :
    Ends (elfLoad filename now) s fun r s' => GuardedKernel G C s'.kernel ∧ s'.process = s.process ∧
      (0 ≤ r.1 → G.clear r.2 ∧ G.clear (s'.elfFile r.2).elfMemory) := by
  refine (ends_kzallocCall elfFileSize hs).bind fun elfFile t ht => ?_
  obtain ⟨hfile, hk₀, m, rfl⟩ := ht
  refine (ends_onKernel (ends_fopen hC readMode now hk₀)).bind fun fd t₁ ht₁ => ?_
  obtain ⟨⟨hk, hindex⟩, hsame⟩ := ht₁
  have hprocess : t₁.process = s.process := by rw [hsame]; rfl
  refine Ends.ite (fun _ => ?_) fun _ => ?_
  · refine (ends_onKernel (ends_fclose hk (clearIndex_of_le le_rfl _))).bind fun _ t₂ ht₂ => ?_
    refine ends_pure ⟨ht₂.1, ?_, fun hpos => absurd hpos (by decide)⟩
    rw [ht₂.2]
    exact hprocess
  · refine (ends_elfLoadFrom hk hindex).bind fun r t₂ ht₂ => ?_
    obtain ⟨hk₂, hindex₂, hprocess₂, hr⟩ := ht₂
    refine (ends_onKernel (ends_fclose hk₂ hindex₂)).bind fun _ t₃ ht₃ => ?_
    refine ends_pure ⟨ht₃.1, ?_, fun hpos => ?_⟩
    · rw [ht₃.2]
      exact hprocess₂.trans hprocess
    · obtain ⟨hr, himage⟩ := hr hpos
      rw [hr, ht₃.2]
      exact ⟨hfile, himage⟩

/-- Before anything is entered there is nothing to free. -/
lemma clearProgram_of_null (helf : (s.process p).filetype = .elf)
    (hdata : (s.process p).data = 0) : ClearProgram G p s := by
  rw [ClearProgram, helf]
  exact Or.inl hdata

lemma ends_processLoadBinary (hC : Spares G C filename) (hs : GuardedKernel G C s.kernel)
    (hp : ClearProgram G p s) :
    Ends (processLoadBinary filename now p) s fun _ s' => GuardedKernel G C s'.kernel ∧
      ClearProgram G p s' := by
  refine (ends_onKernel (ends_fopen hC readMode now hs)).bind fun fd t ht => ?_
  obtain ⟨⟨hk, hindex⟩, hsame⟩ := ht
  have hp' : ClearProgram G p t := by
    rw [hsame]
    exact hp
  have hclose : ∀ {t : System} {r : ℤ}, GuardedKernel G C t.kernel → ClearIndex G fd t.kernel →
      ClearProgram G p t → Ends (do
        let _ ← onKernel (fclose fd)
        return r : SystemProg ℤ) t fun _ s' =>
          GuardedKernel G C s'.kernel ∧ ClearProgram G p s' := by
    intro t r hk hindex hp
    refine (ends_onKernel (ends_fclose hk hindex)).bind fun _ t' ht' => ends_pure ⟨ht'.1, ?_⟩
    rw [ht'.2]
    exact hp
  refine Ends.ite (fun _ => hclose hk hindex hp') fun _ => ?_
  -- the image is entered when it has been read
  refine Ends.bind (P := fun _ s' => GuardedKernel G C s'.kernel ∧ ClearIndex G fd s'.kernel ∧
    ClearProgram G p s') ?_ fun r t' ht' => hclose ht'.1 ht'.2.1 ht'.2.2
  refine (ends_fstatCall fd).bind fun stat t₁ ht₁ => ?_
  obtain ⟨rfl, rfl | ⟨st, rfl⟩⟩ := ht₁
  · exact ends_pure ⟨hk, hindex, hp'⟩
  refine (ends_kzallocCall st.filesize hk).bind fun image t₂ ht₂ => ?_
  obtain ⟨hclear, hk₂, m, rfl⟩ := ht₂
  have hindex₂ : ClearIndex G fd (t₁.withMemory m).kernel := hindex
  have hp₂ : ClearProgram G p (t₁.withMemory m) := hp'
  refine Ends.ite (fun _ => ends_pure ⟨hk₂, hindex₂, hp₂⟩) fun _ => ?_
  refine (ends_onKernel (ends_fread hk₂ hindex₂ st.filesize)).bind fun read t₃ ht₃ => ?_
  obtain ⟨⟨hk₃, hindex₃⟩, hsame₃⟩ := ht₃
  have hp₃ : ClearProgram G p t₃ := by
    rw [hsame₃]
    exact hp₂
  refine ends_updateSystem_bind (Ends.ite (fun _ => ?_) fun _ => ?_)
  · have hfree : ∀ u : System, GuardedKernel G C u.kernel → ClearIndex G fd u.kernel →
        ClearProgram G p u → Ends (do
          kfreeCall image
          return -eio : SystemProg ℤ) u fun _ s' => GuardedKernel G C s'.kernel ∧
            ClearIndex G fd s'.kernel ∧ ClearProgram G p s' := by
      intro u hk hindex hp
      refine (ends_kfreeCall hclear hk).bind fun _ u' hu' => ?_
      obtain ⟨hk', m', rfl⟩ := hu'
      exact ends_pure ⟨hk', hindex, hp⟩
    exact hfree _ hk₃ hindex₃ hp₃
  · refine ends_updateSystem_bind (ends_pure ⟨hk₃, hindex₃, ?_⟩)
    simp only [ClearProgram, System.setProcess_process, Function.update_self]
    exact hclear

/-- Loading the program data enters nothing that lies in the block. -/
lemma ends_processLoadData (hC : Spares G C filename) (hs : GuardedKernel G C s.kernel)
    (helf : (s.process p).filetype = .elf) (hdata : (s.process p).data = 0) :
    Ends (processLoadData filename now p) s fun _ s' => GuardedKernel G C s'.kernel ∧
      ClearProgram G p s' := by
  refine Ends.bind (P := fun _ s' => GuardedKernel G C s'.kernel ∧ ClearProgram G p s') ?_
    fun r t ht => Ends.ite (fun _ => ends_processLoadBinary hC ht.1 ht.2) fun _ => ends_pure ht
  refine (ends_elfLoad hC hs).bind fun loaded t ht => Ends.ite (fun _ => ?_) fun hneg => ?_
  · refine ends_pure ⟨ht.1, clearProgram_of_null ?_ ?_⟩
    · rw [ht.2.1, helf]
    · rw [ht.2.1, hdata]
  · refine ends_updateSystem_bind (ends_pure ⟨ht.1, ?_⟩)
    simp only [ClearProgram, System.setProcess_process, Function.update_self]
    exact Or.inr (ht.2.2 (not_lt.mp hneg))

/-! ## The task -/

/-- What `task_free` frees for a task does not lie in the block. -/
structure ClearTask (G : Guard) (task : Ptr) (s : System) : Prop where
  ptr : G.clear task
  chunk : G.clear (s.sched.mem task).pageDirectory
  directory : G.clear (s.pageDirectory (s.sched.mem task).pageDirectory).directoryEntry
  tables : ∀ q ∈ (s.pageDirectory (s.sched.mem task).pageDirectory).tables, G.clear q

lemma gives_newTables (n : ℕ) :
    Gives G.holds (newTables n) fun tables => ∀ q ∈ tables, G.clear q := by
  induction n with
  | zero => exact gives_pure fun q hq => nomatch hq
  | succ n ih =>
    refine (G.allocate _).bind fun q hq => Gives.ite (fun _ => gives_stuck) fun _ => ?_
    exact ih.bind fun tables htables => gives_pure (List.forall_mem_cons.mpr ⟨hq, htables⟩)

lemma gives_pagingNewBlocks : Gives G.holds pagingNewBlocks fun r =>
    r.1 ≠ 0 ∧ G.clear r.1 ∧ G.clear r.2.directoryEntry ∧ ∀ q ∈ r.2.tables, G.clear q := by
  refine (G.allocate _).bind fun d hd => Gives.ite (fun _ => gives_stuck) fun _ => ?_
  refine (gives_newTables _).bind fun tables htables => ?_
  refine (G.allocate _).bind fun chunk hchunk => Gives.ite (fun _ => gives_stuck) fun hne => ?_
  exact gives_pure ⟨hne, hchunk, hd, htables⟩

lemma gives_releaseTask {task : Ptr} (h : ClearTask G task s) :
    Gives G.holds (releaseTask s task) fun _ => True := by
  have hall : ∀ l : List Ptr, (∀ q ∈ l, G.clear q) →
      Gives G.holds (releaseAll l) fun _ => True := by
    intro l
    induction l with
    | nil => exact fun _ => gives_pure trivial
    | cons q l ih =>
      intro hl
      obtain ⟨hq, hrest⟩ := List.forall_mem_cons.mp hl
      exact (G.release hq).bind fun _ _ => ih hrest
  have hpages : Gives G.holds (pagingFree4gb (s.sched.mem task).pageDirectory
      (s.pageDirectory (s.sched.mem task).pageDirectory)) fun _ => True :=
    (hall _ h.tables).bind fun _ _ => (G.release h.directory).bind fun _ _ =>
      G.release h.chunk
  refine Gives.ite (fun _ => ?_) fun _ => G.release h.ptr
  exact hpages.bind fun _ _ => G.release h.ptr

lemma ends_taskNewCall_clear (hs : GuardedKernel G C s.kernel) :
    Ends (taskNewCall p) s fun task s' => GuardedKernel G C s'.kernel ∧ ClearTask G task s' ∧
      s'.process = s.process ∧ s'.elfFile = s.elfFile := by
  refine (ends_kzallocCall taskSize hs).bind fun task t ht => ?_
  obtain ⟨htask, hk, m, rfl⟩ := ht
  refine Ends.ite (fun _ => ends_stuck) fun hne => ?_
  refine (ends_onKernel (gives_onMemory gives_pagingNewBlocks _ hk)).bind fun r t₁ ht₁ => ?_
  obtain ⟨⟨hk₁, hchunk, hclear, hdirectory, htables⟩, hsame⟩ := ht₁
  have hprocess : t₁.process = s.process := by rw [hsame]; rfl
  have helf : t₁.elfFile = s.elfFile := by rw [hsame]; rfl
  refine ends_updateSystem_bind (ends_pure ⟨hk₁, ?_, hprocess, helf⟩)
  have hmem := (taskNew_mem t₁.sched ⟨p, (t₁.process p).filetype,
    Bytes.u32le t₁.memory.at ((t₁.elfFile (t₁.process p).data).elfMemory + 24),
    (t₁.process p).task⟩ hne hchunk).2
  refine ⟨htask, ?_, ?_, ?_⟩
  · simp only [hmem]
    exact hclear
  · simp only [hmem, Function.update_self]
    exact hdirectory
  · simp only [hmem, Function.update_self]
    exact htables

/-! ## The load -/

/-- The end of a failed load frees the task and the program data, as far as there are any. -/
lemma ends_processLoadFailed_clear {res : ℤ} (hs : GuardedKernel G C s.kernel)
    (hp : ClearProgram G p s) (htask : (s.process p).task ≠ 0 → ClearTask G (s.process p).task s) :
    Ends (processLoadFailed p res) s fun _ s' => GuardedKernel G C s'.kernel := by
  have hfree : Ends (processFreeTask p) s fun _ s' => GuardedKernel G C s'.kernel ∧
      ClearProgram G p s' := by
    refine ends_getSystem_bind (Ends.ite (fun hne => ?_) fun _ => ends_pure ⟨hs, hp⟩)
    refine ends_getSystem_bind ?_
    intro _ s' hrun
    obtain ⟨_, t, hrelease, hrun⟩ := bind_eq_some hrun
    obtain ⟨⟨hk, -⟩, hsame⟩ := ends_onKernel
      (gives_onMemory (gives_releaseTask (htask hne)) s.kernel hs) _ t hrelease
    cases hrun
    refine ⟨hk, ?_⟩
    rw [hsame]
    exact hp
  refine hfree.bind fun _ t ht => ?_
  exact (ends_processFreeProgramData ht.1 ht.2).bind fun _ t' ht' => ends_pure ht'

lemma ends_processSetHost_clear {hosting : Ptr} (hs : GuardedKernel G C s.kernel) :
    Ends (processSetHost p hosting) s fun _ s' => GuardedKernel G C s'.kernel := by
  refine ends_updateSystem_bind (Ends.ite (fun _ => ?_) fun _ => ?_)
  · refine ends_updateSystem_bind ?_
    intro _ s' hrun
    cases hrun
    exact hs
  · refine Ends.bind (ends_kzallocCall screenSize hs) fun screen t ht => ?_
    intro _ s' hrun
    cases hrun
    exact ht.2.1

/-- Starting a process does not free its structure, whether it fails or not. -/
lemma ends_processStart_clear {slot : ℕ} {hosting : Ptr} (hs : GuardedKernel G C s.kernel)
    (hp : ClearProgram G p s) (htask : (s.process p).task = 0) :
    Ends (processStart p slot hosting) s fun _ s' => GuardedKernel G C s'.kernel := by
  refine (ends_kzallocCall userProgramStackSize hs).bind fun stack t ht => ?_
  obtain ⟨-, hk, m, rfl⟩ := ht
  refine Ends.ite (fun _ => ?_) fun _ => ends_updateSystem_bind ?_
  · exact ends_processLoadFailed_clear hk hp fun hne => absurd htask hne
  have hstart : Ends (taskNewCall p) ((s.withMemory m).setProcess p fun q =>
      { q with stack := stack, id := slot }) fun task s' => GuardedKernel G C s'.kernel ∧
        ClearTask G task s' ∧ ClearProgram G p s' := by
    refine Ends.mono (ends_taskNewCall_clear ?_) fun task s' hs' => ⟨hs'.1, hs'.2.1, ?_⟩
    · exact hk
    rw [ClearProgram, hs'.2.2.1, hs'.2.2.2, System.setProcess_process, Function.update_self]
    exact hp
  refine hstart.bind fun task t ht => ends_updateSystem_bind ?_
  refine ends_processMapMemory.bind fun res t' ht' => ?_
  obtain ⟨rfl, -⟩ := ht'
  refine Ends.ite (fun _ => ?_) fun _ => ?_
  · refine ends_processLoadFailed_clear ?_ ?_ fun _ => ?_
    · exact ht.1
    · rw [ClearProgram, System.setProcess_process, Function.update_self]
      exact ht.2.2
    · rw [System.setProcess_process, Function.update_self]
      exact ⟨ht.2.1.ptr, ht.2.1.chunk, ht.2.1.directory, ht.2.1.tables⟩
  · have hkernel : GuardedKernel G C (t.setProcess p fun q => { q with task := task }).kernel :=
      ht.1
    refine (ends_processSetHost_clear hkernel).bind fun _ t₁ ht₁ => ?_
    exact ends_updateSystem_bind (ends_pure ht₁)

/-- The rest of the call after the structure of the process was taken. -/
lemma ends_processLoadRest {slot : ℕ} {hosting : Ptr} (hC : Spares G C filename)
    (hs : GuardedKernel G C s.kernel) :
    Ends (do
      updateSystem fun s => s.setProcess p fun _ => .zero
      let res ← processLoadData filename now p
      if res < 0 then processLoadFailed p res else processStart p slot hosting :
        SystemProg (ℤ × Ptr)) s fun _ s' => GuardedKernel G C s'.kernel := by
  refine ends_updateSystem_bind ?_
  have hself : (s.setProcess p fun _ => .zero).process p = .zero := Function.update_self _ _ _
  have hdata : Ends (processLoadData filename now p) (s.setProcess p fun _ => .zero) fun _ s' =>
      GuardedKernel G C s'.kernel ∧ ClearProgram G p s' ∧ (s'.process p).task = 0 := by
    intro r s' hrun
    obtain ⟨hk, hp⟩ := ends_processLoadData (s := s.setProcess p fun _ => .zero) hC hs
      (by rw [hself]; rfl) (by rw [hself]; rfl) r s' hrun
    have hload := keeps_processLoadData _ r s' (Loading.refl (by rw [hself]; decide)) hrun
    obtain ⟨_, _, _, -, hfields⟩ := hload.fields
    refine ⟨hk, hp, ?_⟩
    rw [hfields, hself]
    rfl
  refine hdata.bind fun res t ht => Ends.ite (fun _ => ?_) fun _ => ?_
  · exact ends_processLoadFailed_clear ht.1 ht.2.1 fun hne => absurd ht.2.2 hne
  · exact ends_processStart_clear ht.1 ht.2.1 ht.2.2

/-- A load that fails leaves the first block of the structure taken, which was free before. -/
lemma ends_processLoadForSlot_leaks {slot : ℕ} {hosting : Ptr}
    (hheap : NextTaken s.kernel.memory.heap) (hroots : RootsTaken s.kernel) :
    Ends (processLoadForSlot filename now slot hosting) s fun r s' => r.1 < 0 →
      ∃ b < kernelBlocks, EntryFree s.kernel.memory.heap.table.entries b ∧
        ¬ EntryFree s'.kernel.memory.heap.table.entries b := by
  refine ends_getSystem_bind (Ends.ite (fun _ => ends_stuck) fun _ => ?_)
  intro r s' hrun _
  obtain ⟨process, t, halloc, hrun⟩ := bind_eq_some hrun
  obtain ⟨k, hk, rfl⟩ := onKernel_eq_some halloc
  obtain ⟨m, hm, rfl⟩ := onMemory_eq_some hk
  split_ifs at hrun with hzero
  · cases hrun
  obtain ⟨b, hb, hfree, hpinned⟩ := hheap.allocate (by decide) hm hzero
  have hclear : ClearKernel (pinnedGuard (Block b)) { s.kernel with memory := m } :=
    ⟨hpinned, fun i mt hi => hroots i mt hi b hpinned.inside hfree⟩
  have hend := ends_processLoadRest (s := { s with kernel := { s.kernel with memory := m } })
    spares_clearMount hclear r s' hrun
  exact ⟨b, hpinned.inside, hfree, hend.holds.taken b (covers_block.mpr rfl)⟩

/-- So does a call of `process_load` when a slot is free. -/
lemma ends_processLoad_leaks {hosting : Ptr} (hslot : processGetFreeSlot s ≠ none)
    (hheap : NextTaken s.kernel.memory.heap) (hroots : RootsTaken s.kernel) :
    Ends (processLoad filename now hosting) s fun r s' => r.1 < 0 →
      ∃ b < kernelBlocks, EntryFree s.kernel.memory.heap.table.entries b ∧
        ¬ EntryFree s'.kernel.memory.heap.table.entries b := by
  intro r s' hload
  rw [processLoad, getSystem_bind] at hload
  rcases hfind : processGetFreeSlot s with _ | slot
  · exact absurd hfind hslot
  · rw [hfind] at hload
    exact ends_processLoadForSlot_leaks hheap hroots r s' hload

/-- **Failed loads.**  When the heap is sound and the root directories lie in taken blocks, a call
of `process_load` that fails leaves the tables of the kernel as they were if and only if no slot
was free. -/
theorem process_load_restores_iff {hosting : Ptr} {r : ℤ × Ptr}
    (hheap : NextTaken s.kernel.memory.heap) (hroots : RootsTaken s.kernel)
    (hload : processLoad filename now hosting s = some (r, s')) (hfail : r.1 < 0) :
    TablesRestored s s' ↔ processGetFreeSlot s = none := by
  constructor
  · intro hrestored
    by_contra hslot
    obtain ⟨b, hlt, hfree, htaken⟩ := ends_processLoad_leaks hslot hheap hroots r s' hload hfail
    refine htaken ?_
    rw [EntryFree, hrestored.heap b hlt]
    exact hfree
  · intro hslot
    rw [processLoad, getSystem_bind, hslot] at hload
    cases hload
    exact ⟨fun _ _ => rfl, rfl, ⟨rfl, rfl, rfl, rfl⟩, rfl⟩

/-! ## A missing file -/

/-- Opening the file fails in an empty root directory. -/
lemma imageFails_missing : ImageFails (mountedVolume 0) pathA (-eio) := by
  intro s L R n hdisk _ hmem hroomy hn hperm
  have hone : blocksFor elfFileSize = 1 := by decide
  have helf := hmem.allocate hroomy (by decide : 0 < elfFileSize) (by omega)
  refine (runs_onKernel (runs_onMemory helf)).bind fun elfFile t ht => ?_
  obtain ⟨k, ⟨m, ⟨hblock, hmem', hroomy'⟩, rfl⟩, rfl⟩ := ht
  rw [hone] at hmem' hroomy'
  have hready : FopenReady { s.kernel with memory := m } pathA (extentAt elfFile 1 :: L)
      (n - 1) := by
    refine fopenReady_pathA hmem' hroomy' (by omega) ((hperm.cons _).trans List.perm_middle.symm)
      fun mt hmt => ?_
    cases hdisk.symm.trans hmt
    exact ⟨rfl, rfl⟩
  have hopen : Runs (fopen pathA modeR 0) { s.kernel with memory := m } fun res _ => res < 0 :=
    hready.fopen_missing (pathA_late hdisk) hdisk namesOf_pathA rfl (by
      have hlen : pathA.length = 4 := rfl
      omega)
  refine (runs_onKernel hopen).bind fun fd t ht => ?_
  obtain ⟨k, hneg, rfl⟩ := ht
  rw [if_pos (by omega)]
  have hclose : fclose 0 k = some (-eio, k) := fclose_none rfl
  refine (runs_onKernel (Q := fun _ _ => True) ⟨_, _, hclose, trivial⟩).bind fun _ t ht => ?_
  obtain ⟨k', -, rfl⟩ := ht
  exact runs_pure ⟨rfl, rfl⟩

/-- In a heap that records its allocations, and whose first block is taken, a block marked as
having a successor is followed by one that is not free. -/
lemma KernelHeap.nextTaken {heap : Heap} {L : List Extent} (h : KernelHeap heap L)
    (hfirst : Extent.Covered L 0) : NextTaken heap := by
  refine ⟨h.saddr_eq, h.total_eq, fun i hi hfree => ?_⟩
  have htotal := h.total_eq
  have hcov := (h.records.entryFree_iff (by omega)).mp hfree
  rcases i with _ | i
  · exact absurd hfirst hcov
  have hcast : ((i + 1 : ℕ) : ℤ) - 1 = (i : ℕ) := by omega
  rw [hcast]
  by_cases hprev : Extent.Covered L i
  · obtain ⟨a, ha, hai⟩ := hprev
    have hcode : heap.table.entries i = _ := h.records.encodes.code_of_covers ha hai
    rw [hcode, blockCode_hasNext_iff]
    -- a longer extent would cover the block as well
    by_contra hlong
    have hstart := hai.1
    exact hcov ⟨a, ha, by omega, by omega⟩
  · have hcode : heap.table.entries i = _ := h.records.encodes.free_eq i (by omega) hprev
    rw [hcode]
    rfl

/-- The root directories lie in the first two blocks, which are taken. -/
lemma KernelHeap.rootsTaken {k : Kernel} {L : List Extent} (h : KernelHeap k.memory.heap L)
    (hfirst : (⟨0, 1⟩ : Extent) ∈ L) (hsecond : (⟨1, 1⟩ : Extent) ∈ L)
    (hroot : ∀ i mt, k.disks i = some (some mt) →
      mt.rootPtr = blockAddress 0 + 64 ∧ mt.rootItemPtr = blockAddress 1) : RootsTaken k := by
  intro i mt hi j hj hfree
  obtain ⟨hptr, hitem⟩ := hroot i mt hi
  have htotal := h.total_eq
  have hcov := (h.records.entryFree_iff (i := j) (by omega)).mp hfree
  have hzero : 0 ≠ j := by
    rintro rfl
    exact hcov ⟨⟨0, 1⟩, hfirst, by decide⟩
  have hone : 1 ≠ j := by
    rintro rfl
    exact hcov ⟨⟨1, 1⟩, hsecond, by decide⟩
  refine ⟨?_, hitem ▸ (clear_blockAddress (by decide)).mpr hone⟩
  have hindex : blockIndex (blockAddress 0 + 64) = 0 := by decide
  change Clear (Block j) mt.rootPtr
  rw [hptr, Clear, hindex, Block]
  simp only
  omega

lemma bootSystem_disks {mt mt' : FatMount} {i : ℕ}
    (hi : (bootSystem mt).kernel.disks i = some (some mt')) : mt' = mt := by
  by_cases hzero : i = 0
  · exact (Option.some.inj (Option.some.inj ((if_pos hzero).symm.trans hi))).symm
  · exact nomatch (if_neg hzero).symm.trans hi

/-- The root directory of the volume that the kernel boots with lies in taken blocks. -/
lemma rootsTaken_bootSystem {mt : FatMount} (hptr : mt.rootPtr = blockAddress 0 + 64)
    (hitem : mt.rootItemPtr = blockAddress 1) : RootsTaken (bootSystem mt).kernel := by
  refine bootedMemory_spec.2.1.kernelHeap.rootsTaken
    (by simp [bootExtents, bootProcessExtents, mountedExtents])
    (by simp [bootExtents, bootProcessExtents, mountedExtents]) fun i mt' hi => ?_
  rw [bootSystem_disks hi]
  exact ⟨hptr, hitem⟩

lemma nextTaken_bootSystem (mt : FatMount) : NextTaken (bootSystem mt).kernel.memory.heap :=
  bootedMemory_spec.2.1.kernelHeap.nextTaken
    ⟨⟨0, 1⟩, by simp [bootExtents, bootProcessExtents, mountedExtents], by decide⟩

/-- A file that does not exist is loaded. -/
theorem process_load_restores_missing :
    ∃ r s', processLoad pathA 0 0 (bootSystem (mountedVolume 0)) = some (r, s') ∧ r.1 < 0 ∧
      (TablesRestored (bootSystem (mountedVolume 0)) s' ↔
        processGetFreeSlot (bootSystem (mountedVolume 0)) = none) := by
  obtain ⟨r, s', hload, hr⟩ := imageFails_missing.processLoad (by decide) (by decide) rfl
  have hneg : r.1 < 0 := by rw [hr]; decide
  exact ⟨r, s', hload, hneg, process_load_restores_iff (nextTaken_bootSystem _)
    (rootsTaken_bootSystem rfl rfl) hload hneg⟩

/-- A slot is free, the file is missing, and the attempt leaves a block of the heap taken. -/
theorem not_process_load_restores_missing :
    ∃ r s', processLoad pathA 0 0 (bootSystem (mountedVolume 0)) = some (r, s') ∧ r.1 < 0 ∧
      processGetFreeSlot (bootSystem (mountedVolume 0)) ≠ none ∧
      ¬ TablesRestored (bootSystem (mountedVolume 0)) s' := by
  obtain ⟨r, s', hload, hr⟩ := imageFails_missing.processLoad (by decide) (by decide) rfl
  have hneg : r.1 < 0 := by rw [hr]; decide
  obtain ⟨slot, hslot, -⟩ := bootSystem_freeSlot (mountedVolume 0)
  have hfree : processGetFreeSlot (bootSystem (mountedVolume 0)) ≠ none := by
    rw [hslot]
    exact Option.some_ne_none slot
  obtain ⟨b, hlt, hwas, htaken⟩ := ends_processLoad_leaks hfree (nextTaken_bootSystem _)
    (rootsTaken_bootSystem rfl rfl) r s' hload hneg
  refine ⟨r, s', hload, hneg, hfree, fun hrestored => htaken ?_⟩
  rw [EntryFree, hrestored.heap b hlt]
  exact hwas

end SerpaeOS
