import SerpaeOS.Heap.Confined
import SerpaeOS.Task.LoadFailed

/-!
# What a load lies apart from

The structure of a new process, its task and its screen lie apart from what is in blocks that stay
taken.  So the screens that are stored over when a load switches to the new process do not lie over
the structures in use, if these and the screens were in such blocks before, and the screens off the
structures.
-/

namespace SerpaeOS

open BlockTable Bytes Prog TaskList

/-- The structure at the address lies in the first block of an allocation, in which no root
directory lies. -/
def System.Kept (s : System) (q : Ptr) : Prop :=
  ∃ a, ¬ Clear a q ∧ ClearKernel (pinnedGuard a) s.kernel

/-- The whole structure does. -/
def System.KeptWhole (s : System) (q n : ℕ) : Prop :=
  ∃ a, Houses a q n ∧ ClearKernel (pinnedGuard a) s.kernel

/-- The structures of these processes and tasks, and the screens of the processes, are in blocks
that stay taken. -/
structure SystemKept (P T : Ptr → Prop) (s : System) : Prop where
  process_kept : ∀ q, P q → s.KeptWhole q processSize
  task_kept : ∀ t, T t → s.KeptWhole t taskSize
  screen_kept : ∀ q, P q → s.KeptWhole (s.process q).screen screenSize

/-- A load of the program frees only what it takes: free blocks have no successor, no root
directory lies in a free block, and the program is not a file of a root directory. -/
structure SafeLoad (filename : List UInt8) (s : System) : Prop where
  plain : HeapPlain s.kernel.memory
  roots : RootsTaken s.kernel
  nested : ∀ i mt, s.kernel.disks i = some (some mt) → ¬ mt.RootFile (namesOf filename)

/-- Any of these programs is loaded while the structures of the processes and tasks are kept, and
lie off the screens. -/
structure LoadsSafe (P T : Ptr → Prop) (filenames : List (List UInt8)) (s : System) : Prop
    extends SystemKept P T s, ScreensApart P T s where
  safe : ∀ filename ∈ filenames, SafeLoad filename s

/-- The new structure does not lie over one that the guard houses. -/
def Guard.Off (G : Guard) (p size : ℕ) : Prop := ∀ q n, G.Houses q n → ¬ Overlap p size q n

/-- What `kzalloc` returns from now on does not lie over the structure. -/
def HousedNow (m : KMemory) (q n : ℕ) : Prop := ∃ F, Confined F m ∧ (confinedGuard F).Houses q n

variable {G : Guard} {C : FatMount → Prop} {P T : Ptr → Prop} {A : ℕ → ℕ → Prop} {s s' t : System}
  {p q n size slot hosting now : ℕ} {filename : List UInt8}

/-! ## Structures that are kept -/

lemma System.Kept.mono (h : s.Kept q)
    (hclear : ∀ G, ClearKernel G s.kernel → ClearKernel G t.kernel) : t.Kept q := by
  obtain ⟨a, hq, ha⟩ := h
  exact ⟨a, hq, hclear _ ha⟩

lemma System.Kept.ne_zero (h : s.Kept q) : q ≠ 0 := by
  rintro rfl
  obtain ⟨a, hq, -⟩ := h
  exact hq isCode_null.clear

/-- A new structure is not one that is kept. -/
lemma System.Kept.ne_kzalloc (h : s.Kept q) (size : ℕ) :
    q ≠ (kzalloc s.kernel.memory.heap size).2 := by
  rintro rfl
  obtain ⟨a, hq, ha⟩ := h
  exact hq (ha.holds.allocate _ _ rfl).2

lemma System.KeptWhole.kept (h : s.KeptWhole q n) : s.Kept q := by
  obtain ⟨a, hq, ha⟩ := h
  exact ⟨a, hq.not_clear ha.holds.inside, ha⟩

lemma System.KeptWhole.mono (h : s.KeptWhole q n)
    (hclear : ∀ G, ClearKernel G s.kernel → ClearKernel G t.kernel) : t.KeptWhole q n := by
  obtain ⟨a, hq, ha⟩ := h
  exact ⟨a, hq, hclear _ ha⟩

lemma SystemKept.congr (h : SystemKept P T s)
    (hclear : ∀ G, ClearKernel G s.kernel → ClearKernel G t.kernel)
    (hscreen : ∀ q, P q → (t.process q).screen = (s.process q).screen) : SystemKept P T t := by
  refine ⟨fun q hq => (h.process_kept q hq).mono hclear, fun q hq => (h.task_kept q hq).mono hclear,
    fun q hq => ?_⟩
  rw [hscreen q hq]
  exact (h.screen_kept q hq).mono hclear

/-! ## Calls of `kzalloc` -/

lemma requestBlocks_fits : processSize ≤ requestBlocks processSize * heapBlockSize ∧
    taskSize ≤ requestBlocks taskSize * heapBlockSize ∧
    screenSize ≤ requestBlocks screenSize * heapBlockSize := by
  decide

/-- A call of `kzalloc` keeps what is kept. -/
lemma ends_kzallocCall_kept (size : ℕ) : Ends (kzallocCall size) s fun _ t =>
    (∃ m, t = s.withMemory m) ∧ ∀ G, ClearKernel G s.kernel → ClearKernel G t.kernel := by
  intro r t hrun
  refine ⟨ends_onSystemMemory _ r t hrun, fun b hb => ?_⟩
  exact (ends_kzallocCall size hb r t hrun).2.1

lemma ends_kzallocCall_memory {Q : Ptr → KMemory → Prop}
    (h : Ends (allocate size) s.kernel.memory Q) :
    Ends (kzallocCall size) s fun p t => Q p t.kernel.memory := by
  intro p t hrun
  obtain ⟨k, hk, rfl⟩ := onKernel_eq_some hrun
  obtain ⟨m, hm, rfl⟩ := onMemory_eq_some hk
  exact h p m hm

/-- The new allocation does not lie over what the guard houses. -/
lemma ends_kzallocCall_off (hs : GuardedKernel G C s.kernel)
    (hsize : size ≤ requestBlocks size * heapBlockSize) (hsmall : size ≤ heapAddress) :
    Ends (kzallocCall size) s fun p t => G.Off p size ∧ GuardedKernel G C t.kernel ∧
      ∃ m, t = s.withMemory m := by
  intro p t hrun
  refine ⟨fun q n hq => ?_, (ends_kzallocCall size hs p t hrun).2⟩
  exact ends_kzallocCall_memory (hq.allocate_off hs.holds hsize hsmall) p t hrun

/-- In a plain heap it is itself housed from then on. -/
lemma ends_kzallocCall_housed (h : HeapPlain s.kernel.memory) (hpos : 0 < requestBlocks size)
    (hsize : size ≤ requestBlocks size * heapBlockSize) :
    Ends (kzallocCall size) s fun p t => (p ≠ 0 → HousedNow t.kernel.memory p size) ∧
      HeapPlain t.kernel.memory ∧ ∃ m, t = s.withMemory m := by
  intro p t hrun
  have hplain := ends_kzallocCall_memory (h.allocate size) p t hrun
  refine ⟨fun hp => ⟨_, hplain.confined, ?_⟩, hplain, ends_onSystemMemory _ p t hrun⟩
  exact ends_kzallocCall_memory (h.allocate_houses hpos hsize) p t hrun hp

/-! ## The parts of a load -/

/-- The new task does not lie over what the guard houses. -/
lemma ends_taskNewCall_off (hs : GuardedKernel G C s.kernel) : Ends (taskNewCall p) s fun task t =>
    G.Off task taskSize ∧ GuardedKernel G C t.kernel ∧ t.process = s.process := by
  intro task t hrun
  obtain ⟨hk, -, hprocess, -⟩ := ends_taskNewCall_clear hs task t hrun
  refine ⟨?_, hk, hprocess⟩
  have hoff : Ends (taskNewCall p) s fun task _ => G.Off task taskSize := by
    refine (ends_kzallocCall_off hs requestBlocks_fits.2.1 (by decide)).bind fun task u hu => ?_
    refine Ends.ite (fun _ => ends_stuck) fun _ => ?_
    refine Ends.bind (P := fun _ _ => True) (fun _ _ _ => trivial) fun r _ _ => ?_
    exact ends_updateSystem_bind (ends_pure hu.1)
  exact hoff task t hrun

/-- The new task stays in blocks that are taken. -/
lemma ends_taskNewCall_housed (h : HeapPlain s.kernel.memory) : Ends (taskNewCall p) s fun task t =>
    HousedNow t.kernel.memory task taskSize := by
  refine (ends_kzallocCall_housed h (by decide) requestBlocks_fits.2.1).bind fun task u hu => ?_
  obtain ⟨hhoused, -, m, rfl⟩ := hu
  refine Ends.ite (fun _ => ends_stuck) fun hne => ?_
  obtain ⟨F, hF, htask⟩ := hhoused hne
  have hguard : GuardedKernel (confinedGuard F) (fun _ => True) (s.withMemory m).kernel :=
    ⟨hF, fun _ _ _ => trivial⟩
  refine (ends_onKernel (gives_onMemory gives_pagingNewBlocks _ hguard)).bind fun r v hv => ?_
  exact ends_updateSystem_bind (ends_pure ⟨F, hv.1.1.holds, htask⟩)

lemma hostedBy_task (g : Ptr → Process) : (hostedBy g hosting q).task = (g q).task := by
  rw [hostedBy]
  split_ifs
  · by_cases hq : q = hosting
    · rw [hq, Function.update_self]
    · rw [Function.update_of_ne hq]
  · rfl

/-- A process without a host gets a screen of its own. -/
lemma ends_processSetHost_off (hs : GuardedKernel G C s.kernel) :
    Ends (processSetHost p hosting) s fun _ t => (t.process p).task = (s.process p).task ∧
      (hosting = 0 → G.Off (t.process p).screen screenSize) := by
  intro _ t hrun
  refine ⟨?_, fun hzero => ?_⟩
  · obtain ⟨m, screen, -, rfl⟩ := ends_processSetHost _ t hrun
    simp only [hostedBy_task, Function.update_self]
  · subst hzero
    have hoff : Ends (processSetHost p 0) s fun _ t => G.Off (t.process p).screen screenSize := by
      refine ends_updateSystem_bind ?_
      rw [if_neg (not_not.mpr rfl)]
      refine (ends_kzallocCall_off (s := s.setProcess p _) hs requestBlocks_fits.2.2
        (by decide)).bind fun screen u hu => ?_
      intro _ v hv
      cases hv
      simp only [System.setProcess_process, Function.update_self]
      exact hu.1
    exact hoff _ t hrun

/-- The task and the screen of a new process. -/
structure NewOff (G : Guard) (hosting : Ptr) (f : Process) : Prop where
  task_off : G.Off f.task taskSize
  screen_off : hosting = 0 → G.Off f.screen screenSize

lemma ends_processLoadFailed_neg {res : ℤ} (hneg : res < 0) :
    Ends (processLoadFailed p res) s fun r _ => r.1 < 0 := by
  refine (ends_processLoadFailed (Apart.refl p s)).mono fun r s' hr => ?_
  rw [hr.1]
  exact hneg

lemma ends_processStart_off (hs : GuardedKernel G C s.kernel) :
    Ends (processStart p slot hosting) s fun r t =>
      r.1 < 0 ∨ (r.2 = p ∧ NewOff G hosting (t.process p)) := by
  refine (ends_kzallocCall _ hs).bind fun stack t ht => ?_
  obtain ⟨-, hk, m, rfl⟩ := ht
  refine Ends.ite (fun _ => ?_) fun _ => ends_updateSystem_bind ?_
  · exact (ends_processLoadFailed_neg (by decide)).mono fun r s' hr => Or.inl hr
  refine (ends_taskNewCall_off (s := (s.withMemory m).setProcess p fun q =>
    { q with stack := stack, id := slot }) hk).bind fun task t₁ ht₁ => ends_updateSystem_bind ?_
  refine ends_processMapMemory.bind fun res t₂ ht₂ => ?_
  obtain ⟨rfl, -⟩ := ht₂
  refine Ends.ite (fun hneg => ?_) fun _ => ?_
  · exact (ends_processLoadFailed_neg hneg).mono fun r s' hr => Or.inl hr
  refine (ends_processSetHost_off (s := t₁.setProcess p fun q => { q with task := task })
    ht₁.2.1).bind fun _ t₃ ht₃ => ends_updateSystem_bind (ends_pure ?_)
  refine Or.inr ⟨rfl, ?_, ht₃.2⟩
  rw [ht₃.1, System.setProcess_process, Function.update_self]
  exact ht₁.1

/-- The screen of its own does not lie over the task. -/
lemma ends_processStart_screen (h : HeapPlain s.kernel.memory) :
    Ends (processStart p slot hosting) s fun r t => r.1 < 0 ∨ (r.2 = p ∧ (hosting = 0 →
      OffScreen (t.process p).screen (t.process p).task taskSize)) := by
  refine (ends_kzallocCall_housed h (by decide) (by decide)).bind fun stack t ht => ?_
  obtain ⟨-, hplain, m, rfl⟩ := ht
  refine Ends.ite (fun _ => ?_) fun _ => ends_updateSystem_bind ?_
  · exact (ends_processLoadFailed_neg (by decide)).mono fun r s' hr => Or.inl hr
  refine (ends_taskNewCall_housed (s := (s.withMemory m).setProcess p fun q =>
    { q with stack := stack, id := slot }) hplain).bind fun task t₁ ht₁ => ends_updateSystem_bind ?_
  obtain ⟨F, hF, htask⟩ := ht₁
  refine ends_processMapMemory.bind fun res t₂ ht₂ => ?_
  obtain ⟨rfl, -⟩ := ht₂
  refine Ends.ite (fun hneg => ?_) fun _ => ?_
  · exact (ends_processLoadFailed_neg hneg).mono fun r s' hr => Or.inl hr
  have hguard : GuardedKernel (confinedGuard F) (fun _ => True)
      (t₁.setProcess p fun q => { q with task := task }).kernel := ⟨hF, fun _ _ _ => trivial⟩
  refine (ends_processSetHost_off hguard).bind fun _ t₃ ht₃ => ?_
  refine ends_updateSystem_bind (ends_pure (Or.inr ⟨rfl, fun hzero => ?_⟩))
  rw [ht₃.1, System.setProcess_process, Function.update_self]
  exact ht₃.2 hzero task taskSize htask

/-! ## The whole load -/

/-- A load fails, or takes a structure and starts the process. -/
lemma ends_processLoad_cases {R : Ptr → System → Prop} {Q : ℤ × Ptr → System → Prop}
    (halloc : Ends (kzallocCall processSize) s R)
    (h : ∀ slot p t, p ≠ 0 → R p t →
      Ends (processLoadData filename now p) (t.setProcess p fun _ => .zero) fun _ u =>
        Ends (processStart p slot hosting) u fun r v => r.1 < 0 ∨ Q r v) :
    Ends (processLoad filename now hosting) s fun r v => r.1 < 0 ∨ Q r v := by
  refine ends_getSystem_bind ?_
  rcases processGetFreeSlot s with _ | slot
  · exact ends_pure (Or.inl (by decide))
  refine ends_getSystem_bind (Ends.ite (fun _ => ends_stuck) fun _ => ?_)
  refine halloc.bind fun p t ht => Ends.ite (fun _ => ends_stuck) fun hp => ?_
  refine ends_updateSystem_bind ((h slot p t hp ht).bind fun res u hu => ?_)
  refine Ends.ite (fun hneg => ?_) fun _ => hu
  exact (ends_processLoadFailed_neg hneg).mono fun r v hr => Or.inl hr

/-- Loading the program data keeps the guard. -/
lemma ends_processLoadData_guarded (hC : Spares G C filename) (hs : GuardedKernel G C s.kernel) :
    Ends (processLoadData filename now p) (s.setProcess p fun _ => .zero) fun _ t =>
      GuardedKernel G C t.kernel := by
  have hself : (s.setProcess p fun _ => .zero).process p = .zero := Function.update_self _ _ _
  intro r t hrun
  exact (ends_processLoadData (s := s.setProcess p fun _ => .zero) hC hs (by rw [hself]; rfl)
    (by rw [hself]; rfl) r t hrun).1

/-- The structure, the task and the screen of a new process lie apart from what is housed. -/
lemma ends_processLoad_off (hC : Spares G C filename) (hs : GuardedKernel G C s.kernel) :
    Ends (processLoad filename now hosting) s fun r t =>
      r.1 < 0 ∨ (G.Off r.2 processSize ∧ NewOff G hosting (t.process r.2)) := by
  refine ends_processLoad_cases (ends_kzallocCall_off hs requestBlocks_fits.1 (by decide))
    fun slot p t _ ht => ?_
  refine (ends_processLoadData_guarded hC ht.2.1).mono fun _ u hu => ?_
  refine (ends_processStart_off hu).mono fun r v hv => hv.imp_right fun h => ?_
  rw [h.1]
  exact ⟨ht.1, h.2⟩

/-- A screen of its own lies apart from the structure and the task. -/
lemma SafeLoad.ends_processLoad_screen (h : SafeLoad filename s) :
    Ends (processLoad filename now hosting) s fun r t => r.1 < 0 ∨ (hosting = 0 →
      OffScreen (t.process r.2).screen r.2 processSize ∧
        OffScreen (t.process r.2).screen (t.process r.2).task taskSize) := by
  refine ends_processLoad_cases (ends_kzallocCall_housed h.plain (by decide) requestBlocks_fits.1)
    fun slot p t hp ht => ?_
  obtain ⟨hhoused, hplain, m, rfl⟩ := ht
  obtain ⟨F, hF, hself⟩ := hhoused hp
  have hdata : Ends (processLoadData filename now p) ((s.withMemory m).setProcess p fun _ => .zero)
      fun _ u => GuardedKernel (confinedGuard F) (fun mt => ¬ mt.RootFile (namesOf filename))
        u.kernel ∧ HeapPlain u.kernel.memory := by
    intro r u hrun
    refine ⟨ends_processLoadData_guarded (s := s.withMemory m) spares_nested ⟨hF, h.nested⟩ r u
      hrun, ?_⟩
    exact (ends_processLoadData_guarded (s := s.withMemory m) (G := plainGuard) spares_nested
      ⟨hplain, h.nested⟩ r u hrun).holds
  refine hdata.mono fun _ u hu r v hrun => ?_
  rcases ends_processStart_off hu.1 r v hrun with hneg | ⟨rfl, hoff⟩
  · exact Or.inl hneg
  rcases ends_processStart_screen hu.2 r v hrun with hneg | ⟨-, hscreen⟩
  · exact Or.inl hneg
  · exact Or.inr fun hzero => ⟨hoff.screen_off hzero _ _ hself, hscreen hzero⟩

/-- A load keeps every guard for which it is spared. -/
lemma ends_processLoad_guarded (hC : Spares G C filename) (hs : GuardedKernel G C s.kernel) :
    Ends (processLoad filename now hosting) s fun _ t => GuardedKernel G C t.kernel := by
  refine ends_getSystem_bind ?_
  rcases processGetFreeSlot s with _ | slot
  · exact ends_pure hs
  refine ends_getSystem_bind (Ends.ite (fun _ => ends_stuck) fun _ => ?_)
  refine (ends_kzallocCall processSize hs).bind fun process t ht => ?_
  exact Ends.ite (fun _ => ends_stuck) fun _ => ends_processLoadRest hC ht.2.1

/-- Behind a load that frees only what it takes, the same is true of other loads. -/
lemma SafeLoad.ends_processLoad (h : SafeLoad filename s) :
    Ends (processLoad filename now hosting) s fun _ t => ∀ f, SafeLoad f s → SafeLoad f t := by
  intro r t hrun f hf
  -- the volumes are those that were mounted, with other disks
  have hspares : ∀ G, Spares G (fun mt => ¬ mt.RootFile (namesOf filename) ∧
      ∃ i mt₀ disk, s.kernel.disks i = some (some mt₀) ∧ mt = { mt₀ with disk := disk })
      filename := by
    refine fun G => ⟨?_, fun hC hroot => absurd hroot hC.1⟩
    rintro mt disk ⟨hroot, i, mt₀, _, hi, rfl⟩
    exact ⟨hroot, i, mt₀, disk, hi, rfl⟩
  have hconfined := ends_processLoad_guarded (hspares (confinedGuard (blocksFree s.kernel.memory)))
    ⟨h.plain.confined, fun i mt hi => ⟨h.nested i mt hi, i, mt, mt.disk, hi, rfl⟩⟩ r t hrun
  refine ⟨(ends_processLoad_guarded (G := plainGuard) spares_nested
    ⟨h.plain, h.nested⟩ r t hrun).holds, fun i mt hi j hj hfree => ?_, fun i mt hi => ?_⟩
  · obtain ⟨-, i₀, mt₀, _, hi₀, rfl⟩ := hconfined.mounts i mt hi
    obtain ⟨hptr, hitem⟩ := h.roots i₀ mt₀ hi₀ j hj (hconfined.holds.free_mem hj hfree)
    exact ⟨hptr, hitem⟩
  · obtain ⟨-, i₀, mt₀, _, hi₀, rfl⟩ := hconfined.mounts i mt hi
    exact hf.nested i₀ mt₀ hi₀

/-- What a load that fails leaves: what the next one rests on, and what is shown. -/
structure LoadUndone (P T : Ptr → Prop) (l : List (List UInt8)) (s t : System) : Prop where
  safe : LoadsSafe P T l t
  current_eq : t.currentProcess = s.currentProcess
  process_eq : ∀ q, P q → t.process q = s.process q
  display_eq : t.terminal = s.terminal ∧ t.screenStores = s.screenStores
  clear : ∀ G, ClearKernel G s.kernel → ClearKernel G t.kernel

lemma LoadsSafe.failed {l : List (List UInt8)} (h : LoadsSafe P T l s) (hmem : filename ∈ l) :
    Ends (processLoad filename now hosting) s fun r t => r.1 < 0 → LoadUndone P T l s t := by
  intro r t hrun hneg
  have hclear : ∀ G, ClearKernel G s.kernel → ClearKernel G t.kernel := fun G hG =>
    ends_processLoad_guarded spares_clearMount hG r t hrun
  have hapart : Apart (kzalloc s.kernel.memory.heap processSize).2 s t := by
    rcases SerpaeOS.ends_processLoad r t hrun with
      ⟨-, -, rfl⟩ | ⟨_, -, -, -, ⟨-, hapart⟩ | ⟨rfl, -⟩, -⟩
    · exact Apart.refl _ t
    · exact hapart
    · exact absurd hneg (lt_irrefl 0)
  have hprocess : ∀ q, P q → t.process q = s.process q := fun q hq =>
    hapart.process_eq q ((h.process_kept q hq).kept.ne_kzalloc _)
  have hscreen : ∀ q, P q → (t.process q).screen = (s.process q).screen := fun q hq => by
    rw [hprocess q hq]
  refine ⟨⟨h.toSystemKept.congr hclear hscreen, h.toScreensApart.congr hscreen, fun f hf => ?_⟩,
    hapart.current_eq, hprocess, hapart.display_eq, hclear⟩
  exact (h.safe filename hmem).ends_processLoad r t hrun f (h.safe f hf)

/-! ## The switch to the new process -/

/-- What is new lies apart from what is kept. -/
lemma ends_processLoad_kept : Ends (processLoad filename now hosting) s fun r t => r.1 < 0 ∨
    ∀ q n, s.KeptWhole q n → ¬ Overlap r.2 processSize q n ∧
      ¬ Overlap (t.process r.2).task taskSize q n ∧
      (hosting = 0 → OffScreen (t.process r.2).screen q n) := by
  intro r t hrun
  by_cases hneg : r.1 < 0
  · exact Or.inl hneg
  refine Or.inr fun q n hq => ?_
  obtain ⟨a, hq, ha⟩ := hq
  obtain ⟨hprocess, hnew⟩ := (ends_processLoad_off spares_clearMount ha r t hrun).resolve_left hneg
  exact ⟨hprocess q n hq.pinned, hnew.task_off q n hq.pinned,
    fun hzero => hnew.screen_off hzero q n hq.pinned⟩

lemma hostedBy_screen (g : Ptr → Process) : (hostedBy g hosting q).screen = (g q).screen := by
  rw [hostedBy]
  split_ifs
  · by_cases hq : q = hosting
    · rw [hq, Function.update_self]
    · rw [Function.update_of_ne hq]
  · rfl

/-- A load that returns `0` has loaded the process. -/
lemma ends_processLoad_loaded : Ends (processLoad filename now hosting) s fun r t => r.1 < 0 ∨
    (r.1 = 0 ∧ r.2 ≠ 0 ∧ r.2 = (kzalloc s.kernel.memory.heap processSize).2 ∧
      ∃ slot < maxProcesses, s.processes slot = 0 ∧ ProcessLoaded r.2 slot hosting s t) := by
  refine ends_processLoad.mono fun r t hr => ?_
  rcases hr with ⟨-, rfl, -⟩ | ⟨slot, hslot, hfree, hp, ⟨hneg, -⟩ | ⟨rfl, hload⟩, -⟩
  · exact Or.inl (by decide)
  · exact Or.inl hneg
  · exact Or.inr ⟨rfl, hp, rfl, slot, hslot, hfree, hload⟩

/-- Behind a load the screens lie off the structures, those of the new process included. -/
lemma SystemKept.screensApart (h : SystemKept P T s) (hscreens : ScreensApart P T s)
    (hsafe : SafeLoad filename s) (hhost : hosting = 0 ∨ P hosting) :
    Ends (processLoad filename now hosting) s fun r t => r.1 < 0 ∨
      ScreensApart (fun q => q = r.2 ∨ P q) (fun u => u = (t.process r.2).task ∨ T u) t := by
  intro r t hrun
  rcases ends_processLoad_loaded r t hrun with hneg | ⟨hres, hp, hnew, slot, -, -, hload⟩
  · exact Or.inl hneg
  have hpos : ¬ r.1 < 0 := by omega
  have hkept := (ends_processLoad_kept r t hrun).resolve_left hpos
  have hown := (hsafe.ends_processLoad_screen r t hrun).resolve_left hpos
  have hne : ∀ q, P q → q ≠ r.2 := fun q hq => hnew ▸ (h.process_kept q hq).kept.ne_kzalloc _
  -- the screens of the processes that were there
  have hold : ∀ q, P q → (∀ x, x = r.2 ∨ P x → OffScreen (s.process q).screen x processSize) ∧
      ∀ x, x = (t.process r.2).task ∨ T x → OffScreen (s.process q).screen x taskSize := by
    intro q hq
    obtain ⟨hoff, htask, -⟩ := hkept _ _ (h.screen_kept q hq)
    refine ⟨fun x hx => ?_, fun x hx => ?_⟩
    · rcases hx with rfl | hx
      · exact fun hover => hoff hover.symm
      · exact hscreens.process_off q x hq hx
    · rcases hx with rfl | hx
      · exact fun hover => htask hover.symm
      · exact hscreens.task_off q x hq hx
  have hall : ∀ q, q = r.2 ∨ P q →
      (∀ x, x = r.2 ∨ P x → OffScreen (t.process q).screen x processSize) ∧
      ∀ x, x = (t.process r.2).task ∨ T x → OffScreen (t.process q).screen x taskSize := by
    rintro q (rfl | hq)
    · by_cases hzero : hosting = 0
      · refine ⟨fun x hx => ?_, fun x hx => ?_⟩
        · rcases hx with rfl | hx
          · exact (hown hzero).1
          · exact (hkept _ _ (h.process_kept x hx)).2.2 hzero
        · rcases hx with rfl | hx
          · exact (hown hzero).2
          · exact (hkept _ _ (h.task_kept x hx)).2.2 hzero
      · have hP := hhost.resolve_left hzero
        rw [hload.screen_eq hzero (hne _ hP)]
        exact hold hosting hP
    · obtain ⟨f, -, -, -, -, -, hprocess⟩ := hload.process_eq
      have hscreen : (t.process q).screen = (s.process q).screen := by
        rw [hprocess, hostedBy_screen, Function.update_of_ne (hne q hq)]
      rw [hscreen]
      exact hold q hq
  exact Or.inr ⟨fun q x hq => (hall q hq).1 x, fun q x hq => (hall q hq).2 x⟩

/-- The terminal may be cleared afterwards. -/
lemma System.painted_initialized (s : System) (p : Ptr) : Painted A s
    (if (s.process p).host = 0 then { s with terminal := terminalInitialize s.terminal }
      else s) := by
  split_ifs
  · exact ⟨rfl, rfl, rfl, fun _ => Iff.rfl, ⟨_, rfl⟩, fun _ _ => rfl, fun _ _ => rfl⟩
  · exact Painted.refl _ _

/-- The screen of the process that was shown is saved, and the screen of one of these processes is
shown, or one that lies off what is kept. -/
structure Repainted (P : Ptr → Prop) (s s' : System) (screen : ℕ) : Prop where
  stores_eq : s'.screenStores =
    s.screenStores ++ s.switchStores (s.process s.currentProcess).screen screen
  shown : (∃ x, P x ∧ (s.process x).screen = screen) ∨
    ∀ q n, s.KeptWhole q n → OffScreen screen q n

lemma LoadsSafe.repainted {l : List (List UInt8)} {r : ℤ × Ptr} (h : LoadsSafe P T l s)
    (hmem : filename ∈ l) (hhost : hosting = 0 ∨ P hosting) (hcurrent : P s.currentProcess)
    (hload : processLoad filename now hosting s = some (r, t)) (hzero : r.1 = 0) :
    Repainted P s (if ((t.switchTo r.2).process r.2).host = 0 then
      { t.switchTo r.2 with terminal := terminalInitialize (t.switchTo r.2).terminal }
        else t.switchTo r.2) (t.process r.2).screen := by
  have hpos : ¬ r.1 < 0 := by omega
  obtain ⟨-, -, hnew, slot, -, -, hloaded⟩ := (ends_processLoad_loaded r t hload).resolve_left hpos
  have happ := (h.screensApart h.toScreensApart (h.safe filename hmem) hhost r t
    hload).resolve_left hpos
  have hkept := (ends_processLoad_kept r t hload).resolve_left hpos
  have hne : ∀ q, P q → q ≠ r.2 := fun q hq => hnew ▸ (h.process_kept q hq).kept.ne_kzalloc _
  obtain ⟨f, -, -, -, -, -, hprocess⟩ := hloaded.process_eq
  have hscreen : (t.process t.currentProcess).screen = (s.process s.currentProcess).screen := by
    rw [hloaded.current_eq, hprocess, hostedBy_screen, Function.update_of_ne (hne _ hcurrent)]
  have hP : P t.currentProcess := hloaded.current_eq ▸ hcurrent
  refine ⟨?_, ?_⟩
  · have hstores := t.switchTo_screenStores hscreen rfl
      (hscreen ▸ happ.process_off _ _ (Or.inr hP) (Or.inr hP))
      (hscreen ▸ happ.process_off _ _ (Or.inr hP) (Or.inl rfl))
    rw [hloaded.display_eq.2, System.switchStores, hloaded.display_eq.1] at hstores
    split_ifs
    · exact hstores
    · exact hstores
  · by_cases hzero : hosting = 0
    · exact Or.inr fun q n hq => (hkept q n hq).2.2 hzero
    · have hPh := hhost.resolve_left hzero
      exact Or.inl ⟨hosting, hPh, (hloaded.screen_eq hzero (hne _ hPh)).symm⟩

/-- A load that switches to the new process leaves the structures in use as the load alone does. -/
lemma LoadsSafe.ends_processLoadSwitch {l : List (List UInt8)} (h : LoadsSafe P T l s)
    (hmem : filename ∈ l) (hhost : hosting = 0 ∨ P hosting) (hcurrent : P s.currentProcess) :
    Ends (processLoadSwitch filename now hosting) s fun r s' => ∃ t,
      processLoad filename now hosting s = some (r, t) ∧ ((r.1 < 0 ∧ s' = t) ∨ (r.1 = 0 ∧
        Painted (InUse (fun q => q = r.2 ∨ P q) fun u => u = (t.process r.2).task ∨ T u)
          { t with currentProcess := r.2 } s' ∧ ∃ screen, Repainted P s s' screen)) := by
  intro r s' hrun
  obtain ⟨r, t, hload, hrun⟩ := bind_eq_some hrun
  have hloaded := ends_processLoad_loaded r t hload
  split_ifs at hrun with hzero
  · obtain ⟨_, u, hu, hrun⟩ := bind_eq_some hrun
    obtain ⟨_, v, hv, hrun⟩ := bind_eq_some hrun
    cases hu
    cases hrun
    obtain ⟨-, -, hnew, slot, -, -, hprocess⟩ := hloaded.resolve_left (by omega)
    have happ := (h.screensApart h.toScreensApart (h.safe filename hmem) hhost r t
      hload).resolve_left (by omega)
    have hpaint := happ.painted_switchTo (p := r.2)
      (Or.inr (hprocess.current_eq ▸ hcurrent)) (Or.inl rfl)
    cases hv
    refine ⟨t, hload, Or.inr ⟨hzero, hpaint.trans (System.painted_initialized _ _), _,
      h.repainted hmem hhost hcurrent hload hzero⟩⟩
  · cases hrun
    exact ⟨_, hload, Or.inl ⟨hloaded.resolve_right fun hr => hzero hr.1, rfl⟩⟩

end SerpaeOS
