import SerpaeOS.Fs.FileHolds
import SerpaeOS.Task.Commands
import SerpaeOS.Task.Kept

/-!
# A command whose program cannot be loaded

`isr80h_command7_invoke_system_command` tries three locations.  A load that fails takes the task
it has appended off the list again, so behind the attempts everything that was there before is as
it was.  The flag of the host is set in front of the attempts, and no path clears it.
-/

namespace SerpaeOS

open Links Prog TaskList

/-- Following `next` from `task_head` visits the tasks of the list and ends at `task_tail`; the
current task is one of them, and their blocks are taken. -/
structure TasksKept (live : List Ptr) (s : System) : Prop where
  seg : Seg s.sched.next s.sched.taskHead live 0
  tail_eq : s.sched.taskTail = live.getLastD 0
  current_mem : s.sched.currentTask ∈ live
  kept : ∀ t ∈ live, s.Kept t

/-- What is left behind failed attempts: the table of processes, and of the structures of
processes and tasks those that are kept. -/
structure Undone (s s' : System) : Prop where
  processes_eq : s'.processes = s.processes
  current_eq : s'.currentProcess = s.currentProcess
  process_eq : ∀ q, s.Kept q → s'.process q = s.process q
  head_eq : s'.sched.taskHead = s.sched.taskHead
  tail_eq : s'.sched.taskTail = s.sched.taskTail
  task_eq : s'.sched.currentTask = s.sched.currentTask
  mem_eq : ∀ q, s.Kept q → s'.sched.mem q = s.sched.mem q
  clear : ∀ G, ClearKernel G s.kernel → ClearKernel G s'.kernel

/-- The caller is as runnable as before: its flag, the table of processes, the current process
and the list of tasks are as they were. -/
structure AsRunnable (live : List Ptr) (s s' : System) : Prop where
  hosting_eq : (s'.process s.callingProcess).currentlyHosting =
    (s.process s.callingProcess).currentlyHosting
  processes_eq : s'.processes = s.processes
  current_eq : s'.currentProcess = s.currentProcess
  list_eq : s'.sched.taskHead = s.sched.taskHead ∧ s'.sched.taskTail = s.sched.taskTail ∧
    s'.sched.currentTask = s.sched.currentTask
  tasks_eq : ∀ t ∈ live, s'.sched.mem t = s.sched.mem t

/-- The attempts to load the program, with what is done in front of them. -/
def loadCandidates (hosted : Bool) (program : List UInt8) (now : ℕ) : SystemProg (Option Ptr) := do
  let host ← sleepHost hosted
  runLocations program now host commandLocations

/-- The command has an argument that is not empty, and no location has a program that can be
loaded. -/
def NoCandidate (atNull : List UInt8) (arguments : List (List UInt8)) (now : ℕ) (s s' : System) :
    Prop :=
  arguments.headD [] ≠ [] ∧
    loadCandidates (AsksHost arguments)
      (if AsksHost arguments then arguments.tail.headD atNull else arguments.headD []) now s =
        some (none, s')

variable {G : Guard} {C : FatMount → Prop} {s s' t : System} {p q host : Ptr} {live : List Ptr}
  {filename program location atNull : List UInt8} {now slot : ℕ}

/-! ## The list of tasks -/

/-- A task that is appended to the list and freed again leaves no trace. -/
lemma taskFree_taskNew (s : Sched) (info : ProcessInfo) {task chunk : Ptr} (htask : task ≠ 0)
    (hchunk : chunk ≠ 0) (hhead : s.taskHead ≠ 0) (htail : s.taskTail ≠ 0)
    (hnext : s.next s.taskTail = 0) (hne : task ≠ s.taskHead ∧ task ≠ s.taskTail ∧
      task ≠ s.currentTask) :
    (taskFree (taskNew s info task chunk).1 task).taskHead = s.taskHead ∧
      (taskFree (taskNew s info task chunk).1 task).taskTail = s.taskTail ∧
      (taskFree (taskNew s info task chunk).1 task).currentTask = s.currentTask ∧
      ∀ q, q ≠ task → (taskFree (taskNew s info task chunk).1 task).mem q = s.mem q := by
  obtain ⟨v, hv, -, hnew⟩ := taskNew_eq s info htask hchunk
  have happend : taskAppend (s.store task v) task =
      { ((s.store task v).setNext s.taskTail task).setPrev task s.taskTail with
        taskTail := task } := by
    rw [taskAppend, if_neg (by exact hhead)]
    rfl
  simp only [hnew, happend]
  generalize hu : { ((s.store task v).setNext s.taskTail task).setPrev task s.taskTail with
    taskTail := task } = u
  have hprev : u.prev task = s.taskTail := by
    rw [← hu]
    simp [Sched.prev, Sched.setPrev, Sched.store]
  have hlink : u.next task = 0 := by
    rw [← hu]
    simp [Sched.next, Sched.setPrev, Sched.setNext, Sched.store, hne.2.1, hv]
  refine ⟨?_, ?_, ?_, fun q hq => ?_⟩
  · rw [taskFree_taskHead, ← hu]
    exact if_neg hne.1
  · rw [taskFree_taskTail, hprev, ← hu]
    exact if_pos rfl
  · rw [taskFree_currentTask, ← hu]
    exact if_neg hne.2.2
  · change (linkPast u task).mem q = s.mem q
    rw [linkPast_of_ne (hprev ▸ htail), hprev, hlink, ← hu]
    by_cases hlast : q = s.taskTail
    · subst hlast
      simp only [Sched.setNext, Sched.setPrev, mem_store_self]
      rw [mem_store_of_ne _ _ hq, mem_store_self, mem_store_of_ne _ _ hq, ← hnext]
      rfl
    · simp only [Sched.setNext, Sched.setPrev]
      rw [mem_store_of_ne _ _ hlast]
      change (((s.store task v).store _ _).store task _).mem q = _
      rw [mem_store_of_ne _ _ hq, mem_store_of_ne _ _ hlast, mem_store_of_ne _ _ hq]

/-! ## What is kept -/

lemma TasksKept.ne_nil (h : TasksKept live s) : live ≠ [] := List.ne_nil_of_mem h.current_mem

lemma TasksKept.head_mem (h : TasksKept live s) : s.sched.taskHead ∈ live := by
  obtain ⟨task, rest, rfl⟩ := List.exists_cons_of_ne_nil h.ne_nil
  rw [h.seg.1]
  exact List.mem_cons_self

lemma TasksKept.tail_mem (h : TasksKept live s) : s.sched.taskTail ∈ live := by
  rw [h.tail_eq, List.getLastD_eq_getLast?, List.getLast?_eq_getLast_of_ne_nil h.ne_nil]
  exact List.getLast_mem h.ne_nil

/-- The list ends at its tail. -/
lemma TasksKept.next_tail (h : TasksKept live s) : s.sched.next s.sched.taskTail = 0 := by
  obtain ⟨rest, task, hlive⟩ := (List.eq_nil_or_concat live).resolve_left h.ne_nil
  rw [List.concat_eq_append] at hlive
  have hseg := h.seg
  rw [hlive, seg_append] at hseg
  obtain ⟨m, -, rfl, hnext⟩ := hseg
  rw [h.tail_eq, hlive, List.getLastD_concat]
  exact hnext

lemma TasksKept.congr (h : TasksKept live s) (hsched : t.sched = s.sched)
    (hclear : ∀ G, ClearKernel G s.kernel → ClearKernel G t.kernel) : TasksKept live t := by
  refine ⟨?_, ?_, ?_, fun task htask => (h.kept task htask).mono hclear⟩
  · rw [hsched]
    exact h.seg
  · rw [hsched]
    exact h.tail_eq
  · rw [hsched]
    exact h.current_mem

lemma Undone.refl (s : System) : Undone s s :=
  ⟨rfl, rfl, fun _ _ => rfl, rfl, rfl, rfl, fun _ _ => rfl, fun _ h => h⟩

lemma Undone.trans (h : Undone s t) (h' : Undone t s') : Undone s s' where
  processes_eq := h'.processes_eq.trans h.processes_eq
  current_eq := h'.current_eq.trans h.current_eq
  process_eq q hq := (h'.process_eq q (hq.mono h.clear)).trans (h.process_eq q hq)
  head_eq := h'.head_eq.trans h.head_eq
  tail_eq := h'.tail_eq.trans h.tail_eq
  task_eq := h'.task_eq.trans h.task_eq
  mem_eq q hq := (h'.mem_eq q (hq.mono h.clear)).trans (h.mem_eq q hq)
  clear b hb := h'.clear b (h.clear b hb)

/-- The list of tasks is one of the things left as they were. -/
lemma Undone.tasksKept (h : Undone s t) (hs : TasksKept live s) : TasksKept live t := by
  have hmem : ∀ task ∈ live, t.sched.mem task = s.sched.mem task :=
    fun task htask => h.mem_eq task (hs.kept task htask)
  refine ⟨?_, h.tail_eq.trans hs.tail_eq, ?_, fun task htask => (hs.kept task htask).mono h.clear⟩
  · rw [h.head_eq]
    refine hs.seg.congr fun task htask => ?_
    rw [Sched.next, hmem task htask]
    rfl
  · rw [h.task_eq]
    exact hs.current_mem

/-! ## One attempt -/

/-- The list of tasks behind a failed load. -/
structure TasksRestored (s s' : System) : Prop where
  head_eq : s'.sched.taskHead = s.sched.taskHead
  tail_eq : s'.sched.taskTail = s.sched.taskTail
  task_eq : s'.sched.currentTask = s.sched.currentTask
  mem_eq : ∀ q, s.Kept q → s'.sched.mem q = s.sched.mem q

lemma TasksRestored.of_eq (h : s'.sched = s.sched) : TasksRestored s s' :=
  ⟨by rw [h], by rw [h], by rw [h], fun _ _ => by rw [h]⟩

lemma ends_processLoadFailed_sched {res : ℤ} : Ends (processLoadFailed p res) s fun _ s' =>
    s'.sched =
      if (s.process p).task ≠ 0 then taskFree s.sched (s.process p).task else s.sched := by
  have hfree : Ends (processFreeTask p) s fun _ t => t.sched =
      if (s.process p).task ≠ 0 then taskFree s.sched (s.process p).task else s.sched := by
    refine ends_getSystem_bind (Ends.ite (fun htask => ?_) fun htask => ?_)
    · rw [if_pos htask]
      refine ends_getSystem_bind ((ends_onSystemMemory _).bind fun _ t ht => ?_)
      obtain ⟨m, rfl⟩ := ht
      intro _ s' hrun
      cases hrun
      rfl
    · rw [if_neg htask]
      exact ends_pure rfl
  refine hfree.bind fun _ t ht => ?_
  refine runs_processFreeProgramData.ends.bind fun _ t' ht' => ?_
  obtain ⟨⟨m, rfl⟩, -⟩ := ht'
  exact ends_pure ht

/-- The task that a load appends is freed when the load fails. -/
lemma ends_processStart_tasks {hosting : Ptr} (h : TasksKept live s)
    (htask : (s.process p).task = 0) :
    Ends (processStart p slot hosting) s fun r s' => r.1 < 0 → TasksRestored s s' := by
  refine (ends_kzallocCall_kept userProgramStackSize).bind fun stack t ht => ?_
  obtain ⟨⟨m, rfl⟩, hclear⟩ := ht
  refine Ends.ite (fun _ => ?_) fun _ => ends_updateSystem_bind ?_
  · refine ends_processLoadFailed_sched.mono fun r s' hs' _ => TasksRestored.of_eq ?_
    rw [hs', if_neg]
    · rfl
    · rw [System.withMemory_process, htask]
      exact not_not.mpr rfl
  have hnew : Ends (taskNewCall p) ((s.withMemory m).setProcess p fun q =>
      { q with stack := stack, id := slot }) fun task t => (∀ q, s.Kept q → task ≠ q) ∧
        ∃ info chunk, task ≠ 0 ∧ chunk ≠ 0 ∧ t.sched = (taskNew s.sched info task chunk).1 := by
    intro task t hrun
    obtain ⟨m', info, chunk, _, ⟨hne, hchunk, -⟩, rfl⟩ := ends_taskNewCall task t hrun
    refine ⟨?_, info, chunk, hne, hchunk, rfl⟩
    rintro q ⟨a, hq, ha⟩ rfl
    exact hq (ends_taskNewCall_clear (s := (s.withMemory m).setProcess p fun q =>
      { q with stack := stack, id := slot }) (hclear _ ha) task _ hrun).2.1.ptr
  refine hnew.bind fun task t ht => ends_updateSystem_bind ?_
  obtain ⟨hfresh, info, chunk, hne, hchunk, hsched⟩ := ht
  refine ends_processMapMemory.bind fun res t' ht' => ?_
  obtain ⟨rfl, -⟩ := ht'
  refine Ends.ite (fun _ => ?_) fun hpos => ?_
  · refine ends_processLoadFailed_sched.mono fun r s' hs' _ => ?_
    rw [System.setProcess_process, Function.update_self, if_pos hne, System.setProcess_sched,
      hsched] at hs'
    obtain ⟨hhead, htail, hcurrent, hmem⟩ := taskFree_taskNew s.sched info hne hchunk
      (h.kept _ h.head_mem).ne_zero (h.kept _ h.tail_mem).ne_zero h.next_tail
      ⟨hfresh _ (h.kept _ h.head_mem), hfresh _ (h.kept _ h.tail_mem),
        hfresh _ (h.kept _ h.current_mem)⟩
    rw [← hs'] at hhead htail hcurrent hmem
    exact ⟨hhead, htail, hcurrent, fun q hq => hmem q (hfresh q hq).symm⟩
  · refine Ends.bind (P := fun _ _ => True) (fun _ _ _ => trivial) fun _ t₁ _ => ?_
    exact ends_updateSystem_bind (ends_pure fun hneg => absurd hneg hpos)

lemma ends_processLoadForSlot_tasks {hosting : Ptr} (h : TasksKept live s) :
    Ends (processLoadForSlot filename now slot hosting) s fun r s' => r.1 < 0 →
      TasksRestored s s' := by
  refine ends_getSystem_bind (Ends.ite (fun _ => ends_stuck) fun _ => ?_)
  refine (ends_kzallocCall_kept processSize).bind fun process t ht => ?_
  obtain ⟨⟨m, rfl⟩, hclear⟩ := ht
  refine Ends.ite (fun _ => ends_stuck) fun _ => ends_updateSystem_bind ?_
  have hself : ((s.withMemory m).setProcess process fun _ => .zero).process process = .zero :=
    Function.update_self _ _ _
  have hdata : Ends (processLoadData filename now process)
      ((s.withMemory m).setProcess process fun _ => .zero) fun _ t =>
        t.sched = s.sched ∧ (t.process process).task = 0 ∧
          ∀ G, ClearKernel G s.kernel → ClearKernel G t.kernel := by
    intro r t hrun
    have hload := keeps_processLoadData _ r t (Loading.refl (by rw [hself]; decide)) hrun
    obtain ⟨_, _, _, -, hfields⟩ := hload.fields
    refine ⟨hload.sched_eq, ?_, fun G hG => ?_⟩
    · rw [hfields, hself]
      rfl
    · exact (ends_processLoadData (s := (s.withMemory m).setProcess process fun _ => .zero)
        spares_clearMount (hclear G hG) (by rw [hself]; rfl) (by rw [hself]; rfl) r t hrun).1
  refine hdata.bind fun res t ht => ?_
  obtain ⟨hsched, htask, hkeep⟩ := ht
  refine Ends.ite (fun _ => ?_) fun _ => ?_
  · refine ends_processLoadFailed_sched.mono fun r s' hs' _ => TasksRestored.of_eq ?_
    rw [hs', if_neg (not_not.mpr htask), hsched]
  · refine (ends_processStart_tasks (h.congr hsched hkeep) htask).mono fun r s' hs' hneg => ?_
    obtain ⟨hhead, htail, hcurrent, hmem⟩ := hs' hneg
    rw [hsched] at hhead htail hcurrent hmem
    exact ⟨hhead, htail, hcurrent, fun q hq => hmem q (hq.mono hkeep)⟩

lemma ends_processLoad_tasks {hosting : Ptr} (h : TasksKept live s) :
    Ends (processLoad filename now hosting) s fun r s' => r.1 < 0 → TasksRestored s s' := by
  refine ends_getSystem_bind ?_
  rcases processGetFreeSlot s with _ | slot
  · exact ends_pure fun _ => TasksRestored.of_eq rfl
  · exact ends_processLoadForSlot_tasks h

/-- A load that fails is undone. -/
lemma ends_processLoad_undone {hosting : Ptr} (h : TasksKept live s) :
    Ends (processLoad filename now hosting) s fun r s' => r.1 < 0 → Undone s s' := by
  intro r s' hrun hneg
  obtain ⟨hhead, htail, hcurrent, hmem⟩ := ends_processLoad_tasks h r s' hrun hneg
  have hclear : ∀ G, ClearKernel G s.kernel → ClearKernel G s'.kernel := fun G hG =>
    ends_processLoad_guarded spares_clearMount hG r s' hrun
  rcases ends_processLoad r s' hrun with ⟨-, -, rfl⟩ | ⟨_, -, -, -, ⟨-, hapart⟩ | ⟨rfl, -⟩, -⟩
  · exact Undone.refl s'
  · refine ⟨hapart.processes_eq, hapart.current_eq, fun q hq => ?_, hhead, htail, hcurrent, hmem,
      hclear⟩
    exact hapart.process_eq q (hq.ne_kzalloc _)
  · exact absurd hneg (lt_irrefl 0)

/-! ## All attempts -/

/-- An attempt that fails is undone, and does not switch to the process. -/
lemma ends_run_undone (h : TasksKept live s) :
    Ends (run program location now host) s fun r s' => r.1 ≠ 0 → Undone s s' := by
  have hload : ∀ filename, Ends (processLoad filename now host) s fun r t =>
      r.1 = 0 ∨ Undone s t := by
    intro filename r t hrun
    rcases ends_processLoad r t hrun with ⟨-, rfl, rfl⟩ | ⟨_, -, -, -, ⟨hneg, -⟩ | ⟨rfl, -⟩, -⟩
    · exact Or.inr (Undone.refl t)
    · exact Or.inr (ends_processLoad_undone h r t hrun hneg)
    · exact Or.inl rfl
  refine (hload _).bind fun r t ht => Ends.ite (fun hzero => ?_) fun hne => ?_
  · exact Ends.bind (P := fun _ _ => True) (fun _ _ _ => trivial) fun _ _ _ =>
      ends_pure fun hne => absurd hzero hne
  · exact ends_pure fun _ => ht.resolve_left hne

/-- If no location has the program, all attempts are undone. -/
lemma ends_runLocations_undone (locations : List (List UInt8)) : ∀ {s : System},
    TasksKept live s → Ends (runLocations program now host locations) s fun r s' =>
      r = none → Undone s s' := by
  induction locations with
  | nil => exact fun _ => ends_pure fun _ => Undone.refl _
  | cons location rest ih =>
    intro s h
    refine (ends_run_undone h).bind fun r t ht => Ends.ite (fun hne => ?_) fun _ => ?_
    · have hundone := ht hne
      exact (ih (hundone.tasksKept h)).mono fun r' s' hs' hnone => hundone.trans (hs' hnone)
    · exact ends_pure fun hnone => nomatch hnone

/-- The attempts keep the blocks that are kept, whatever they come to. -/
lemma ends_runLocations_holds (locations : List (List UInt8)) : ∀ {s : System},
    ClearKernel G s.kernel → Ends (runLocations program now host locations) s fun _ s' =>
      G.holds s'.kernel.memory := by
  have hload : ∀ (filename : List UInt8) {s : System}, ClearKernel G s.kernel →
      Ends (processLoadSwitch filename now host) s fun r s' => G.holds s'.kernel.memory ∧
        (r.1 ≠ 0 → ClearKernel G s'.kernel) := by
    intro filename s hs
    refine (ends_processLoad_guarded spares_clearMount hs).bind fun r t ht => ?_
    refine Ends.ite (fun hzero => ?_) fun _ => ends_pure ⟨ht.holds, fun _ => ht⟩
    intro r' s' hrun
    obtain ⟨_, u, hu, hrun⟩ := bind_eq_some hrun
    obtain ⟨_, v, hv, hrun⟩ := bind_eq_some hrun
    cases hu
    cases hrun
    cases hv
    have hpaint := (t.painted_switchTo r.2).trans
      ((t.switchTo r.2).painted_initialized (A := fun _ _ => False) r.2)
    refine ⟨?_, fun hne => absurd hzero hne⟩
    rw [hpaint.memory_eq]
    exact ht.holds
  induction locations with
  | nil => exact fun hs => ends_pure hs.holds
  | cons location rest ih =>
    intro s hs
    have hrun : Ends (run program location now host) s _ := hload (commandPath program location) hs
    exact hrun.bind fun r t ht => Ends.ite (fun hne => ih (ht.2 hne)) fun _ => ends_pure ht.1

lemma ends_loadCandidates_holds {hosted : Bool} (hs : ClearKernel G s.kernel) :
    Ends (loadCandidates hosted program now) s fun _ s' => G.holds s'.kernel.memory := by
  have hsleep : Ends (sleepHost hosted) s fun _ s' => ClearKernel G s'.kernel := by
    cases hosted with
    | false => exact ends_pure hs
    | true => exact ends_getSystem_bind (ends_updateSystem_bind (ends_pure hs))
  exact hsleep.bind fun host t ht => ends_runLocations_holds commandLocations ht

/-- With nothing changed but the flag of the caller, failed attempts leave the caller as runnable
as before if the flag has not changed either. -/
lemma Undone.asRunnable_iff (hlist : TasksKept live s) (hcaller : s.Kept s.callingProcess)
    {f : Process → Process} (h : Undone (s.setProcess s.callingProcess f) s') :
    AsRunnable live s s' ↔ (f (s.process s.callingProcess)).currentlyHosting =
      (s.process s.callingProcess).currentlyHosting := by
  have hflag : s'.process s.callingProcess = f (s.process s.callingProcess) := by
    rw [h.process_eq _ hcaller, System.setProcess_process, Function.update_self]
  constructor
  · intro hsame
    rw [← hsame.hosting_eq, hflag]
  · intro heq
    refine ⟨by rw [hflag, heq], h.processes_eq, h.current_eq, ⟨h.head_eq, h.tail_eq, h.task_eq⟩, ?_⟩
    exact fun task htask => h.mem_eq task (hlist.kept task htask)

lemma loadCandidates_asRunnable_iff {hosted : Bool} (hlist : TasksKept live s)
    (hcaller : s.Kept s.callingProcess)
    (hrun : loadCandidates hosted program now s = some (none, s')) :
    AsRunnable live s s' ↔
      hosted = false ∨ (s.process s.callingProcess).currentlyHosting = true := by
  cases hosted with
  | false =>
    have hundone : Undone s s' := ends_runLocations_undone commandLocations hlist none s' hrun rfl
    have hsame : s.setProcess s.callingProcess (fun p => p) = s := by
      rw [System.setProcess, Function.update_eq_self]
    rw [← hsame] at hundone
    exact iff_of_true ((hundone.asRunnable_iff hlist hcaller).mpr rfl) (Or.inl rfl)
  | true =>
    have hundone := ends_runLocations_undone commandLocations
      (s := s.setProcess s.callingProcess fun p => { p with currentlyHosting := true })
      (hlist.congr rfl fun _ hb => hb) none s' hrun rfl
    rw [hundone.asRunnable_iff hlist hcaller]
    exact ⟨fun h => Or.inr h.symm, fun h => (h.resolve_left Bool.noConfusion).symm⟩

/-- The command returns the error after the last attempt. -/
lemma NoCandidate.invoke {arguments : List (List UInt8)}
    (h : NoCandidate atNull arguments now s s') :
    isr80hCommand7InvokeSystemCommand atNull arguments now s = some (.error (-einvarg), s') := by
  obtain ⟨hne, hrun⟩ := h
  have hinvoke : ∀ hosted program root, loadCandidates hosted program now s = some (none, s') →
      invokeProgram hosted program root now s = some (.error (-einvarg), s') := by
    intro hosted program root hrun
    obtain ⟨host, t, hsleep, hrun⟩ := bind_eq_some hrun
    change (sleepHost hosted s).bind _ = _
    rw [hsleep]
    change (runLocations program now host commandLocations t).bind _ = _
    rw [hrun]
    rfl
  rcases arguments with _ | ⟨argument, next⟩
  · exact absurd rfl hne
  change (if argument = [] then _ else if istrncmp hostWord argument argumentSize = 0 then _ else
    invokeProgram false argument (argument :: next) now : SystemProg _) s = _
  rw [if_neg (by exact hne)]
  by_cases hhost : AsksHost (argument :: next)
  · rw [if_pos hhost, decide_eq_true hhost] at hrun
    rw [if_pos (by exact hhost)]
    exact hinvoke _ _ _ hrun
  · rw [if_neg hhost, decide_eq_false hhost] at hrun
    rw [if_neg (by exact hhost)]
    exact hinvoke _ _ _ hrun

/-- **Commands that are not found.**  When no location has a program that can be loaded, the
command returns `-EINVARG`, and the caller is as runnable as before if and only if it has not
asked for a host or was hosting already. -/
theorem invoke_as_runnable_iff {arguments : List (List UInt8)} (hlist : TasksKept live s)
    (hcaller : s.Kept s.callingProcess) (hnone : NoCandidate atNull arguments now s s') :
    isr80hCommand7InvokeSystemCommand atNull arguments now s = some (.error (-einvarg), s') ∧
      (AsRunnable live s s' ↔ ¬ AsksHost arguments ∨
        (s.process s.callingProcess).currentlyHosting = true) := by
  refine ⟨hnone.invoke, ?_⟩
  rw [loadCandidates_asRunnable_iff hlist hcaller hnone.2, decide_eq_false_iff_not]

/-! ## A missing program -/

lemma loadCandidates_alone :
    loadCandidates false program now s = runLocations program now 0 commandLocations s := rfl

lemma loadCandidates_hosted : loadCandidates true program now s =
    runLocations program now s.callingProcess commandLocations
      (s.setProcess s.callingProcess fun p => { p with currentlyHosting := true }) := rfl

/-- What attempts to load a missing program leave, with a run of `n` free blocks. -/
structure Attempted (s : System) (n : ℕ) (t : System) : Prop where
  processes_eq : t.processes = s.processes
  disks_eq : t.kernel.disks = s.kernel.disks
  holds : Holds t.kernel.memory [] n

lemma Missing.congr {k k' : Kernel} (h : Missing k filename) (hdisks : k'.disks = k.disks) :
    Missing k' filename := by
  simpa only [Missing, diskGet, hdisks] using h

section missing

variable {n : ℕ}

lemma runs_elfLoad_missing (h : Holds s.kernel.memory [] n) (hmissing : Missing s.kernel filename)
    (hroom : 2 * filename.length + 5 ≤ n) :
    Runs (elfLoad filename now) s fun r t => r = (-eio, 0) ∧ t.process = s.process ∧
      Attempted s (n - (2 * filename.length + 5)) t := by
  have hone : blocksFor elfFileSize = 1 := by decide
  have helf := h.allocate elfFileSize (by decide) (by omega)
  refine (runs_onKernel (runs_onMemory helf)).bind fun elfFile t ht => ?_
  obtain ⟨_, ⟨m, ⟨-, hm⟩, rfl⟩, rfl⟩ := ht
  have hm' : Holds m [] (n - blocksFor elfFileSize) := hm.tail
  have hopen : Runs (fopen filename readMode now) { s.kernel with memory := m } fun fd k =>
      fd < 0 ∧ k.disks = s.kernel.disks ∧
        Holds k.memory [] (n - blocksFor elfFileSize - (2 * filename.length + 4)) :=
    Holds.fopen_missing hm' (hmissing.congr rfl) (by decide) (by omega)
  refine (runs_onKernel hopen).bind fun fd t ht => ?_
  obtain ⟨k, ⟨hneg, hdisks, hk⟩, rfl⟩ := ht
  rw [if_pos hneg.le]
  refine (runs_onKernel (Q := fun _ k' => k' = k) ⟨_, _, fclose_zero k, rfl⟩).bind fun _ t ht => ?_
  obtain ⟨_, rfl, rfl⟩ := ht
  rw [hone, Nat.sub_sub] at hk
  exact runs_pure ⟨rfl, rfl, rfl, hdisks, hk.mono (by omega)⟩

/-- An attempt takes the blocks of the structure of the process and of the `elf_file`, beside those
that it frees again. -/
lemma runs_processLoad_missing (h : Holds s.kernel.memory [] n)
    (hmissing : Missing s.kernel filename) (hslot : processGetFreeSlot s = some slot)
    (hroom : 2 * filename.length + 8 ≤ n) :
    Runs (processLoad filename now host) s fun r t => r.1 = -eio ∧
      Attempted s (n - (2 * filename.length + 8)) t := by
  have hthree : blocksFor processSize = 3 := by decide
  have halloc := h.allocate processSize (by decide) (by omega)
  refine runs_processLoad_fails (by decide) (by decide) hslot ?_
  refine (runs_onKernel (runs_onMemory halloc)).mono fun process t ht => ?_
  obtain ⟨_, ⟨m, ⟨hblock, hm⟩, rfl⟩, rfl⟩ := ht
  refine ⟨hblock.ne_zero, ?_⟩
  refine Runs.mono (runs_elfLoad_missing (s := System.setProcess
    { s with kernel := { s.kernel with memory := m } } process fun _ => .zero) hm.tail
    (hmissing.congr rfl) (by omega)) fun r t hr => ?_
  refine ⟨hr.1, ?_, hr.2.2.processes_eq, hr.2.2.disks_eq, ?_⟩
  · rw [hr.2.1, System.setProcess_process, Function.update_self]
  · exact hr.2.2.holds.mono (by omega)

/-- No location has the program. -/
lemma runs_runLocations_missing (hslot : processGetFreeSlot s = some slot) :
    ∀ (locations : List (List UInt8)) {n : ℕ} {t : System},
      (∀ l ∈ locations, Missing s.kernel (commandPath program l) ∧
        (commandPath program l).length ≤ maxPath) →
      Attempted s n t → locations.length * (2 * maxPath + 8) ≤ n →
      ∃ t', runLocations program now host locations t = some (none, t') := by
  intro locations
  induction locations with
  | nil => exact fun _ _ _ => ⟨_, rfl⟩
  | cons location rest ih =>
    intro n t hall ht hroom
    obtain ⟨⟨hmissing, hlen⟩, hrest⟩ := List.forall_mem_cons.mp hall
    rw [List.length_cons, Nat.add_mul, Nat.one_mul] at hroom
    have hslot' : processGetFreeSlot t = some slot := by
      rw [processGetFreeSlot, ht.processes_eq]
      exact hslot
    have hattempt : Runs (processLoad (commandPath program location) now host) t fun r t' =>
        r.1 = -eio ∧ Attempted t (n - (2 * (commandPath program location).length + 8)) t' :=
      runs_processLoad_missing ht.holds (hmissing.congr ht.disks_eq) hslot' (by omega)
    obtain ⟨r, t₁, hload, hr, ht₁⟩ := hattempt
    have hrun : run program location now host t = some (r, t₁) := by
      change (processLoad _ now host t).bind _ = _
      rw [hload]
      change (if r.1 = 0 then _ else _ : SystemProg (ℤ × Ptr)) t₁ = _
      rw [if_neg (by rw [hr]; decide)]
      rfl
    have hnext : Attempted s (n - (2 * maxPath + 8)) t₁ := by
      refine ⟨ht₁.processes_eq.trans ht.processes_eq, ht₁.disks_eq.trans ht.disks_eq, ?_⟩
      exact ht₁.holds.mono (by omega)
    obtain ⟨t', ht'⟩ := ih hrest hnext (by omega)
    refine ⟨t', ?_⟩
    change (run program location now host t).bind _ = _
    rw [hrun]
    change (if r.1 ≠ 0 then _ else _ : SystemProg (Option Ptr)) t₁ = _
    rw [if_pos (by rw [hr]; decide)]
    exact ht'

end missing

/-- The task of the boot process, behind its structure and its screen. -/
def bootTask : Ptr := (kzalloc bootedMemory.heap taskSize).2

def bootTaskMemory : KMemory := bootedMemory.afterKzalloc taskSize

def bootTaskExtents : List BlockTable.Extent :=
  extentAt bootTask (blocksFor taskSize) :: bootExtents

lemma bootTaskMemory_spec : IsBlock bootTask ∧ KernelMemory bootTaskMemory bootTaskExtents ∧
    Roomy bootTaskExtents (4996 - blocksFor taskSize) := by
  obtain ⟨-, hmem, hroomy⟩ := bootedMemory_spec
  exact hmem.afterKzalloc hroomy (by decide) (by decide)

/-- The boot process with its task; the root directory of the volume on disk 0 is empty. -/
def emptySystem : System :=
  { bootSystem (mountedVolume 0) with
    kernel := { (bootSystem (mountedVolume 0)).kernel with memory := bootTaskMemory }
    sched :=
      { mem := fun t => if t = bootTask then { process := bootProcess, mainTask := true } else {}
        taskHead := bootTask
        taskTail := bootTask
        currentTask := bootTask
        chunksFreed := []
        kfreed := [] } }

/-- The structures behind the root directory are kept. -/
lemma emptySystem_kept {q : Ptr} {blocks : ℕ} (hq : IsBlock q) (hpos : 0 < blocks)
    (hmem : extentAt q blocks ∈ bootTaskExtents) (hroot : 2 ≤ (extentAt q blocks).start) :
    emptySystem.Kept q := by
  have hpinned : Pinned (extentAt q blocks) bootTaskMemory :=
    bootTaskMemory_spec.2.1.kernelHeap.pinned hmem hpos (by omega)
  obtain ⟨c, rfl⟩ : ∃ c, q = blockAddress c := ⟨_, hq⟩
  rw [extentAt_blockAddress] at hpinned hroot
  have hinside := hpinned.inside
  simp only at hroot hinside
  refine ⟨⟨c, blocks⟩, ?_, hpinned, fun i mt hi => ?_⟩
  · rw [Clear, blockIndex_blockAddress (by omega)]
    simp only
    omega
  · have hindex : blockIndex (blockAddress 0 + 64) = 0 ∧ blockIndex (blockAddress 1) = 1 := by
      decide
    rw [show mt = mountedVolume 0 from bootSystem_disks hi]
    refine ⟨Or.inl ?_, Or.inl ?_⟩
    · change blockIndex (blockAddress 0 + 64) < (c : ℤ)
      omega
    · change blockIndex (blockAddress 1) < (c : ℤ)
      omega

lemma emptySystem_task :
    emptySystem.sched.mem bootTask = { process := bootProcess, mainTask := true } := by
  simp only [emptySystem, if_true]

lemma emptySystem_tasksKept : TasksKept [bootTask] emptySystem := by
  have hnext : emptySystem.sched.next bootTask = 0 := congrArg Task.next emptySystem_task
  refine ⟨⟨rfl, hnext⟩, rfl, List.mem_singleton_self _, fun t ht => ?_⟩
  rw [List.mem_singleton.mp ht]
  exact emptySystem_kept bootTaskMemory_spec.1 (by decide) List.mem_cons_self (by decide +kernel)

lemma emptySystem_caller : emptySystem.Kept emptySystem.callingProcess := by
  have hcaller : emptySystem.callingProcess = bootProcess := by
    change (emptySystem.sched.mem bootTask).process = bootProcess
    rw [emptySystem_task]
  have hmem : extentAt bootProcess (blocksFor processSize) ∈ bootTaskExtents := by
    rw [bootTaskExtents, bootExtents, bootProcessExtents]
    exact List.mem_cons_of_mem _ (List.mem_cons_of_mem _ List.mem_cons_self)
  rw [hcaller]
  exact emptySystem_kept bootProcessMemory_spec.1 (by decide) hmem (by decide +kernel)

/-- The root directory is empty, and the path of the last location is malformed. -/
lemma emptySystem_missing : ∀ l ∈ commandLocations,
    Missing emptySystem.kernel (commandPath [0x78] l) ∧
      (commandPath [0x78] l).length ≤ maxPath := by
  intro l hl
  simp only [commandLocations, List.mem_cons, List.not_mem_nil, or_false] at hl
  rcases hl with rfl | rfl | rfl
  · exact ⟨Or.inr ⟨mountedVolume 0, _, _, rfl, rfl, rfl⟩, by decide⟩
  · exact ⟨Or.inr ⟨mountedVolume 0, _, _, rfl, rfl, rfl⟩, by decide⟩
  · exact ⟨Or.inl (by decide), by decide⟩

lemma emptySystem_freeSlot : ∃ slot, processGetFreeSlot emptySystem = some slot := by
  obtain ⟨slot, hslot, -⟩ := bootSystem_freeSlot (mountedVolume 0)
  have hprocesses : emptySystem.processes = (bootSystem (mountedVolume 0)).processes := by
    rw [emptySystem]
  rw [processGetFreeSlot] at hslot
  exact ⟨slot, by rw [processGetFreeSlot, hprocesses, hslot]⟩

/-- No location has the program `x`. -/
lemma emptySystem_noCandidate (arguments : List (List UInt8)) (hne : arguments.headD [] ≠ [])
    (hprogram : (if AsksHost arguments then arguments.tail.headD [] else arguments.headD []) =
      [0x78]) :
    ∃ s', NoCandidate [] arguments 0 emptySystem s' := by
  obtain ⟨slot, hslot⟩ := emptySystem_freeSlot
  have hmemory : emptySystem.kernel.memory = bootTaskMemory := by rw [emptySystem]
  have hholds : Holds bootTaskMemory [] (4996 - blocksFor taskSize) :=
    bootedMemory_holds.afterKzalloc (by decide : 0 < taskSize) (by decide)
  have hroom : commandLocations.length * (2 * maxPath + 8) ≤ 4996 - blocksFor taskSize := by
    decide
  have hrun : ∀ host (t : System), t.processes = emptySystem.processes →
      t.kernel = emptySystem.kernel →
      ∃ s', runLocations [0x78] 0 host commandLocations t = some (none, s') := by
    intro host t hprocesses hkernel
    have hsearched : Attempted emptySystem (4996 - blocksFor taskSize) t := by
      refine ⟨hprocesses, by rw [hkernel], ?_⟩
      rw [hkernel, hmemory]
      exact hholds
    exact runs_runLocations_missing hslot commandLocations emptySystem_missing hsearched hroom
  have hload : ∀ hosted, ∃ s', loadCandidates hosted [0x78] 0 emptySystem = some (none, s') := by
    rintro (_ | _)
    · rw [loadCandidates_alone]
      exact hrun 0 emptySystem rfl rfl
    · rw [loadCandidates_hosted]
      exact hrun emptySystem.callingProcess _ rfl rfl
  obtain ⟨s', hs'⟩ := hload (AsksHost arguments)
  refine ⟨s', hne, ?_⟩
  rw [hprogram]
  exact hs'

/-- A program is called by its name. -/
theorem invoke_as_runnable_iff_name : ∃ s',
    isr80hCommand7InvokeSystemCommand [] [[0x78]] 0 emptySystem = some (.error (-einvarg), s') ∧
      (AsRunnable [bootTask] emptySystem s' ↔ ¬ AsksHost [[0x78]] ∨
        (emptySystem.process emptySystem.callingProcess).currentlyHosting = true) := by
  obtain ⟨s', hnone⟩ := emptySystem_noCandidate [[0x78]] (by decide) (by decide)
  exact ⟨s', invoke_as_runnable_iff emptySystem_tasksKept emptySystem_caller hnone⟩

/-- A program is called with `he` in front of its name. -/
theorem not_invoke_as_runnable_host : processGetFreeSlot emptySystem ≠ none ∧
    ∃ s', TasksKept [bootTask] emptySystem ∧ emptySystem.Kept emptySystem.callingProcess ∧
      NoCandidate [] [hostWord, [0x78]] 0 emptySystem s' ∧
      isr80hCommand7InvokeSystemCommand [] [hostWord, [0x78]] 0 emptySystem =
        some (.error (-einvarg), s') ∧
      ¬ AsRunnable [bootTask] emptySystem s' := by
  have hhost : AsksHost [hostWord, [0x78]] := by decide
  obtain ⟨slot, hslot⟩ := emptySystem_freeSlot
  obtain ⟨s', hnone⟩ := emptySystem_noCandidate [hostWord, [0x78]] (by decide)
    (by decide)
  refine ⟨hslot ▸ Option.some_ne_none slot, s', emptySystem_tasksKept, emptySystem_caller, hnone,
    hnone.invoke, ?_⟩
  rw [loadCandidates_asRunnable_iff emptySystem_tasksKept emptySystem_caller hnone.2,
    decide_eq_false_iff_not]
  rintro (hno | hhosting)
  · exact hno hhost
  · exact absurd hhosting (by decide)

end SerpaeOS
