import SerpaeOS.Task.Invoke
import SerpaeOS.Task.Order
import SerpaeOS.Task.Ticks

/-!
# The clock goes on

`task_next` panics when it comes to the end of the list without a task that is awake.  The main
task of a guest is appended behind all tasks of its host, and no process that sleeps starts a
thread: along a run of commands the last task of the list belongs to a process that is awake, as
long as no host is ended before its guest and no link back that is used is stale.
-/

namespace SerpaeOS

open Bytes Links Prog StepRun TaskList

variable {s s' t : System} {p q task hosting : Ptr} {live l₁ l₂ : List Ptr} {slot now : ℕ}
  {filename program atNull : List UInt8}

/-! ## Commands and faults -/

/-- `task_add_to_process`. -/
def taskAddCall (process : Ptr) (addr : ℕ) : SystemProg (Except ℤ Ptr) := do
  let task ← kzallocCall taskSize
  if task = 0 then stuck
  else do
    let s ← getSystem
    let p := s.process process
    let entry := u32le s.memory.at ((s.elfFile p.data).elfMemory + 24)
    let added := taskAddToProcess s.sched ⟨process, p.filetype, entry, p.task⟩ addr task
    updateSystem fun s => { s with sched := added.1 }
    match added.2 with
    | .ok task => return .ok task
    | .error res => do
      kfreeCall task
      return .error res

/-- `isr80h_command16_new_thread`, without the words on the stack of the new thread. -/
def startThread (addr : ℕ) : SystemProg Unit := do
  let s ← getSystem
  let added ← taskAddCall s.callingProcess addr
  match added with
  | .ok task => taskSwitch task
  | .error _ => return ()

/-- What `idt_handle_exception_generic` does with a thread other than the main one. -/
def endThread : SystemProg Unit := do
  let s ← getSystem
  if (s.sched.mem s.sched.currentTask).mainTask then stuck
  else taskFreeCall s.sched.currentTask

/-- What changes the tasks: the clock, a function key, the commands of the current task that load
programs and start threads, the end of a process by itself, by a fault or by another process, and
a fault in another thread.  Behind the end of the current task the clock ticks. -/
inductive ClockOp
  | tick
  | flip (id : ℤ)
  | loadStart (filename : List UInt8) (now : ℕ)
  | invoke (atNull : List UInt8) (arguments : List (List UInt8)) (now : ℕ)
  | thread (addr : ℕ)
  | terminate (process : Ptr)
  | threadFault

def clockStep (s : System) : ClockOp → Option System
  | .tick => (taskNext s).map Prod.snd
  | .flip id => (processFlip id s).map Prod.snd
  | .loadStart filename now => (isr80hCommand6ProcessLoadStart filename now s).map Prod.snd
  | .invoke atNull arguments now =>
    (isr80hCommand7InvokeSystemCommand atNull arguments now s).map Prod.snd
  | .thread addr => (startThread addr s).map Prod.snd
  | .terminate process => (processTerminate process s).map Prod.snd
  | .threadFault => (endThread s).map Prod.snd

/-- Only live processes are terminated, and process `0` is not. -/
def ClockLegal (s : System) : ClockOp → Prop
  | .terminate process => s.Live process ∧ process ≠ s.processes 0
  | _ => True

/-- Structures are made and programs loaded while what is in use is in blocks that stay taken, and
what is stored in the screens lies off the structures in use.  A command that asks for a host
finds its program, and threads are started by processes that are awake.  A process that is
terminated has no guest, its host has no other guest, and the links back of its tasks are those
of tasks in front that do not belong to it; the link back of a thread that fails is right. -/
def ClockSound (s : System) : ClockOp → Prop
  | .tick => True
  | .flip id => 0 ≤ id → s.processes id.toNat ≠ 0 →
    ∀ live, Ordered s.sched live → ScreensApart s.Live (· ∈ live) s
  | .loadStart filename _ => ∀ live, Ordered s.sched live →
    LoadsSafe s.Live (· ∈ live) [rootLocation ++ filename] s
  | .invoke atNull arguments now => (∀ live, Ordered s.sched live →
      LoadsSafe s.Live (· ∈ live) (candidatePaths atNull arguments) s) ∧
    (AsksHost arguments → ∀ s', ¬ NoCandidate atNull arguments now s s')
  | .thread _ => (∀ live, Ordered s.sched live → SystemKept s.Live (· ∈ live) s) ∧
    ¬ s.Asleep s.sched.currentTask
  | .terminate process => s.NoGuests process ∧
    ∀ live, Ordered s.sched live → Removable s.sched process [] live ∧
      (s.currentProcess = process → ScreensApart s.Live (· ∈ live) s)
  | .threadFault => ∀ l₁ l₂, Ordered s.sched (l₁ ++ s.sched.currentTask :: l₂) →
    s.sched.prev s.sched.currentTask = l₁.getLastD 0

/-! ## What a load appends -/

/-- The main task of the process has been appended, in a block of its own. -/
structure Appended (p task : Ptr) (s s' : System) : Prop where
  ne_null : task ≠ 0
  fresh : ∀ q, s.Kept q → task ≠ q
  task_eq : (s'.process p).task = task
  sched_eq : ∃ info chunk, chunk ≠ 0 ∧ info.ptr = p ∧
    s'.sched = (taskNew s.sched info task chunk).1

lemma Appended.congr (h : Appended p task t s') (hsched : t.sched = s.sched)
    (hclear : ∀ G, ClearKernel G s.kernel → ClearKernel G t.kernel) : Appended p task s s' :=
  ⟨h.ne_null, fun q hq => h.fresh q (hq.mono hclear), h.task_eq, hsched ▸ h.sched_eq⟩

/-- The block of a new task is none that is kept. -/
lemma ends_taskNewCall_fresh : Ends (taskNewCall p) s fun task t => task ≠ 0 ∧
    (∀ q, s.Kept q → task ≠ q) ∧ (∃ info chunk, chunk ≠ 0 ∧ info.ptr = p ∧
      t.sched = (taskNew s.sched info task chunk).1) := by
  intro task t hrun
  obtain ⟨m, info, chunk, _, ⟨hne, hchunk, hinfo⟩, rfl⟩ := ends_taskNewCall task t hrun
  refine ⟨hne, ?_, info, chunk, hchunk, hinfo, rfl⟩
  rintro q ⟨b, hq, hb⟩ rfl
  exact hq (ends_taskNewCall_clear hb task _ hrun).2.1.ptr

lemma ends_processStart_appended : Ends (processStart p slot hosting) s fun r s' =>
    r.1 < 0 ∨ (r.2 = p ∧ ∃ task, Appended p task s s') := by
  refine (ends_kzallocCall_kept userProgramStackSize).bind fun stack t ht => ?_
  obtain ⟨⟨m, rfl⟩, hclear⟩ := ht
  refine Ends.ite (fun _ => ?_) fun _ => ends_updateSystem_bind ?_
  · exact (ends_processLoadFailed_neg (by decide)).mono fun r s' hr => Or.inl hr
  refine ends_taskNewCall_fresh.bind fun task t₁ ht₁ => ends_updateSystem_bind ?_
  obtain ⟨hne, hfresh, info, chunk, hchunk, hinfo, hsched⟩ := ht₁
  refine ends_processMapMemory.bind fun res t₂ ht₂ => ?_
  obtain ⟨rfl, -⟩ := ht₂
  refine Ends.ite (fun hneg => ?_) fun _ => ?_
  · exact (ends_processLoadFailed_neg hneg).mono fun r s' hr => Or.inl hr
  refine ends_processSetHost.bind fun _ t₃ ht₃ => ?_
  obtain ⟨m₃, screen, -, rfl⟩ := ht₃
  refine ends_updateSystem_bind (ends_pure (Or.inr ⟨rfl, task, hne, fun q hq => ?_, ?_, ?_⟩))
  · exact hfresh q (hq.mono hclear)
  · simp only [hostedBy_task, System.setProcess_process, Function.update_self]
  · exact ⟨info, chunk, hchunk, hinfo, hsched⟩

/-- A load that succeeds appends the main task of the new process. -/
lemma ends_processLoad_appended : Ends (processLoad filename now hosting) s fun r s' =>
    r.1 < 0 ∨ ∃ task, Appended r.2 task s s' := by
  refine ends_processLoad_cases (ends_kzallocCall_kept processSize) fun slot p t _ ht => ?_
  obtain ⟨⟨m, rfl⟩, hclear⟩ := ht
  have hself : ((s.withMemory m).setProcess p fun _ => .zero).process p = .zero :=
    Function.update_self _ _ _
  have hdata : Ends (processLoadData filename now p) ((s.withMemory m).setProcess p fun _ => .zero)
      fun _ u => u.sched = s.sched ∧ ∀ G, ClearKernel G s.kernel → ClearKernel G u.kernel := by
    intro r u hrun
    refine ⟨(keeps_processLoadData _ r u (Loading.refl (by rw [hself]; decide)) hrun).sched_eq,
      fun G hG => ?_⟩
    exact ends_processLoadData_guarded (s := s.withMemory m) spares_clearMount (hclear G hG) r u
      hrun
  refine hdata.mono fun _ u hu => ends_processStart_appended.mono fun r v hr => hr.imp_right ?_
  rintro ⟨hr, task, happ⟩
  exact ⟨task, hr ▸ happ.congr hu.1 hu.2⟩

/-! ## The invariant -/

/-- From the task on, no task of the list belongs to the process. -/
def NoneFrom (s : Sched) (live : List Ptr) (task p : Ptr) : Prop :=
  ∃ l₁ l₂, live = l₁ ++ task :: l₂ ∧ ∀ t ∈ task :: l₂, (s.mem t).process ≠ p

/-- The task is on the list as the main one of the process. -/
structure IsMain (s : System) (live : List Ptr) (p task : Ptr) : Prop where
  mem : task ∈ live
  process_eq : (s.sched.mem task).process = p
  mainTask : (s.sched.mem task).mainTask = true

/-- The tasks of the list belong to live processes, each of which has its main task there, and
from the main task of a guest on the list has no task of the host. -/
structure ClockInv (live : List Ptr) (s : System) : Prop extends HostingInv s where
  ordered : Ordered s.sched live
  owner_live : ∀ t ∈ live, s.Live (s.sched.mem t).process
  main_task : ∀ p, s.Live p → IsMain s live p (s.process p).task
  guest_behind : ∀ q, s.Live q → (s.process q).host ≠ 0 →
    NoneFrom s.sched live (s.process q).task (s.process q).host

lemma NoneFrom.congr {u u' : Sched} (h : NoneFrom u live task p)
    (heq : ∀ t ∈ live, (u'.mem t).process = (u.mem t).process) : NoneFrom u' live task p := by
  obtain ⟨l₁, l₂, rfl, hnone⟩ := h
  refine ⟨l₁, l₂, rfl, fun t ht => ?_⟩
  rw [heq t (List.mem_append_right l₁ ht)]
  exact hnone t ht

/-- A task of another process is appended. -/
lemma NoneFrom.append {u : Sched} (h : NoneFrom u live task p) {new : Ptr}
    (hnew : (u.mem new).process ≠ p) : NoneFrom u (live ++ [new]) task p := by
  obtain ⟨l₁, l₂, rfl, hnone⟩ := h
  refine ⟨l₁, l₂ ++ [new], by simp, fun t ht => ?_⟩
  rw [← List.cons_append, List.mem_append, List.mem_singleton] at ht
  rcases ht with ht | rfl
  · exact hnone t ht
  · exact hnew

/-- Other tasks are taken off. -/
lemma NoneFrom.filter {u : Sched} (h : NoneFrom u live task p) {keep : Ptr → Bool}
    (htask : keep task = true) : NoneFrom u (live.filter keep) task p := by
  obtain ⟨l₁, l₂, rfl, hnone⟩ := h
  refine ⟨l₁.filter keep, l₂.filter keep, ?_, fun t ht => hnone t ?_⟩
  · rw [List.filter_append, List.filter_cons_of_pos htask]
  · rcases List.mem_cons.mp ht with rfl | ht
    · exact List.mem_cons_self
    · exact List.mem_cons_of_mem _ (List.mem_of_mem_filter ht)

/-- Then the last task of the list does not belong to the process. -/
lemma NoneFrom.getLast {u : Sched} (h : NoneFrom u live task p) (hne : live ≠ []) :
    (u.mem (live.getLast hne)).process ≠ p := by
  obtain ⟨l₁, l₂, rfl, hnone⟩ := h
  refine hnone _ ?_
  rw [List.getLast_append_of_ne_nil hne (List.cons_ne_nil task l₂)]
  exact List.getLast_mem _

lemma ClockInv.ne_nil (h : ClockInv live s) : live ≠ [] :=
  List.ne_nil_of_mem (h.main_task _ ⟨h.boot, 0, rfl⟩).mem

/-- The process of the last task has no guest, so it is awake. -/
lemma ClockInv.last_awake (h : ClockInv live s) : ¬ s.Asleep (live.getLast h.ne_nil) := by
  intro hasleep
  have hlive := h.owner_live _ (List.getLast_mem h.ne_nil)
  obtain ⟨q, hq, hhost⟩ := (h.hosting_iff _ hlive).mp hasleep
  refine (h.guest_behind q hq ?_).getLast h.ne_nil hhost.symm
  rw [hhost]
  exact hlive.1

/-- The fields of a process that the invariant looks at. -/
structure SameProcess (f g : Process) : Prop where
  id_eq : f.id = g.id
  host_eq : f.host = g.host
  hosting_eq : f.currentlyHosting = g.currentlyHosting
  task_eq : f.task = g.task

lemma SameProcess.of_eq {f g : Process} (h : f = g) : SameProcess f g := h ▸ ⟨rfl, rfl, rfl, rfl⟩

/-- Live processes and tasks of the list are left as they are. -/
lemma ClockInv.congr (h : ClockInv live s) (hprocesses : s'.processes = s.processes)
    (hcurrent : s.Live s'.currentProcess)
    (hprocess : ∀ q, s.Live q → SameProcess (s'.process q) (s.process q))
    (hordered : Ordered s'.sched live)
    (hmem : ∀ t ∈ live, (s'.sched.mem t).process = (s.sched.mem t).process ∧
      (s'.sched.mem t).mainTask = (s.sched.mem t).mainTask) : ClockInv live s' := by
  have hlive : ∀ q, s'.Live q ↔ s.Live q := fun q => by rw [System.Live, hprocesses, System.Live]
  have hslot : ∀ i, s'.processes i ≠ 0 → s.Live (s.processes i) := fun i hi =>
    ⟨hprocesses ▸ hi, i, rfl⟩
  refine ⟨⟨⟨fun i hi => ?_, fun i hi => ?_, ?_, ?_⟩, ⟨fun q hq hne => ?_, fun q hq => ?_⟩⟩,
    hordered, fun t ht => ?_, fun q hq => ?_, fun q hq hne => ?_⟩
  · rw [hprocesses, (hprocess _ (hslot i hi)).id_eq]
    exact h.id_eq i (hslot i hi).1
  · exact h.slot_lt i (hslot i hi).1
  · exact hprocesses ▸ h.boot
  · exact (hlive _).mpr hcurrent
  · have hq' := (hlive q).mp hq
    rw [(hprocess q hq').host_eq] at hne ⊢
    exact (hlive _).mpr (h.host_live q hq' hne)
  · have hq' := (hlive q).mp hq
    rw [(hprocess q hq').hosting_eq, h.hosting_iff q hq']
    refine exists_congr fun g => ?_
    rw [hlive g]
    exact and_congr_right fun hg => by rw [(hprocess g hg).host_eq]
  · rw [(hmem t ht).1, hlive]
    exact h.owner_live t ht
  · have hq' := (hlive q).mp hq
    have hmain := h.main_task q hq'
    rw [(hprocess q hq').task_eq]
    exact ⟨hmain.mem, (hmem _ hmain.mem).1.trans hmain.process_eq,
      (hmem _ hmain.mem).2.trans hmain.mainTask⟩
  · have hq' := (hlive q).mp hq
    rw [(hprocess q hq').host_eq] at hne ⊢
    rw [(hprocess q hq').task_eq]
    exact (h.guest_behind q hq' hne).congr fun t ht => (hmem t ht).1

/-- A task of the list is resumed. -/
lemma ClockInv.resume (h : ClockInv live s) (ht : task ∈ live) :
    ClockInv live { s with sched := { s.sched with currentTask := task } } :=
  h.congr rfl h.current (fun _ _ => SameProcess.of_eq rfl)
    ⟨⟨h.ordered.ne_null, h.ordered.seg, fun _ => ht⟩, h.ordered.tail_eq⟩ fun _ _ => ⟨rfl, rfl⟩

/-- The structures lie off what is stored over. -/
lemma ClockInv.painted {A : ℕ → ℕ → Prop} (h : ClockInv live s) (hpaint : Painted A s s')
    (hprocess : ∀ q, s.Live q → A q processSize) (htask : ∀ t ∈ live, A t taskSize) :
    ClockInv live s' := by
  have hmem : ∀ t ∈ live, s'.sched.mem t = s.sched.mem t := fun t ht =>
    hpaint.task_eq t (htask t ht)
  obtain ⟨mem, hsched⟩ := hpaint.sched_eq
  refine h.congr hpaint.processes_eq (hpaint.current_eq ▸ h.current)
    (fun q hq => SameProcess.of_eq (hpaint.process_eq q (hprocess q hq))) ?_ fun t ht => ?_
  · refine ⟨⟨h.ordered.ne_null, ?_, fun hne => ?_⟩, ?_⟩
    · have hhead : s'.sched.taskHead = s.sched.taskHead := by rw [hsched]
      rw [hhead]
      refine h.ordered.seg.congr fun t ht => ?_
      rw [Sched.next, hmem t ht]
      rfl
    · rw [hsched]
      exact h.ordered.current_mem hne
    · rw [hsched]
      exact h.ordered.tail_eq
  · rw [hmem t ht]
    exact ⟨rfl, rfl⟩

/-! ## Loads -/

/-- What is in use is kept. -/
abbrev UseKept (live : List Ptr) (s : System) : Prop := SystemKept s.Live (· ∈ live) s

lemma ClockInv.tasksKept (h : ClockInv live s) (hkept : UseKept live s) : TasksKept live s :=
  ⟨h.ordered.seg, h.ordered.tail_eq, h.ordered.current_mem h.ne_nil,
    fun t ht => (hkept.task_kept t ht).kept⟩

/-- A load that has failed. -/
lemma ClockInv.undone (h : ClockInv live s) (hkept : UseKept live s) (hu : Undone s s') :
    ClockInv live s' := by
  have hmem : ∀ t ∈ live, s'.sched.mem t = s.sched.mem t := fun t ht =>
    hu.mem_eq t (hkept.task_kept t ht).kept
  refine h.congr hu.processes_eq (hu.current_eq ▸ h.current) (fun q hq => ?_) ?_ fun t ht => ?_
  · exact SameProcess.of_eq (hu.process_eq q (hkept.process_kept q hq).kept)
  · refine ⟨⟨h.ordered.ne_null, ?_, fun hne => ?_⟩, hu.tail_eq.trans h.ordered.tail_eq⟩
    · rw [hu.head_eq]
      refine h.ordered.seg.congr fun t ht => ?_
      rw [Sched.next, hmem t ht]
      rfl
    · rw [hu.task_eq]
      exact h.ordered.current_mem hne
  · rw [hmem t ht]
    exact ⟨rfl, rfl⟩

/-- `task_new` appends a main task of the process. -/
lemma taskNew_appends (u : Sched) (info : ProcessInfo) {chunk : Ptr} (htask : task ≠ 0)
    (hchunk : chunk ≠ 0) : ∃ v : Task, v.next = 0 ∧ v.process = info.ptr ∧ v.mainTask = true ∧
      (taskNew u info task chunk).1 = taskAppend (u.store task v) task := by
  set v : Task :=
    { pageDirectory := chunk, process := info.ptr, mainTask := true
      registers := initialRegisters
        (if info.filetype = .elf then info.entry else programVirtualAddress) } with hv
  have hinit : taskInit u task info chunk = (u.store task v, 0) := by
    simp only [taskInit, if_neg hchunk, mem_store_self, store_store, hv]
  refine ⟨v, rfl, rfl, rfl, ?_⟩
  rw [taskNew, if_neg htask, hinit]
  simp [allOk]

/-- The old structures behind appending a new task. -/
lemma taskAppend_store_old (u : Sched) (v : Task) {x : Ptr} (hx : x ≠ task) :
    ((taskAppend (u.store task v) task).mem x).process = (u.mem x).process ∧
      ((taskAppend (u.store task v) task).mem x).mainTask = (u.mem x).mainTask := by
  have hlinks := linksOnly_taskAppend (u.store task v) task
  rw [hlinks.process_eq, hlinks.mainTask_eq, mem_store_of_ne _ _ hx]
  exact ⟨rfl, rfl⟩

/-- The new structure. -/
lemma taskAppend_store_new (u : Sched) (v : Task) (task : Ptr) :
    ((taskAppend (u.store task v) task).mem task).process = v.process ∧
      ((taskAppend (u.store task v) task).mem task).mainTask = v.mainTask := by
  have hlinks := linksOnly_taskAppend (u.store task v) task
  rw [hlinks.process_eq, hlinks.mainTask_eq, mem_store_self]
  exact ⟨rfl, rfl⟩

/-- A load that has succeeded. -/
lemma ClockInv.loaded (h : ClockInv live s) (hkept : UseKept live s)
    (hslot : slot < maxProcesses) (hfree : s.processes slot = 0) (hp : p ≠ 0)
    (hfresh : ¬ s.Live p) (hload : ProcessLoaded p slot hosting s s')
    (happ : Appended p task s s') (hhosting : hosting = 0 ∨ s.Live hosting) :
    ClockInv (live ++ [task]) s' := by
  have hlive : ∀ q, s'.Live q ↔ q = p ∨ s.Live q := fun q => hload.live_iff hfree hp
  obtain ⟨info, chunk, hchunk, hinfo, hsched⟩ := happ.sched_eq
  obtain ⟨v, hnext, hv, hmain, hnew⟩ := taskNew_appends s.sched info happ.ne_null hchunk
  rw [hnew] at hsched
  have htask : task ∉ live := fun hmem => happ.fresh task (hkept.task_kept task hmem).kept rfl
  have hold : ∀ t ∈ live, (s'.sched.mem t).process = (s.sched.mem t).process ∧
      (s'.sched.mem t).mainTask = (s.sched.mem t).mainTask := by
    intro t ht
    rw [hsched]
    exact taskAppend_store_old s.sched v fun heq => htask (heq ▸ ht)
  have hself : (s'.sched.mem task).process = p ∧ (s'.sched.mem task).mainTask = true := by
    rw [hsched]
    obtain ⟨hprocess, hflag⟩ := taskAppend_store_new s.sched v task
    exact ⟨hprocess.trans (hv.trans hinfo), hflag.trans hmain⟩
  obtain ⟨f, -, hhost, -, -, -, hprocess⟩ := hload.process_eq
  have hother : ∀ q, s.Live q → (s'.process q).task = (s.process q).task ∧
      (s'.process q).host = (s.process q).host := by
    intro q hq
    have hne : q ≠ p := fun heq => hfresh (heq ▸ hq)
    rw [hprocess, hostedBy_task, hostedBy_host, Function.update_of_ne hne]
    exact ⟨rfl, rfl⟩
  have hhost' : (s'.process p).host = hosting := by
    rw [hprocess, hostedBy_host, Function.update_self, hhost]
  refine ⟨⟨h.toTableInv.loaded hslot hfree hp hload hfresh,
    h.toHostingOk.loaded hfree hp hload hfresh hhosting⟩, ?_, fun t ht => ?_, fun q hq => ?_,
    fun q hq hne => ?_⟩
  · rw [hsched]
    refine (h.ordered.store htask v).append happ.ne_null htask ?_
    rw [next_store, Function.update_self, hnext]
  · rw [hlive]
    rcases List.mem_append.mp ht with ht | ht
    · exact Or.inr ((hold t ht).1 ▸ h.owner_live t ht)
    · exact Or.inl (List.mem_singleton.mp ht ▸ hself.1)
  · rcases (hlive q).mp hq with rfl | hq
    · rw [happ.task_eq]
      exact ⟨List.mem_append_right _ (List.mem_singleton_self _), hself.1, hself.2⟩
    · have hq' := h.main_task q hq
      rw [(hother q hq).1]
      exact ⟨List.mem_append_left _ hq'.mem, (hold _ hq'.mem).1.trans hq'.process_eq,
        (hold _ hq'.mem).2.trans hq'.mainTask⟩
  · rcases (hlive q).mp hq with rfl | hq
    · -- the new task is the last one, and the host is an old process
      rw [hhost'] at hne ⊢
      rw [happ.task_eq]
      refine ⟨live, [], rfl, fun t ht heq => ?_⟩
      rw [List.mem_singleton.mp ht, hself.1] at heq
      exact hfresh (heq ▸ hhosting.resolve_left hne)
    · rw [(hother q hq).2] at hne ⊢
      rw [(hother q hq).1]
      refine ((h.guest_behind q hq hne).congr fun t ht => (hold t ht).1).append ?_
      rw [hself.1]
      exact fun heq => hfresh (heq ▸ h.host_live q hq hne)

/-! ## Commands that load programs -/

/-- The flag of the host is set. -/
def System.flagged (s : System) (host : Ptr) : System :=
  s.setProcess host fun f => { f with currentlyHosting := true }

/-- A load for a host that has its flag already does the same. -/
lemma ProcessLoaded.of_flagged {host : Ptr} (hne : host ≠ 0) (hp : host ≠ p)
    (h : ProcessLoaded p slot host (s.flagged host) s') : ProcessLoaded p slot host s s' := by
  obtain ⟨f, hid, hhost, hflag, htype, htask, hprocess⟩ := h.process_eq
  have hscreen : ((s.flagged host).process host).screen = (s.process host).screen :=
    System.setProcess_screen fun _ => rfl
  refine ⟨h.processes_eq, h.current_eq, ⟨f, hid, hhost, hflag, htype, htask, ?_⟩,
    fun hnull hself => (h.screen_eq hnull hself).trans hscreen, h.display_eq⟩
  rw [hprocess, hostedBy, hostedBy, if_pos hne, if_pos hne, System.flagged,
    System.setProcess_process, Function.update_of_ne hp, Function.update_of_ne hp,
    Function.update_self, Function.update_comm hp.symm, Function.update_comm hp.symm,
    Function.update_idem]

/-- The system in which a command tries its locations: a host has its flag, and nothing else has
changed. -/
def Tried (live : List Ptr) (host : Ptr) (s t : System) : Prop :=
  ClockInv live s ∧ ((host = 0 ∧ t = s) ∨ (s.Live host ∧ t = s.flagged host))

/-- Moreover what is in use is kept while these programs are loaded. -/
structure Trying (live : List Ptr) (l : List (List UInt8)) (host : Ptr) (t : System) : Prop where
  safe : LoadsSafe t.Live (· ∈ live) l t
  tried : ∃ s, Tried live host s t

lemma Tried.live_eq {host : Ptr} (h : Tried live host s t) : t.Live = s.Live := by
  rcases h.2 with ⟨-, rfl⟩ | ⟨-, rfl⟩
  · rfl
  · rfl

lemma Tried.useKept {host : Ptr} (h : Tried live host s t) (hkept : UseKept live t) :
    UseKept live s := by
  rcases h.2 with ⟨-, rfl⟩ | ⟨-, rfl⟩
  · exact hkept
  · have hscreen : ∀ q, ((s.flagged host).process q).screen = (s.process q).screen := fun q =>
      System.setProcess_screen fun _ => rfl
    exact hkept.congr (fun _ hG => hG) fun q _ => (hscreen q).symm

/-- A load that has failed. -/
lemma Tried.undone {host : Ptr} (h : Tried live host s t) (hkept : UseKept live t)
    (hu : Undone t s') : ∃ s₀, Tried live host s₀ s' := by
  have hkept' := h.useKept hkept
  obtain ⟨hinv, ⟨rfl, rfl⟩ | ⟨hhost, rfl⟩⟩ := h
  · exact ⟨s', hinv.undone hkept hu, Or.inl ⟨rfl, rfl⟩⟩
  -- with the flag as it was, everything is as it was
  have hkeep : s.Kept host := (hkept'.process_kept host hhost).kept
  have hset : s'.process host = { s.process host with currentlyHosting := true } :=
    (hu.process_eq host hkeep).trans (Function.update_self _ _ _)
  have hback : Undone s (s'.setProcess host fun _ => s.process host) := by
    refine ⟨hu.processes_eq, hu.current_eq, fun q hq => ?_, hu.head_eq, hu.tail_eq, hu.task_eq,
      hu.mem_eq, hu.clear⟩
    by_cases heq : q = host
    · rw [heq]
      exact Function.update_self _ _ _
    · rw [System.setProcess_process, Function.update_of_ne heq]
      exact (hu.process_eq q hq).trans (Function.update_of_ne heq _ _)
  refine ⟨_, hinv.undone hkept' hback, Or.inr ⟨?_, ?_⟩⟩
  · rw [System.Live, hback.processes_eq]
    exact hhost
  · rw [System.flagged, System.setProcess, System.setProcess]
    simp only [Function.update_self, Function.update_idem, ← hset, Function.update_eq_self]

lemma Trying.current {host : Ptr} {l : List (List UInt8)} (h : Trying live l host t) :
    t.Live t.currentProcess := by
  obtain ⟨s, htried⟩ := h.tried
  rw [htried.live_eq]
  obtain ⟨hinv, ⟨-, rfl⟩ | ⟨-, rfl⟩⟩ := htried
  · exact hinv.current
  · exact hinv.current

lemma Trying.host {host : Ptr} {l : List (List UInt8)} (h : Trying live l host t) :
    host = 0 ∨ t.Live host := by
  obtain ⟨s, htried⟩ := h.tried
  rw [htried.live_eq]
  exact htried.2.imp And.left And.left

/-- Everything that an attempt to load a program leads to. -/
lemma Trying.processLoad {host : Ptr} {l : List (List UInt8)} (h : Trying live l host t)
    (hmem : filename ∈ l) :
    Ends (processLoad filename now host) t fun r s' => (r.1 < 0 ∧ Trying live l host s') ∨
      (r.1 = 0 ∧ (∀ q, s'.Live q ↔ q = r.2 ∨ t.Live q) ∧
        ClockInv (live ++ [(s'.process r.2).task]) s') := by
  intro r s' hrun
  obtain ⟨s, htried⟩ := h.tried
  have hkept : UseKept live t := h.safe.toSystemKept
  have hkept' := htried.useKept hkept
  have hinv := htried.1
  have hsame : t.sched = s.sched ∧ t.kernel = s.kernel ∧ t.processes = s.processes := by
    rcases htried.2 with ⟨-, rfl⟩ | ⟨-, rfl⟩ <;> exact ⟨rfl, rfl, rfl⟩
  have hfails : r.1 < 0 → Trying live l host s' := by
    intro hneg
    have htasks : TasksKept live t := (hinv.tasksKept hkept').congr hsame.1 fun _ hb =>
      hsame.2.1 ▸ hb
    have hundone := ends_processLoad_undone htasks r s' hrun hneg
    have hlive : s'.Live = t.Live := by
      funext q
      rw [System.Live, hundone.processes_eq, System.Live]
    refine ⟨?_, htried.undone hkept hundone⟩
    rw [hlive]
    exact (h.safe.failed hmem r s' hrun hneg).safe
  rcases ends_processLoad_loaded r s' hrun with hneg | ⟨hzero, hp, hr, slot, hslot, hfree, hload⟩
  · exact Or.inl ⟨hneg, hfails hneg⟩
  obtain ⟨task, happ⟩ := (ends_processLoad_appended r s' hrun).resolve_left (by omega)
  have happ' := happ.congr hsame.1 fun _ hb => hsame.2.1 ▸ hb
  have hfresh : ∀ q, s.Live q → q ≠ r.2 := fun q hq => by
    rw [hr, hsame.2.1]
    exact (hkept'.process_kept q hq).kept.ne_kzalloc processSize
  have hload' : ProcessLoaded r.2 slot host s s' := by
    rcases htried.2 with ⟨-, rfl⟩ | ⟨hhost, rfl⟩
    · exact hload
    · exact hload.of_flagged hhost.1 (hfresh host hhost)
  refine Or.inr ⟨hzero, fun q => ?_, ?_⟩
  · rw [htried.live_eq]
    exact hload'.live_iff (hsame.2.2 ▸ hfree) hp
  · rw [happ.task_eq]
    exact hinv.loaded hkept' hslot (hsame.2.2 ▸ hfree) hp (fun hlive => hfresh _ hlive rfl) hload'
      happ' (htried.2.imp And.left And.left)

/-- The new process has its screen in front. -/
lemma ClockInv.switch (h : ClockInv live s) (hp : s.Live p) :
    ClockInv live { s with currentProcess := p } :=
  h.congr rfl hp (fun _ _ => SameProcess.of_eq rfl) h.ordered fun _ _ => ⟨rfl, rfl⟩

lemma Trying.processLoadSwitch {host : Ptr} {l : List (List UInt8)} (h : Trying live l host t)
    (hmem : filename ∈ l) :
    Ends (processLoadSwitch filename now host) t fun r s' => (r.1 < 0 ∧ Trying live l host s') ∨
      (r.1 = 0 ∧ s'.Live r.2 ∧ ∃ task, ClockInv (live ++ [task]) s') := by
  intro r s' hrun
  obtain ⟨u, hload, hres⟩ := h.safe.ends_processLoadSwitch hmem h.host h.current r s' hrun
  rcases h.processLoad hmem r u hload with ⟨hneg, htry⟩ | ⟨hzero, hlive, hinv⟩
  · obtain ⟨-, rfl⟩ := hres.resolve_right fun hr => by omega
    exact Or.inl ⟨hneg, htry⟩
  obtain ⟨-, hpaint, -⟩ := hres.resolve_left fun hr => by omega
  have hnew : u.Live r.2 := (hlive _).mpr (Or.inl rfl)
  refine Or.inr ⟨hzero, hpaint.live_iff.mpr hnew, _, (hinv.switch hnew).painted hpaint
    (fun q hq => Or.inl ⟨rfl, (hlive q).mp hq⟩) fun task ht => Or.inr ⟨rfl, ?_⟩⟩
  exact (List.mem_append.mp ht).symm.imp_left List.mem_singleton.mp

/-- The attempts end with the program of one of the locations, or without one. -/
lemma Trying.runLocations {host : Ptr} {l : List (List UInt8)} (locations : List (List UInt8)) :
    ∀ {t : System}, Trying live l host t →
      (∀ location ∈ locations, commandPath program location ∈ l) →
      Ends (runLocations program now host locations) t fun r s' =>
        (r = none ∧ Trying live l host s') ∨
          ∃ p, r = some p ∧ s'.Live p ∧ ∃ task, ClockInv (live ++ [task]) s' := by
  induction locations with
  | nil => exact fun h _ => ends_pure (Or.inl ⟨rfl, h⟩)
  | cons location rest ih =>
    intro t h hmem
    obtain ⟨hhead, hrest⟩ := List.forall_mem_cons.mp hmem
    refine (h.processLoadSwitch hhead).bind fun r s₁ hr => Ends.ite (fun hne => ?_) fun hzero => ?_
    · exact ih (hr.resolve_right fun hr => hne hr.1).2 hrest
    · obtain ⟨-, hlive, htask⟩ := hr.resolve_left fun hneg => by omega
      exact ends_pure (Or.inr ⟨r.2, rfl, hlive, htask⟩)

/-- The main task of a live process is resumed. -/
lemma ClockInv.resumeProcess (h : ClockInv live s) (hp : s.Live p) :
    Ends (resumeProcess p) s fun _ s' => ClockInv live s' :=
  ends_getSystem_bind (ends_updateSystem_bind (ends_pure (h.resume (h.main_task p hp).mem)))

/-- Memory for the arguments is taken. -/
lemma keeps_processMallocCall_clock (size : ℕ) :
    Keeps (fun s => ClockInv live s ∧ s.Live p) (processMallocCall p size) := by
  refine keeps_processMallocCall_of size fun t m allocations ht => ⟨?_, ht.2⟩
  refine ht.1.congr rfl ht.1.current (fun q _ => ?_) ht.1.ordered fun _ _ => ⟨rfl, rfl⟩
  rw [System.setProcess_process]
  by_cases hq : q = p
  · rw [hq, Function.update_self]
    exact ⟨rfl, rfl, rfl, rfl⟩
  · rw [Function.update_of_ne hq]
    exact SameProcess.of_eq rfl

lemma keeps_processInjectArguments_clock (root : List (List UInt8)) :
    Keeps (fun s => ClockInv live s ∧ s.Live p) (processInjectArguments p root) := by
  have hloop : ∀ root, Keeps (fun s => ClockInv live s ∧ s.Live p)
      (processInjectArgumentsLoop p root) := by
    intro root
    induction root with
    | nil => exact keeps_pure _
    | cons argument root ih =>
      exact (keeps_processMallocCall_clock _).bind fun _ => Keeps.ite (keeps_pure _) ih
  refine Keeps.ite (keeps_pure _) ((keeps_processMallocCall_clock _).bind fun _ => ?_)
  exact Keeps.ite (keeps_pure _) (hloop root)

lemma ClockInv.startCommand (h : ClockInv live s) (hp : s.Live p) (root : List (List UInt8)) :
    Ends (startCommand p root) s fun _ s' => ClockInv live s' := by
  have hinject : Ends (processInjectArguments p root) s fun _ s' => ClockInv live s' ∧ s'.Live p :=
    fun r s' hrun => keeps_processInjectArguments_clock root s r s' ⟨h, hp⟩ hrun
  exact hinject.bind fun res t ht => Ends.ite (fun _ => ends_pure ht.1) fun _ =>
    ht.1.resumeProcess ht.2

/-- A command runs a program, unless it has asked for a host in vain. -/
lemma ClockInv.invokeProgram {hosted : Bool} {root : List (List UInt8)} (h : ClockInv live s)
    (hsafe : LoadsSafe s.Live (· ∈ live) (commandLocations.map (commandPath program)) s)
    (hfound : hosted = true → ∀ s', loadCandidates true program now s ≠ some (none, s')) :
    Ends (invokeProgram hosted program root now) s fun _ s' => ∃ live', ClockInv live' s' := by
  intro r s' hrun
  obtain ⟨host, s₁, hsleep, hrun⟩ := bind_eq_some hrun
  obtain ⟨loaded, s₂, hlocations, hrun⟩ := bind_eq_some hrun
  have hcaller : s.Live s.callingProcess :=
    h.owner_live _ (h.ordered.current_mem h.ne_nil)
  have htry : Trying live (commandLocations.map (commandPath program)) host s₁ := by
    cases hosted with
    | false =>
      cases hsleep
      exact ⟨hsafe, s, h, Or.inl ⟨rfl, rfl⟩⟩
    | true =>
      cases hsleep
      exact ⟨hsafe.setProcess fun _ => rfl, s, h, Or.inr ⟨hcaller, rfl⟩⟩
  rcases htry.runLocations commandLocations (fun _ => List.mem_map_of_mem) loaded s₂ hlocations with
    ⟨rfl, htried⟩ | ⟨p, rfl, hlive, task, hinv⟩
  · obtain rfl : s₂ = s' := congrArg Prod.snd (Option.some.inj hrun)
    cases hosted with
    | true =>
      refine absurd ?_ (hfound rfl s₂)
      rw [loadCandidates, ← hlocations]
      change (sleepHost true s).bind
        (fun r => runLocations program now r.1 commandLocations r.2) = _
      rw [hsleep]
      rfl
    | false =>
      cases hsleep
      obtain ⟨-, s₀, hinv, ⟨-, rfl⟩ | ⟨hlive, -⟩⟩ := htried
      · exact ⟨live, hinv⟩
      · exact absurd rfl hlive.1
  · exact ⟨_, hinv.startCommand hlive root r s' hrun⟩

/-! ## Threads -/

/-- `task_add_to_process` appends a task, or frees the one it has made. -/
lemma taskAddToProcess_cases (u : Sched) (info : ProcessInfo) (addr : ℕ) (htask : task ≠ 0) :
    ((taskAddToProcess u info addr task).2 = .error (-eio) ∧
      (taskAddToProcess u info addr task).1 = taskFree (u.store task {}) task) ∨
    ((taskAddToProcess u info addr task).2 = .ok task ∧ ∃ v : Task, v.next = 0 ∧
      v.process = info.ptr ∧ (taskAddToProcess u info addr task).1 =
        taskAppend (u.store task v) task) := by
  set chunk := ((u.store task {}).mem info.task).pageDirectory with hchunk
  by_cases hzero : chunk = 0
  · have hadd : taskAddToProcess u info addr task =
        (taskFree (u.store task {}) task, .error (-eio)) := by
      rw [taskAddToProcess, if_neg htask]
      simp only [mem_store_self, store_store, ← hchunk, hzero, if_true]
    exact Or.inl ⟨by rw [hadd], by rw [hadd]⟩
  · have hadd : taskAddToProcess u info addr task = (taskAppend (u.store task
        { pageDirectory := chunk, process := info.ptr, registers := initialRegisters addr }) task,
        .ok task) := by
      rw [taskAddToProcess, if_neg htask]
      simp only [mem_store_self, store_store, ← hchunk, hzero, if_false]
    exact Or.inr ⟨by rw [hadd], _, rfl, rfl, by rw [hadd]⟩

/-- A thread of a process that hosts nobody is appended. -/
lemma ClockInv.threadAdded (h : ClockInv live s) (hp : s.Live p)
    (hawake : ¬ (s.process p).currentlyHosting = true) (htask0 : task ≠ 0) (htask : task ∉ live)
    {v : Task} (hnext : v.next = 0) (hv : v.process = p) :
    ClockInv (live ++ [task])
      { s with sched := taskAppend (s.sched.store task v) task } := by
  have hold : ∀ t ∈ live,
      ((taskAppend (s.sched.store task v) task).mem t).process = (s.sched.mem t).process ∧
      ((taskAppend (s.sched.store task v) task).mem t).mainTask = (s.sched.mem t).mainTask :=
    fun t ht => taskAppend_store_old s.sched v fun heq => htask (heq ▸ ht)
  have hself : ((taskAppend (s.sched.store task v) task).mem task).process = p :=
    (taskAppend_store_new s.sched v task).1.trans hv
  refine ⟨⟨⟨h.id_eq, h.slot_lt, h.boot, h.current⟩, ⟨h.host_live, h.hosting_iff⟩⟩, ?_,
    fun t ht => ?_, fun q hq => ?_, fun q hq hne => ?_⟩
  · refine (h.ordered.store htask v).append htask0 htask ?_
    rw [next_store, Function.update_self, hnext]
  · rcases List.mem_append.mp ht with ht | ht
    · exact (hold t ht).1 ▸ h.owner_live t ht
    · obtain rfl := List.mem_singleton.mp ht
      exact hself.symm ▸ hp
  · have hmain := h.main_task q hq
    exact ⟨List.mem_append_left _ hmain.mem, (hold _ hmain.mem).1.trans hmain.process_eq,
      (hold _ hmain.mem).2.trans hmain.mainTask⟩
  · refine ((h.guest_behind q hq hne).congr fun t ht => (hold t ht).1).append ?_
    rw [hself]
    exact fun heq => hawake ((h.hosting_iff p hp).mpr ⟨q, hq, heq.symm⟩)

lemma ClockInv.withMemory (h : ClockInv live s) (m : KMemory) : ClockInv live (s.withMemory m) :=
  h.congr rfl h.current (fun _ _ => SameProcess.of_eq rfl) h.ordered fun _ _ => ⟨rfl, rfl⟩

/-- A thread that could not be made is taken back. -/
lemma ClockInv.threadFreed (h : ClockInv live s) (htask0 : task ≠ 0) (htask : task ∉ live) :
    ClockInv live { s with sched := taskFree (s.sched.store task {}) task } := by
  refine h.congr rfl h.current (fun _ _ => SameProcess.of_eq rfl) ?_ fun t ht => ?_
  · refine (h.ordered.store htask {}).taskFree_of_notMem htask0 htask ?_
    rw [prev_store, Function.update_self]
  · have hlinks := linksOnly_taskFree (s.sched.store task {}) task
    have hne : t ≠ task := fun heq => htask (heq ▸ ht)
    rw [hlinks.process_eq, hlinks.mainTask_eq, mem_store_of_ne _ _ hne]
    exact ⟨rfl, rfl⟩

lemma ClockInv.startThread (h : ClockInv live s) (hkept : UseKept live s)
    (hawake : ¬ s.Asleep s.sched.currentTask) (addr : ℕ) :
    Ends (startThread addr) s fun _ s' => ∃ live', ClockInv live' s' := by
  have hcaller : s.Live s.callingProcess := h.owner_live _ (h.ordered.current_mem h.ne_nil)
  have hadd : Ends (taskAddCall s.callingProcess addr) s fun added s' =>
      (∃ res, added = .error res ∧ ClockInv live s') ∨
        ∃ task, added = .ok task ∧ ClockInv (live ++ [task]) s' := by
    have halloc : Ends (kzallocCall taskSize) s fun task t =>
        (∀ q, s.Kept q → task ≠ q) ∧ ∃ m, t = s.withMemory m := by
      intro task t hrun
      refine ⟨?_, ends_onSystemMemory _ task t hrun⟩
      rintro q ⟨b, hq, hb⟩ rfl
      exact hq (ends_kzallocCall taskSize hb task t hrun).1
    refine halloc.bind fun task t ht => Ends.ite (fun _ => ends_stuck) fun htask0 => ?_
    obtain ⟨hfresh, m, rfl⟩ := ht
    have htask : task ∉ live := fun hmem => hfresh task (hkept.task_kept task hmem).kept rfl
    refine ends_getSystem_bind (ends_updateSystem_bind ?_)
    rcases taskAddToProcess_cases (s.withMemory m).sched _ addr htask0 with
      ⟨hres, hsched⟩ | ⟨hres, v, hnext, hv, hsched⟩
    · rw [hres, hsched]
      refine Ends.bind (P := fun _ s' => ClockInv live s') ?_ fun _ t ht =>
        ends_pure (Or.inl ⟨_, rfl, ht⟩)
      intro _ s' hrun
      obtain ⟨m', rfl⟩ := ends_onSystemMemory _ _ s' hrun
      exact ((h.withMemory m).threadFreed htask0 htask).withMemory m'
    · rw [hres, hsched]
      refine ends_pure (Or.inr ⟨task, rfl, ?_⟩)
      exact (h.withMemory m).threadAdded hcaller hawake htask0 htask hnext hv
  refine ends_getSystem_bind (hadd.bind fun added t ht => ?_)
  rcases ht with ⟨res, rfl, hinv⟩ | ⟨task, rfl, hinv⟩
  · exact ends_pure ⟨live, hinv⟩
  · intro _ s' hrun
    cases hrun
    exact ⟨_, hinv.resume (List.mem_append_right _ (List.mem_singleton_self task))⟩

/-! ## The end of processes and threads -/

lemma System.wakeHost_task : (s.wakeHost p q).task = (s.process q).task := by
  rw [System.wakeHost]
  split_ifs
  · by_cases hq : q = (s.process p).host
    · rw [hq, Function.update_self]
    · rw [Function.update_of_ne hq]
  · rfl

/-- A process without guests is terminated, and its tasks are taken off the list. -/
lemma ClockInv.terminated (h : ClockInv live s) (hlive : s.Live p) (hid : (s.process p).id ≠ 0)
    (hsound : s.NoGuests p) (hremove : Removable s.sched p [] live)
    (hterm : ProcessTerminated p s s') :
    ClockInv (live.filter fun t => (s.sched.mem t).process ≠ p) s' := by
  have hleft : ∀ q, s'.Live q ↔ q ≠ p ∧ s.Live q := fun q => hterm.live_iff h.toTableInv hlive
  obtain ⟨sched, hfree, hlinks, hordered⟩ := h.ordered.taskFreeAllForProcess hremove
  obtain rfl : sched = s'.sched := Option.some.inj (hfree.symm.trans hterm.sched_eq)
  have hprocess : ∀ q, (s'.process q).task = (s.process q).task ∧
      (s'.process q).host = (s.process q).host := by
    intro q
    rw [hterm.process_eq, System.wakeHost_task, System.wakeHost_host]
    exact ⟨rfl, rfl⟩
  have hkeep : ∀ q, s'.Live q → decide ((s.sched.mem (s.process q).task).process ≠ p) = true := by
    intro q hq
    rw [(h.main_task q ((hleft q).mp hq).2).process_eq]
    exact decide_eq_true ((hleft q).mp hq).1
  refine ⟨⟨h.toTableInv.terminated hlive hid hterm,
    h.toHostingOk.terminated h.toTableInv hlive hsound hterm⟩, hordered, fun t ht => ?_,
    fun q hq => ?_, fun q hq hne => ?_⟩
  · obtain ⟨hmem, howner⟩ := List.mem_filter.mp ht
    rw [hlinks.process_eq, hleft]
    exact ⟨of_decide_eq_true howner, h.owner_live t hmem⟩
  · have hmain := h.main_task q ((hleft q).mp hq).2
    rw [(hprocess q).1]
    exact ⟨List.mem_filter.mpr ⟨hmain.mem, hkeep q hq⟩,
      (hlinks.process_eq _).trans hmain.process_eq, (hlinks.mainTask_eq _).trans hmain.mainTask⟩
  · rw [(hprocess q).2] at hne ⊢
    rw [(hprocess q).1]
    exact ((h.guest_behind q ((hleft q).mp hq).2 hne).filter (hkeep q hq)).congr
      fun t _ => hlinks.process_eq t

/-- A thread other than the main one of its process is taken off the list. -/
lemma ClockInv.threadEnded (h : ClockInv (l₁ ++ task :: l₂) s)
    (hmain : ¬ (s.sched.mem task).mainTask = true)
    (hprev : s.sched.prev task = l₁.getLastD 0) :
    ClockInv (l₁ ++ l₂) { s with sched := taskFree s.sched task } := by
  have hnotin : task ∉ l₁ ++ l₂ := (List.nodup_middle.mp h.ordered.nodup).notMem
  have hfilter : (l₁ ++ task :: l₂).filter (fun t => decide (t ≠ task)) = l₁ ++ l₂ := by
    rw [List.filter_append, List.filter_cons_of_neg (by simp), ← List.filter_append,
      List.filter_eq_self]
    exact fun t ht => decide_eq_true fun heq => hnotin (heq ▸ ht)
  have hlinks := linksOnly_taskFree s.sched task
  have hne : ∀ q, s.Live q → (s.process q).task ≠ task := fun q hq heq =>
    hmain (heq ▸ (h.main_task q hq).mainTask)
  refine ⟨⟨⟨h.id_eq, h.slot_lt, h.boot, h.current⟩, ⟨h.host_live, h.hosting_iff⟩⟩,
    h.ordered.taskFree hprev, fun t ht => ?_, fun q hq => ?_, fun q hq hhost => ?_⟩
  · rw [hlinks.process_eq]
    exact h.owner_live t (List.mem_of_mem_filter (hfilter ▸ ht))
  · have hq' := h.main_task q hq
    refine ⟨?_, (hlinks.process_eq _).trans hq'.process_eq,
      (hlinks.mainTask_eq _).trans hq'.mainTask⟩
    rw [← hfilter]
    exact List.mem_filter.mpr ⟨hq'.mem, decide_eq_true (hne q hq)⟩
  · rw [← hfilter]
    exact ((h.guest_behind q hq hhost).filter (decide_eq_true (hne q hq))).congr
      fun t _ => hlinks.process_eq t

/-! ## Runs -/

/-- Clock ticks return for ever, and however long they have gone on, as many ticks as there are
tasks awake resume each of these. -/
def ClockFair (s : System) : Prop := ∃ live, Ordered s.sched live ∧
  ∀ n, Runs (clockTicks n) s fun tasks _ => tasks.length = n ∧
    ∀ i, i + (s.awakeTasks live).length ≤ n → ∀ t ∈ s.awakeTasks live,
      t ∈ (tasks.drop i).take (s.awakeTasks live).length

lemma ClockInv.clockFair (h : ClockInv live s) : ClockFair s := by
  refine ⟨live, h.ordered, fun n => ?_⟩
  obtain ⟨tasks, htasks, hlen, hwindow⟩ := RoundRobin.turns_rotate h.ordered.nodup h.ne_nil
    (System.awake_iff.mpr h.last_awake) (h.ordered.current_mem h.ne_nil) n
  have hruns := clockTicks_turns n h.ordered.toInOrder h.ne_nil
  rw [htasks] at hruns
  refine ⟨tasks, _, hruns, hlen, fun i hi t ht => ?_⟩
  rw [System.awakeTasks, hwindow i hi, List.mem_rotate]
  exact ht

lemma ends_endThread : Ends endThread s fun _ s' =>
    ¬ (s.sched.mem s.sched.currentTask).mainTask = true ∧ ∃ m, s' =
      { s.withMemory m with sched := taskFree s.sched s.sched.currentTask } := by
  refine ends_getSystem_bind (Ends.ite (fun _ => ends_stuck) fun hmain => ?_)
  refine ends_getSystem_bind ((ends_onSystemMemory _).bind fun _ t ht => ?_)
  obtain ⟨m, rfl⟩ := ht
  intro _ s' hrun
  cases hrun
  exact ⟨hmain, m, rfl⟩

/-- One step. -/
lemma ClockInv.step {op : ClockOp} (h : ClockInv live s) (hl : ClockLegal s op)
    (hc : ClockSound s op) (hstep : clockStep s op = some s') : ∃ live', ClockInv live' s' := by
  cases op with
  | tick =>
    obtain ⟨⟨task, u⟩, hrun, rfl⟩ := Option.map_eq_some_iff.mp hstep
    rw [taskNext_turn h.ordered.toInOrder h.ne_nil] at hrun
    obtain ⟨next, hturn, heq⟩ := Option.map_eq_some_iff.mp hrun
    cases heq
    exact ⟨live, h.resume (mem_of_turn hturn)⟩
  | flip id =>
    obtain ⟨⟨task, u⟩, hrun, rfl⟩ := Option.map_eq_some_iff.mp hstep
    rcases ends_processFlip task u hrun with ⟨-, rfl⟩ | ⟨hne, hid, t, ht, -, rfl⟩
    · exact ⟨live, h⟩
    have hlive : s.Live (s.processes id.toNat) := ⟨hne, _, rfl⟩
    have hpaint := (hc (by omega) hne live h.ordered).painted_switchTo h.current hlive
    rw [← ht] at hpaint
    have hinv : ClockInv live t := (h.switch hlive).painted hpaint (fun q hq => Or.inl ⟨rfl, hq⟩)
      fun task ht => Or.inr ⟨rfl, ht⟩
    exact ⟨live, hinv.resume (hinv.main_task _ (hpaint.live_iff.mpr hlive)).mem⟩
  | loadStart filename now =>
    obtain ⟨⟨res, u⟩, hrun, rfl⟩ := Option.map_eq_some_iff.mp hstep
    have htry : Trying live [rootLocation ++ filename] 0 s :=
      ⟨hc live h.ordered, s, h, Or.inl ⟨rfl, rfl⟩⟩
    have hload : Ends (isr80hCommand6ProcessLoadStart filename now) s fun _ u =>
        ∃ live', ClockInv live' u := by
      refine (htry.processLoadSwitch List.mem_cons_self).bind fun r t ht =>
        Ends.ite (fun hneg => ?_) fun hpos => ?_
      · obtain ⟨-, -, s₀, hinv, ⟨-, rfl⟩ | ⟨hlive, -⟩⟩ := ht.resolve_right fun hr => by omega
        · exact ends_pure ⟨live, hinv⟩
        · exact absurd rfl hlive.1
      · obtain ⟨-, hlive, task, hinv⟩ := ht.resolve_left fun hr => hpos hr.1
        exact (hinv.resumeProcess hlive).mono fun _ _ hu => ⟨_, hu⟩
    exact hload res u hrun
  | invoke atNull arguments now =>
    obtain ⟨⟨res, u⟩, hrun, rfl⟩ := Option.map_eq_some_iff.mp hstep
    have hsafe := hc.1 live h.ordered
    have hinvoke : Ends (isr80hCommand7InvokeSystemCommand atNull arguments now) s fun _ u =>
        ∃ live', ClockInv live' u := by
      rcases arguments with _ | ⟨argument, next⟩
      · exact ends_pure ⟨live, h⟩
      refine Ends.ite (fun _ => ends_pure ⟨live, h⟩) fun hne => ?_
      rw [candidatePaths] at hsafe
      refine Ends.ite (fun hhost => ?_) fun hhost => ?_
      · rw [if_pos (show AsksHost (argument :: next) from hhost)] at hsafe
        refine h.invokeProgram hsafe fun _ u hnone => hc.2 hhost u ⟨hne, ?_⟩
        rw [if_pos (show AsksHost (argument :: next) from hhost),
          decide_eq_true (show AsksHost (argument :: next) from hhost)]
        exact hnone
      · rw [if_neg (show ¬ AsksHost (argument :: next) from hhost)] at hsafe
        exact h.invokeProgram hsafe fun hhosted => absurd hhosted Bool.false_ne_true
    exact hinvoke res u hrun
  | thread addr =>
    obtain ⟨⟨_, u⟩, hrun, rfl⟩ := Option.map_eq_some_iff.mp hstep
    exact h.startThread (hc.1 live h.ordered) hc.2 addr _ u hrun
  | terminate process =>
    obtain ⟨⟨res, u⟩, hrun, rfl⟩ := Option.map_eq_some_iff.mp hstep
    rcases ends_processTerminate _ _ hrun with ⟨-, -, m, rfl⟩ | ⟨-, -, hid, t, hterm, hshown⟩
    · exact ⟨live, h.withMemory m⟩
    obtain ⟨hremove, hscreens⟩ := hc.2 live h.ordered
    have hinv := h.terminated hl.1 hid hc.1 hremove hterm
    have hleft : ∀ q, t.Live q → s.Live q := fun q hq =>
      ((hterm.live_iff h.toTableInv hl.1).mp hq).2
    exact ⟨_, hinv.painted (hterm.painted hshown hscreens hl.1 (hleft _ hinv.current))
      (fun q hq => Or.inl ⟨rfl, hleft q hq⟩) fun _ ht => Or.inr ⟨rfl, List.mem_of_mem_filter ht⟩⟩
  | threadFault =>
    obtain ⟨⟨_, u⟩, hrun, rfl⟩ := Option.map_eq_some_iff.mp hstep
    obtain ⟨hmain, m, rfl⟩ := ends_endThread _ u hrun
    obtain ⟨l₁, l₂, rfl⟩ := List.append_of_mem (h.ordered.current_mem h.ne_nil)
    exact ⟨l₁ ++ l₂, (h.threadEnded hmain (hc l₁ l₂ h.ordered)).withMemory m⟩

/-- **The clock goes on.**  In every run of commands from a state in which the tasks, the processes
and their hosts fit together, no tick panics and no task that is awake is left out, if the
structures in use stay taken and off the screens that are stored over, hosted programs are found,
threads are started by processes that are awake, guests end before their hosts, and no stale link
back is used. -/
theorem clock_fair {ops : List ClockOp} (h : ClockInv live s)
    (hl : Guarded clockStep ClockLegal s ops) (hc : Guarded clockStep ClockSound s ops) :
    Throughout clockStep ClockFair s ops :=
  throughout_of_guarded (I := fun s => ∃ live, ClockInv live s) (fun _ ⟨_, h⟩ => h.clockFair)
    (fun _ _ _ ⟨_, h⟩ hl hc hstep => h.step hl hc hstep) ⟨live, h⟩ hl hc

/-! ## A host and its guest -/

lemma small_task_cases (ht : task ∈ smallTasks) : ∃ i < 3, task = slotTask i := by
  simp only [smallTasks, List.mem_cons, List.not_mem_nil, or_false] at ht
  rcases ht with rfl | rfl | rfl
  · exact ⟨0, by decide, rfl⟩
  · exact ⟨1, by decide, rfl⟩
  · exact ⟨2, by decide, rfl⟩

lemma smallSched_mem {i : ℕ} (hi : i < 3) : (smallSched.mem (slotTask i)).process = slotProcess i ∧
    (smallSched.mem (slotTask i)).mainTask = true := by
  rcases (by omega : i = 0 ∨ i = 1 ∨ i = 2) with rfl | rfl | rfl
  · exact ⟨rfl, rfl⟩
  · exact ⟨rfl, rfl⟩
  · exact ⟨rfl, rfl⟩

/-- Process `0` hosts process `1`, and process `2` is behind them. -/
lemma small_clockInv (k : Kernel) : ClockInv smallTasks (smallSystem k (hostedFields 0 1)) := by
  refine ⟨hostedFields_hostingInv (by decide) (by decide), smallTasks_wellFormed.ordered,
    fun t ht => ?_, fun p hp => ?_, fun q hq hne => ?_⟩
  · obtain ⟨i, hi, rfl⟩ := small_task_cases ht
    exact smallSystem_live.mpr ⟨i, hi, (smallSched_mem hi).1⟩
  · obtain ⟨i, hi, rfl⟩ := smallSystem_live.mp hp
    rw [smallSystem_process hi]
    refine ⟨?_, (smallSched_mem hi).1, (smallSched_mem hi).2⟩
    rcases (by omega : i = 0 ∨ i = 1 ∨ i = 2) with rfl | rfl | rfl
    · exact List.mem_cons_self
    · exact List.mem_cons_of_mem _ List.mem_cons_self
    · exact List.mem_cons_of_mem _ (List.mem_cons_of_mem _ List.mem_cons_self)
  · obtain ⟨i, hi, rfl⟩ := smallSystem_live.mp hq
    rw [smallSystem_process hi] at hne ⊢
    obtain rfl : i = 1 := by
      by_contra hguest
      exact hne (if_neg hguest)
    refine ⟨[slotTask 0], [slotTask 2], rfl, fun t ht => ?_⟩
    rcases List.mem_cons.mp ht with rfl | ht
    · exact (by decide : slotProcess 1 ≠ slotProcess 0)
    · rw [List.mem_singleton.mp ht]
      exact (by decide : slotProcess 2 ≠ slotProcess 0)

/-- The task of process `1` is the only one of its process, and its link back is right. -/
lemma small_removable : Removable smallSched (slotProcess 1) [] smallTasks := by
  intro l₁ t l₂ hlist howner
  rcases l₁ with _ | ⟨a, _ | ⟨b, _ | ⟨c, l⟩⟩⟩
  · simp only [smallTasks, List.nil_append, List.cons.injEq] at hlist
    rw [← hlist.1] at howner
    exact absurd howner (by decide)
  · simp only [smallTasks, List.cons_append, List.nil_append, List.cons.injEq] at hlist
    rw [← hlist.2.1, ← hlist.1]
    refine ⟨rfl, fun u hu => ?_⟩
    cases hu
    exact (by decide : slotProcess 0 ≠ slotProcess 1)
  · simp only [smallTasks, List.cons_append, List.nil_append, List.cons.injEq] at hlist
    rw [← hlist.2.2.1] at howner
    exact absurd howner (by decide)
  · simp [smallTasks] at hlist

/-- The guest ends, and the clock ticks. -/
theorem clock_fair_guest : Throughout clockStep ClockFair
    (smallSystem (mountedKernel 1) (hostedFields 0 1)) [.terminate (slotProcess 1), .tick] := by
  have hinv := small_clockInv (mountedKernel 1)
  refine clock_fair hinv
    ⟨⟨smallSystem_live.mpr ⟨1, by decide, rfl⟩, by decide⟩,
      fun _ _ => ⟨trivial, fun _ _ => trivial⟩⟩
    ⟨⟨fun q hq hne => ?_, fun live hlive => ⟨?_, fun hshown => absurd hshown (by decide)⟩⟩,
      fun _ _ => ⟨trivial, fun _ _ => trivial⟩⟩
  · obtain ⟨i, hi, rfl⟩ := smallSystem_live.mp hq
    have hnone : (hostedFields 0 1 i).host = 0 := if_neg fun heq => hne (by rw [heq])
    rw [smallSystem_process hi, smallSystem_process (by decide), hnone]
    exact ⟨by decide, fun _ => by decide⟩
  · rw [hlive.unique hinv.ordered]
    exact small_removable

end SerpaeOS
