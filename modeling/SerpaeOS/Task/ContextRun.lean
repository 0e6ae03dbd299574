import SerpaeOS.Task.Context

/-!
# Tasks on one processor

Programs, interrupts and system calls take turns on the processor, and the kernel goes on with
whichever task it likes.  To each task it looks as if the registers were its own: it goes on with
the registers that it had when it was left, but for the flags, and a system call leaves its result
in `eax`.
-/

namespace SerpaeOS.Context

open X86 TaskList StepRun

/-- Addresses in the kernel's image: the directory of `kernel_chunk`, `tmp_res`, and the return
addresses of the calls of `task_return` and of `restore_general_purpose_registers`. -/
structure KernelLayout where
  directory : ℕ
  tmpRes : ℕ
  taskReturnCall : ℕ
  restoreCall : ℕ

/-- `kernel_page`. -/
def kernelPage (l : KernelLayout) (m : Machine) : Machine :=
  { exec kernelRegisters m with cr3 := l.directory }

/-- `paging_switch` in `task_switch`: the chunk is the first field of the task, and the directory is
the first field of the chunk. -/
def taskSwitch (task : ℕ) (m : Machine) : Machine := { m with cr3 := m.mem (m.mem task) }

/-- `task_page`. -/
def taskPage (current : ℕ) (m : Machine) : Machine := taskSwitch current (exec userRegisters m)

/-- `task_current_save_state`, with the frame from the arguments of the handler. -/
def taskCurrentSaveState (current : ℕ) (m : Machine) : Machine :=
  { m with mem := taskSaveState current (m.mem (m.reg .esp + 4)) m.mem }

/-- `task_switch` and `task_return`, with which the kernel is left for a task. -/
def resumeTask (l : KernelLayout) (task : ℕ) (m : Machine) : Option Machine :=
  let m := taskSwitch task m
  taskReturn l.restoreCall ((m.push (task + registersOffset)).push l.taskReturnCall)

/-- What a callback or a command does: its effect on the machine, the tasks that it makes, with
their registers, those that it ends, and the task that it switches to unless it returns. -/
structure KernelWork where
  run : Machine → Machine
  made : List (ℕ × Registers)
  ended : List ℕ
  next : Option ℕ

namespace KernelWork

def liveAfter (w : KernelWork) (live : List ℕ) : List ℕ :=
  w.made.map Prod.fst ++ live.filter (· ∉ w.ended)

def viewAfter (w : KernelWork) (view : ℕ → Registers) : ℕ → Registers :=
  w.made.foldl (fun view t => Function.update view t.1 t.2) view

end KernelWork

/-- The machine and `current_task`, with the tasks that are alive and the registers that they take
for their own; `resumed` says that the kernel was left just now. -/
structure ContextRun where
  machine : Machine
  current : ℕ
  live : List ℕ
  view : ℕ → Registers
  resumed : Bool

/-- The program goes on, or something interrupts it. -/
inductive ContextOp
  | user (run : Machine → Machine)
  | interrupt (n : ℕ) (error : Option ℕ) (callback : Option KernelWork)
  | syscall (command : KernelWork)

namespace ContextRun

/-- The handler of an interrupt up to the callback. -/
def enterInterrupt (l : KernelLayout) (r : ContextRun) (n : ℕ) (error : Option ℕ) : Machine :=
  kernelPage l (exec (interruptEntry n)
    (r.machine.interrupt kernelCodeSelector kernelDataSelector kernelStack error))

/-- The handler of a system call up to the command. -/
def enterSyscall (l : KernelLayout) (r : ContextRun) : Machine :=
  kernelPage l (exec isr80hEntry
    (r.machine.interrupt kernelCodeSelector kernelDataSelector kernelStack none))

/-- The kernel goes on with another task. -/
def switch (l : KernelLayout) (r : ContextRun) (w : KernelWork) (task : ℕ) (m : Machine) :
    Option ContextRun :=
  (resumeTask l task m).map fun m =>
    let view := w.viewAfter r.view
    ⟨m, task, w.liveAfter r.live,
      Function.update view task { view task with flags := m.eflags }, true⟩

end ContextRun

def contextStep (l : KernelLayout) (r : ContextRun) : ContextOp → Option ContextRun
  | .user run =>
    let m := run r.machine
    some ⟨m, r.current, r.live, Function.update r.view r.current (registersOf m), false⟩
  | .interrupt n error callback =>
    let m := r.enterInterrupt l n error
    match callback with
    | none => some ⟨exec interruptExit (taskPage r.current m), r.current, r.live, r.view, true⟩
    | some w =>
      let m := w.run (taskCurrentSaveState r.current m)
      match w.next with
      | none => some ⟨exec interruptExit (taskPage r.current m), r.current, w.liveAfter r.live,
          w.viewAfter r.view, true⟩
      | some task => r.switch l w task m
  | .syscall w =>
    let m := w.run (taskCurrentSaveState r.current (r.enterSyscall l))
    match w.next with
    | none =>
      let result := m.reg .eax
      let m := (taskPage r.current m).setReg .eax result
      let view := w.viewAfter r.view
      some ⟨exec (isr80hExit l.tmpRes) m, r.current, w.liveAfter r.live,
        Function.update view r.current { view r.current with eax := result }, true⟩
    | some task => r.switch l w task m

/-! ## What is expected of programs and of the kernel -/

/-- A word of the structure of a task up to its registers, or the one of its chunk. -/
def TaskWord (mem : ℕ → ℕ) (task a : ℕ) : Prop := (∃ k < 13, a = task + 4 * k) ∨ a = mem task

def KeepsTasks (live : List ℕ) (mem mem' : ℕ → ℕ) : Prop :=
  ∀ task ∈ live, ∀ a, TaskWord mem task a → mem' a = mem a

/-- The structure of a task and its chunk are pages of their own above the stack of the kernel. -/
structure Placed (mem : ℕ → ℕ) (live : List ℕ) (task : ℕ) : Prop where
  task_mod : task % 4096 = 0
  task_ge : kernelStack ≤ task
  chunk_mod : mem task % 4096 = 0
  chunk_ge : kernelStack ≤ mem task
  chunk_ne : ∀ u ∈ live, mem task ≠ u

/-- The selectors of programs. -/
def UserSelectors (R : Registers) : Prop := R.cs = userCodeSegment ∧ R.ss = userDataSegment

/-- What a program cannot do: change its code and stack segments, turn interrupts off, load a page
directory or write to the structures of the tasks. -/
structure UserLegal (r : ContextRun) (m : Machine) : Prop where
  cs_eq : m.seg .cs = r.machine.seg .cs
  ss_eq : m.seg .ss = r.machine.seg .ss
  interrupts : m.eflags.testBit 9 = r.machine.eflags.testBit 9
  cr3_eq : m.cr3 = r.machine.cr3
  keeps : KeepsTasks r.live r.machine.mem m.mem

/-- What a callback or a command does: it leaves the tasks alone that it does not end, and sets up
those that it makes; if it returns, it leaves the stack as it was, and otherwise it is still on the
stack when it switches to a task that is alive. -/
structure WorkLegal (r : ContextRun) (m : Machine) (w : KernelWork) : Prop where
  keeps : KeepsTasks (r.live.filter (· ∉ w.ended)) m.mem (w.run m).mem
  cs_eq : (w.run m).seg .cs = m.seg .cs
  nodup : (w.liveAfter r.live).Nodup
  placed : ∀ task ∈ w.liveAfter r.live, Placed (w.run m).mem (w.liveAfter r.live) task
  made : ∀ t ∈ w.made, Words (w.run m).mem (t.1 + registersOffset) t.2.words ∧ UserSelectors t.2
  returns : w.next = none → r.current ∉ w.ended ∧ (w.run m).reg .esp = m.reg .esp ∧
    ∀ a, m.reg .esp ≤ a → a < kernelStack → (w.run m).mem a = m.mem a
  switches : ∀ task, w.next = some task → task ∈ w.liveAfter r.live ∧
    72 ≤ (w.run m).reg .esp ∧ (w.run m).reg .esp ≤ kernelStack

/-- Exceptions with an error code end the task that they interrupt. -/
def ContextLegal (l : KernelLayout) (r : ContextRun) : ContextOp → Prop
  | .user run => UserLegal r (run r.machine)
  | .interrupt _ error none => error = none
  | .interrupt n error (some w) =>
    WorkLegal r (taskCurrentSaveState r.current (r.enterInterrupt l n error)) w ∧
      (error = none ∨ r.current ∈ w.ended ∧ w.next ≠ none)
  | .syscall w => WorkLegal r (taskCurrentSaveState r.current (r.enterSyscall l)) w

/-- The task that runs has its registers, and those of the others are saved; the directory is the
one of the task, interrupts are on, and the data segments are in place behind the kernel. -/
structure ContextOk (r : ContextRun) : Prop where
  running : registersOf r.machine = r.view r.current
  waiting : ∀ task ∈ r.live, task ≠ r.current →
    Words r.machine.mem (task + registersOffset) (r.view task).words
  directory : r.machine.cr3 = r.machine.mem (r.machine.mem r.current)
  interrupts : r.machine.eflags.testBit 9 = true
  segments : r.resumed = true → DataSegments r.machine userDataSegment

structure ContextInv (r : ContextRun) : Prop extends ContextOk r where
  current_mem : r.current ∈ r.live
  nodup : r.live.Nodup
  selectors : ∀ task ∈ r.live, UserSelectors (r.view task)
  placed : ∀ task ∈ r.live, Placed r.machine.mem r.live task

variable {l : KernelLayout} {r : ContextRun} {w : KernelWork} {m m' : Machine} {error : Option ℕ}
  {argument e task current : ℕ} {live : List ℕ} {view : ℕ → Registers}

/-! ## Entering -/

lemma KernelEntered.kernelPage {user : Machine} (h : KernelEntered user m argument error e) :
    KernelEntered user (kernelPage l m) argument error e := by
  obtain ⟨⟨sp, hstack⟩, hesp, hrange, hcs, hmem⟩ := h
  have hesp' : (Context.kernelPage l m).reg .esp = m.reg .esp := by
    simp (disch := decide) only [Context.kernelPage, exec, kernelRegisters, List.foldl_cons,
      List.foldl_nil, Instr.exec, Machine.setReg, Machine.setSeg, Function.update_of_ne]
  have hcs' : (Context.kernelPage l m).seg .cs = m.seg .cs := by
    simp (disch := decide) only [Context.kernelPage, exec, kernelRegisters, List.foldl_cons,
      List.foldl_nil, Instr.exec, Machine.setReg, Machine.setSeg, Function.update_of_ne]
  refine ⟨⟨sp, ?_⟩, hesp'.trans hesp, hrange, hcs'.trans hcs, hmem⟩
  simp only [Machine.Stack, hesp']
  exact hstack

lemma length_frameWords (R : Registers) (sp : ℕ) (error : Option ℕ) :
    (frameWords R sp error).length = 13 + error.toList.length := by
  rw [frameWords, List.length_append, List.length_append]
  exact Nat.add_right_comm 8 _ 5

/-- The words of different pages are different. -/
lemma task_add_ne {t u i j : ℕ} (ht : t % 4096 = 0) (hu : u % 4096 = 0) (hne : t ≠ u)
    (hi : i < 4096) (hj : j < 4096) : t + i ≠ u + j := by
  omega

/-- The kernel with the registers of the task saved. -/
structure Saved (r : ContextRun) (m : Machine) (argument : ℕ) (error : Option ℕ) (e : ℕ) :
    Prop where
  stack : ∃ sp, m.Stack (argument :: (e + 8) :: frameWords (registersOf r.machine) sp error)
  esp_eq : m.reg .esp = e
  range : e + 60 + 4 * error.toList.length = kernelStack
  cs_eq : m.seg .cs = kernelCodeSelector
  mem_eq : ∀ a, kernelStack ≤ a → (∀ k < 12, a ≠ r.current + registersOffset + 4 * k) →
    m.mem a = r.machine.mem a
  current : error = none →
    Words m.mem (r.current + registersOffset) (r.view r.current).words

lemma KernelEntered.saved (h : KernelEntered r.machine m argument error e) (hr : ContextInv r) :
    Saved r (taskCurrentSaveState r.current m) argument error e := by
  obtain ⟨⟨sp, hstack⟩, hesp, hrange, hcs, hmem⟩ := h
  have hge := (hr.placed _ hr.current_mem).task_ge
  have hframe : m.mem (m.reg .esp + 4) = e + 8 := hstack.2.1
  have hstack' : (taskCurrentSaveState r.current m).Stack
      (argument :: (e + 8) :: frameWords (registersOf r.machine) sp error) := by
    refine Words.congr hstack fun i hi => taskSaveState_of_ne fun k _ => ?_
    rw [List.length_cons, List.length_cons, length_frameWords] at hi
    have hesp' : (taskCurrentSaveState r.current m).reg .esp = e := hesp
    omega
  refine ⟨⟨sp, hstack'⟩, hesp, hrange, hcs, fun a ha hne => ?_, fun hnone => ?_⟩
  · exact (taskSaveState_of_ne hne).trans (hmem a ha)
  · subst hnone
    have hwords : Words m.mem (e + 8) (frameWords (registersOf r.machine) sp none) := by
      have := hstack.2.2
      rwa [hesp] at this
    have hnil : (none : Option ℕ).toList.length = 0 := rfl
    have hsave := taskSaveState_spec hge (by omega) hwords
    rw [← hr.running, taskCurrentSaveState, hframe]
    exact hsave

/-! ## The work of the kernel -/

namespace KernelWork

lemma viewAfter_of_notMem (h : task ∉ w.made.map Prod.fst) : w.viewAfter view task = view task := by
  have hfold : ∀ (made : List (ℕ × Registers)) (view : ℕ → Registers),
      task ∉ made.map Prod.fst →
        made.foldl (fun view t => Function.update view t.1 t.2) view task = view task := by
    intro made
    induction made with
    | nil => exact fun _ _ => rfl
    | cons t made ih =>
      intro view hnot
      rw [List.map_cons, List.mem_cons, not_or] at hnot
      rw [List.foldl_cons, ih _ hnot.2, Function.update_of_ne hnot.1]
  exact hfold w.made view h

lemma viewAfter_of_mem {t : ℕ × Registers} (ht : t ∈ w.made)
    (hnodup : (w.made.map Prod.fst).Nodup) :
    w.viewAfter view t.1 = t.2 := by
  have hfold : ∀ (made : List (ℕ × Registers)) (view : ℕ → Registers), t ∈ made →
      (made.map Prod.fst).Nodup →
        made.foldl (fun view t => Function.update view t.1 t.2) view t.1 = t.2 := by
    intro made
    induction made with
    | nil => exact fun _ h => absurd h List.not_mem_nil
    | cons u made ih =>
      intro view hmem hnodup
      obtain ⟨hnot, hnodup'⟩ := List.nodup_cons.mp hnodup
      rcases List.mem_cons.mp hmem with rfl | hmem
      · have hkeep := @viewAfter_of_notMem ⟨id, made, [], none⟩ t.1
          (Function.update view t.1 t.2) hnot
        rw [List.foldl_cons]
        exact hkeep.trans (Function.update_self _ _ _)
      · exact ih _ hmem hnodup'
  exact hfold w.made view ht hnodup

end KernelWork

/-- After the work of the kernel all tasks have their registers saved. -/
lemma WorkLegal.words (h : WorkLegal r m w) (hr : ContextInv r) (hm : Saved r m argument error e)
    (herror : error = none ∨ r.current ∈ w.ended) : ∀ task ∈ w.liveAfter r.live,
      Words (w.run m).mem (task + registersOffset) (w.viewAfter r.view task).words ∧
        UserSelectors (w.viewAfter r.view task) := by
  obtain ⟨hnodup, -, hdisjoint⟩ := List.nodup_append.mp h.nodup
  intro task htask
  rcases List.mem_append.mp htask with hmade | hold
  · obtain ⟨t, ht, rfl⟩ := List.mem_map.mp hmade
    rw [KernelWork.viewAfter_of_mem ht hnodup]
    exact h.made t ht
  · obtain ⟨hlive, hended⟩ := List.mem_filter.mp hold
    have hnot : task ∉ w.made.map Prod.fst := fun hc => hdisjoint task hc task hold rfl
    rw [KernelWork.viewAfter_of_notMem hnot]
    have hsaved : Words m.mem (task + registersOffset) (r.view task).words := by
      by_cases hcurrent : task = r.current
      · rw [hcurrent] at hended ⊢
        exact hm.current (herror.resolve_right fun hc => by simp [hc] at hended)
      · refine (hr.waiting task hlive hcurrent).congr fun i hi => hm.mem_eq _ ?_ fun k hk => ?_
        · have := (hr.placed task hlive).task_ge
          omega
        · have hi' : i < 12 := hi
          rw [registersOffset, Nat.add_assoc, Nat.add_assoc]
          exact task_add_ne (hr.placed task hlive).task_mod
            (hr.placed _ hr.current_mem).task_mod hcurrent (by omega) (by omega)
    refine ⟨hsaved.congr fun i hi => ?_, hr.selectors task hlive⟩
    have hi' : i < 12 := hi
    refine h.keeps task hold _ (Or.inl ⟨i + 1, by omega, ?_⟩)
    rw [registersOffset]
    omega

/-! ## Leaving -/

lemma Placed.congr {mem mem' : ℕ → ℕ} (h : Placed mem live task) (heq : mem' task = mem task) :
    Placed mem' live task := by
  obtain ⟨hmod, hge, hchunk_mod, hchunk_ge, hne⟩ := h
  refine ⟨hmod, hge, ?_, ?_, ?_⟩
  all_goals rwa [heq]

lemma taskPage_spec (current : ℕ) (m : Machine) :
    (taskPage current m).mem = m.mem ∧ (taskPage current m).reg .esp = m.reg .esp ∧
      (taskPage current m).seg .cs = m.seg .cs ∧
      (taskPage current m).cr3 = m.mem (m.mem current) ∧
      DataSegments (taskPage current m) userDataSegment := by
  refine ⟨rfl, ?_, ?_, rfl, ?_⟩
  all_goals simp (disch := decide) only [taskPage, taskSwitch, exec, userRegisters,
    List.foldl_cons, List.foldl_nil, Instr.exec, Operand.value, Machine.setReg, Machine.setSeg,
    Function.update_self, Function.update_of_ne, DataSegments, Nat.mul_add_mod', userDataSegment,
    Nat.reducePow, Nat.reduceMod, and_self]

/-- What is left to see when the kernel is left. -/
lemma contextInv_of_left (hcurrent : current ∈ live) (hnodup : live.Nodup)
    (hplaced : ∀ task ∈ live, Placed m.mem live task)
    (hwords : ∀ task ∈ live, task ≠ current →
      Words m.mem (task + registersOffset) (view task).words)
    (hselectors : ∀ task ∈ live, UserSelectors (view task))
    (hmem : ∀ a, kernelStack ≤ a → m'.mem a = m.mem a) (hrun : registersOf m' = view current)
    (hcr3 : m'.cr3 = m.mem (m.mem current)) (hflags : m'.eflags.testBit 9 = true)
    (hseg : DataSegments m' userDataSegment) : ContextInv ⟨m', current, live, view, true⟩ := by
  have hchunk : ∀ task ∈ live, m'.mem task = m.mem task :=
    fun task htask => hmem _ (hplaced task htask).task_ge
  refine ⟨⟨hrun, fun task htask hne => (hwords task htask hne).congr fun i _ => hmem _ ?_, ?_,
    hflags, fun _ => hseg⟩, hcurrent, hnodup, hselectors,
    fun task htask => (hplaced task htask).congr (hchunk task htask)⟩
  · have := (hplaced task htask).task_ge
    omega
  · simp only
    rw [hchunk current hcurrent, hmem _ (hplaced current hcurrent).chunk_ge, hcr3]

/-- The registers are in the frame when the kernel goes back to the program. -/
lemma WorkLegal.stack (h : WorkLegal r m w) (hm : Saved r m argument none e)
    (hnext : w.next = none) : ∃ sp, (w.run m).Stack
      (argument :: (e + 8) :: frameWords (registersOf r.machine) sp none) := by
  obtain ⟨sp, hstack⟩ := hm.stack
  obtain ⟨-, hesp, hkeep⟩ := h.returns hnext
  have hrange := hm.range
  have hesp_eq := hm.esp_eq
  have hnil : (none : Option ℕ).toList.length = 0 := rfl
  refine ⟨sp, ?_⟩
  simp only [Machine.Stack, hesp]
  refine Words.congr hstack fun i hi => hkeep _ (Nat.le_add_right _ _) ?_
  rw [List.length_cons, List.length_cons, length_frameWords] at hi
  omega

lemma WorkLegal.current_mem (h : WorkLegal r m w) (hr : ContextInv r) (hnext : w.next = none) :
    r.current ∈ w.liveAfter r.live ∧ w.viewAfter r.view r.current = r.view r.current := by
  have hold : r.current ∈ r.live.filter (· ∉ w.ended) := by
    refine List.mem_filter.mpr ⟨hr.current_mem, ?_⟩
    simpa using (h.returns hnext).1
  refine ⟨List.mem_append_right _ hold, KernelWork.viewAfter_of_notMem fun hc => ?_⟩
  exact (List.nodup_append.mp h.nodup).2.2 _ hc _ hold rfl

/-- Back in the program, with the registers `R`. -/
lemma WorkLegal.left (h : WorkLegal r m w) (hr : ContextInv r) (hm : Saved r m argument none e)
    (hnext : w.next = none) {R : Registers} (hregs : registersOf m' = R)
    (hcr3 : m'.cr3 = (taskPage r.current (w.run m)).cr3)
    (hmem : ∀ a, kernelStack ≤ a → m'.mem a = (w.run m).mem a)
    (hseg : ∀ s, s ≠ .cs → s ≠ .ss → m'.seg s = (taskPage r.current (w.run m)).seg s)
    (hR : UserSelectors R ∧ R.flags = (r.view r.current).flags) :
    ContextInv ⟨m', r.current, w.liveAfter r.live,
      Function.update (w.viewAfter r.view) r.current R, true⟩ := by
  obtain ⟨hcurrent, -⟩ := h.current_mem hr hnext
  have hwords := h.words hr hm (Or.inl rfl)
  obtain ⟨-, -, -, hcr3', hds, hes, hfs, hgs⟩ := taskPage_spec r.current (w.run m)
  refine contextInv_of_left hcurrent h.nodup h.placed (fun t ht hne => ?_) (fun t ht => ?_) hmem ?_
    (hcr3.trans hcr3') ?_ ⟨?_, ?_, ?_, ?_⟩
  · rw [Function.update_of_ne hne]
    exact (hwords t ht).1
  · by_cases hne : t = r.current
    · rw [hne, Function.update_self]
      exact hR.1
    · rw [Function.update_of_ne hne]
      exact (hwords t ht).2
  · rw [Function.update_self, hregs]
  · have hflags : m'.eflags = (r.view r.current).flags :=
      (congrArg Registers.flags hregs).trans hR.2
    rw [hflags, ← hr.running]
    exact hr.interrupts
  · exact (hseg _ (by decide) (by decide)).trans hds
  · exact (hseg _ (by decide) (by decide)).trans hes
  · exact (hseg _ (by decide) (by decide)).trans hfs
  · exact (hseg _ (by decide) (by decide)).trans hgs

/-- Back from an interrupt. -/
lemma WorkLegal.interruptExit (h : WorkLegal r m w) (hr : ContextInv r)
    (hm : Saved r m argument none e) (hnext : w.next = none) :
    ContextInv ⟨exec interruptExit (taskPage r.current (w.run m)), r.current,
      w.liveAfter r.live, w.viewAfter r.view, true⟩ := by
  obtain ⟨-, hview⟩ := h.current_mem hr hnext
  obtain ⟨sp, hstack⟩ := h.stack hm hnext
  obtain ⟨hmem, hesp, hcs, -, -⟩ := taskPage_spec r.current (w.run m)
  have hselectors := hr.selectors _ hr.current_mem
  obtain ⟨m', hm', hregs, hcr3, hmem', hseg⟩ :=
    @interruptExit_spec (taskPage r.current (w.run m)) (registersOf r.machine) argument (e + 8) sp
      (by rw [Machine.Stack, hmem, hesp]; exact hstack)
      (by rw [hcs, h.cs_eq, hm.cs_eq]; decide)
      (by rw [hr.running, hselectors.1]; decide)
  rw [hr.running] at hregs
  have hleft := h.left hr hm hnext hregs hcr3 (fun a _ => by rw [hmem', hmem]) hseg
    ⟨hselectors, rfl⟩
  rwa [hm', ← Function.update_eq_self r.current (w.viewAfter r.view), hview]

/-- Back from a system call, with its result. -/
lemma WorkLegal.isr80hExit (h : WorkLegal r m w) (hr : ContextInv r)
    (hm : Saved r m argument none e) (hnext : w.next = none) {tmpRes : ℕ}
    (htmp : tmpRes + 256 ≤ kernelStack) :
    ContextInv ⟨exec (isr80hExit tmpRes)
      ((taskPage r.current (w.run m)).setReg .eax ((w.run m).reg .eax)), r.current,
      w.liveAfter r.live, Function.update (w.viewAfter r.view) r.current
        { w.viewAfter r.view r.current with eax := (w.run m).reg .eax }, true⟩ := by
  obtain ⟨-, hview⟩ := h.current_mem hr hnext
  obtain ⟨sp, hstack⟩ := h.stack hm hnext
  obtain ⟨hmem, hesp, hcs, -, -⟩ := taskPage_spec r.current (w.run m)
  have hselectors := hr.selectors _ hr.current_mem
  have hstack' : (taskPage r.current (w.run m)).Stack
      (argument :: (e + 8) :: frameWords (registersOf r.machine) sp none) := by
    rw [Machine.Stack, hmem, hesp]
    exact hstack
  have hlow : tmpRes < (taskPage r.current (w.run m)).reg .esp := by
    have hrange := hm.range
    have hnil : (none : Option ℕ).toList.length = 0 := rfl
    rw [hesp, (h.returns hnext).2.1, hm.esp_eq]
    omega
  obtain ⟨m', hm', hregs, hcr3, hmem', hseg⟩ := @isr80hExit_spec
    ((taskPage r.current (w.run m)).setReg .eax ((w.run m).reg .eax)) (registersOf r.machine)
    argument (e + 8) sp tmpRes (hstack'.setReg (by decide))
    (by rw [Machine.setReg, hcs, h.cs_eq, hm.cs_eq]; decide)
    (by rw [hr.running, hselectors.1]; decide)
    (by rw [Machine.setReg_reg_of_ne _ (by decide)]; exact hlow)
  rw [hr.running, Machine.setReg_reg_self] at hregs
  rw [hm', hview]
  refine h.left hr hm hnext hregs hcr3 (fun a ha => ?_) hseg ⟨hselectors, rfl⟩
  rw [hmem', Function.update_of_ne (by omega)]
  exact congrFun hmem a

/-- From the kernel to a task, with the registers of all tasks saved. -/
lemma resumeTask_spec (hlow : 72 ≤ m.reg .esp) (hhigh : m.reg .esp ≤ kernelStack)
    (hcs : m.seg .cs = kernelCodeSelector) (hnodup : live.Nodup)
    (hplaced : ∀ t ∈ live, Placed m.mem live t)
    (hwords : ∀ t ∈ live, Words m.mem (t + registersOffset) (view t).words ∧
      UserSelectors (view t)) (htask : task ∈ live) :
    ∃ m', resumeTask l task m = some m' ∧ ContextInv ⟨m', task, live,
      Function.update view task { view task with flags := m'.eflags }, true⟩ := by
  obtain ⟨hregs, hselectors⟩ := hwords task htask
  have hge := (hplaced task htask).task_ge
  have hroom : kernelStack = 0x600000 := rfl
  obtain ⟨m₁, hm₁⟩ : ∃ m₁, m₁ = ((taskSwitch task m).push (task + registersOffset)).push
    l.taskReturnCall := ⟨_, rfl⟩
  have hempty : (taskSwitch task m).Stack [] := trivial
  have hesp₁ : m₁.reg .esp = m.reg .esp - 4 - 4 := by
    rw [hm₁]
    simp only [Machine.push, taskSwitch, Function.update_self]
  have hstack₁ : m₁.Stack [l.taskReturnCall, task + registersOffset] := by
    have harg := hempty.push (v := task + registersOffset) (show 4 ≤ m.reg .esp by omega)
    rw [hm₁]
    refine harg.push ?_
    simp only [Machine.push, taskSwitch, Function.update_self]
    omega
  have hmem₁ : ∀ a, kernelStack ≤ a → m₁.mem a = m.mem a := by
    intro a ha
    rw [hm₁]
    simp (disch := omega) only [Machine.push, taskSwitch, Function.update_self,
      Function.update_of_ne]
  have hcs₁ : m₁.seg .cs % 4 = 0 := by
    rw [hm₁]
    exact (congrArg (· % 4) hcs).trans rfl
  obtain ⟨m₂, hm₂, hregs₂, hcr3₂, hseg₂, hmem₂⟩ := taskReturn_spec hstack₁
    (hregs.congr fun i _ => hmem₁ _ (by omega)) (by omega) (by omega) (by omega) hcs₁
    (by rw [hselectors.1]; decide) l.restoreCall
  have hflags : m₂.eflags = m₁.eflags ||| 0x200 := congrArg Registers.flags hregs₂
  refine ⟨m₂, by rw [resumeTask, ← hm₁, hm₂], ?_⟩
  refine contextInv_of_left htask hnodup hplaced (fun t ht hne => ?_) (fun t ht => ?_)
    (fun a ha => (hmem₂ a ha).trans (hmem₁ a ha)) ?_ ?_ ?_ ?_
  · rw [Function.update_of_ne hne]
    exact (hwords t ht).1
  · by_cases hne : t = task
    · rw [hne, Function.update_self]
      exact hselectors
    · rw [Function.update_of_ne hne]
      exact (hwords t ht).2
  · rw [Function.update_self, hregs₂, hflags]
  · rw [hcr3₂, hm₁]
    rfl
  · rw [hflags, Nat.testBit_or]
    exact Bool.or_true _
  · rwa [hselectors.2] at hseg₂

/-- On to another task. -/
lemma WorkLegal.switch (h : WorkLegal r m w) (hr : ContextInv r) (hm : Saved r m argument error e)
    (herror : error = none ∨ r.current ∈ w.ended) (hnext : w.next = some task) :
    ∃ r', r.switch l w task (w.run m) = some r' ∧ ContextInv r' := by
  obtain ⟨htask, hlow, hhigh⟩ := h.switches task hnext
  obtain ⟨m', hm', hinv⟩ := resumeTask_spec (l := l) hlow hhigh (h.cs_eq.trans hm.cs_eq) h.nodup
    h.placed (h.words hr hm herror) htask
  exact ⟨_, by rw [ContextRun.switch, hm']; rfl, hinv⟩

/-! ## The run -/

lemma ContextInv.user (h : ContextInv r) (hlegal : UserLegal r m) : ContextInv
    ⟨m, r.current, r.live, Function.update r.view r.current (registersOf m), false⟩ := by
  have hchunk : ∀ t ∈ r.live, m.mem t = r.machine.mem t :=
    fun t ht => hlegal.keeps t ht t (Or.inl ⟨0, by decide, rfl⟩)
  have hselectors := h.selectors _ h.current_mem
  refine ⟨⟨?_, fun t ht hne => ?_, ?_, ?_, fun hc => absurd hc Bool.false_ne_true⟩, h.current_mem,
    h.nodup, fun t ht => ?_, fun t ht => (h.placed t ht).congr (hchunk t ht)⟩
  · simp only [Function.update_self]
  · simp only [Function.update_of_ne hne]
    refine (h.waiting t ht hne).congr fun i hi => hlegal.keeps t ht _ (Or.inl ⟨i + 1, ?_, ?_⟩)
    · have hi' : i < 12 := hi
      omega
    · rw [registersOffset]
      omega
  · simp only
    rw [hchunk _ h.current_mem, hlegal.keeps _ h.current_mem _ (Or.inr rfl), hlegal.cr3_eq]
    exact h.directory
  · exact hlegal.interrupts.trans h.interrupts
  · simp only
    by_cases hne : t = r.current
    · rw [hne, Function.update_self]
      rw [← h.running] at hselectors
      exact ⟨hlegal.cs_eq.trans hselectors.1, hlegal.ss_eq.trans hselectors.2⟩
    · rw [Function.update_of_ne hne]
      exact h.selectors t ht

/-- An interrupt without a callback. -/
lemma ContextInv.ignored (h : ContextInv r) (hm : KernelEntered r.machine m argument none e) :
    ContextInv ⟨exec interruptExit (taskPage r.current m), r.current, r.live, r.view, true⟩ := by
  obtain ⟨⟨sp, hstack⟩, -, -, hcs, hmem⟩ := hm
  obtain ⟨hmem', hesp', hcs', hcr3', hds, hes, hfs, hgs⟩ := taskPage_spec r.current m
  have hselectors := h.selectors _ h.current_mem
  obtain ⟨m', hm', hregs, hcr3, hmem'', hseg⟩ :=
    @interruptExit_spec (taskPage r.current m) (registersOf r.machine) argument (e + 8) sp
      (by rw [Machine.Stack, hmem', hesp']; exact hstack) (by rw [hcs', hcs]; decide)
      (by rw [h.running, hselectors.1]; decide)
  have hflags : m'.eflags = r.machine.eflags := congrArg Registers.flags hregs
  rw [hm']
  refine contextInv_of_left (m := m) h.current_mem h.nodup (fun t ht => ?_) (fun t ht hne => ?_)
    h.selectors (fun a _ => by rw [hmem'', hmem']) (hregs.trans h.running) (hcr3.trans hcr3') ?_
    ⟨?_, ?_, ?_, ?_⟩
  · exact (h.placed t ht).congr (hmem t (h.placed t ht).task_ge)
  · refine (h.waiting t ht hne).congr fun i _ => hmem _ ?_
    have := (h.placed t ht).task_ge
    omega
  · rw [hflags]
    exact h.interrupts
  · exact (hseg _ (by decide) (by decide)).trans hds
  · exact (hseg _ (by decide) (by decide)).trans hes
  · exact (hseg _ (by decide) (by decide)).trans hfs
  · exact (hseg _ (by decide) (by decide)).trans hgs

/-- One step. -/
lemma ContextInv.step (h : ContextInv r) (htmp : l.tmpRes + 256 ≤ kernelStack) {op : ContextOp}
    (hlegal : ContextLegal l r op) : ∃ r', contextStep l r op = some r' ∧ ContextInv r' := by
  cases op with
  | user run => exact ⟨_, rfl, h.user hlegal⟩
  | interrupt n error callback =>
    obtain ⟨m, e, hm, hentered⟩ := @kernelEntered r.machine error (.imm n) n (Or.inl rfl)
    have henter : r.enterInterrupt l n error = kernelPage l m := by
      rw [ContextRun.enterInterrupt, interruptEntry, hm]
    cases callback with
    | none =>
      obtain rfl : error = none := hlegal
      exact ⟨_, by rw [contextStep, henter], h.ignored hentered.kernelPage⟩
    | some w =>
      obtain ⟨hwork, herror⟩ := hlegal
      rw [henter] at hwork
      have hsaved := (hentered.kernelPage (l := l)).saved h
      cases hnext : w.next with
      | none =>
        obtain rfl : error = none := herror.resolve_right fun hc => hc.2 hnext
        exact ⟨_, by rw [contextStep, henter]; simp only [hnext],
          hwork.interruptExit h hsaved hnext⟩
      | some task =>
        obtain ⟨r', hr', hinv⟩ := hwork.switch (l := l) h hsaved (herror.imp_right And.left) hnext
        exact ⟨r', by rw [contextStep, henter]; simp only [hnext]; exact hr', hinv⟩
  | syscall w =>
    obtain ⟨m, e, hm, hentered⟩ := @kernelEntered r.machine none (.reg .eax) _ (Or.inr ⟨rfl, rfl⟩)
    have henter : r.enterSyscall l = kernelPage l m := by
      rw [ContextRun.enterSyscall, isr80hEntry, hm]
    have hwork : WorkLegal r (taskCurrentSaveState r.current (r.enterSyscall l)) w := hlegal
    rw [henter] at hwork
    have hsaved := (hentered.kernelPage (l := l)).saved h
    cases hnext : w.next with
    | none =>
      exact ⟨_, by rw [contextStep, henter]; simp only [hnext],
        hwork.isr80hExit h hsaved hnext htmp⟩
    | some task =>
      obtain ⟨r', hr', hinv⟩ := hwork.switch (l := l) h hsaved (Or.inl rfl) hnext
      exact ⟨r', by rw [contextStep, henter]; simp only [hnext]; exact hr', hinv⟩

/-- `task_run_first_ever_task`, with the tasks that are there when the kernel has started. -/
def taskRunFirstEverTask (l : KernelLayout) (m : Machine) (live : List ℕ)
    (view : ℕ → Registers) (taskHead : ℕ) : Option ContextRun :=
  (resumeTask l taskHead m).map fun m =>
    ⟨m, taskHead, live, Function.update view taskHead { view taskHead with flags := m.eflags },
      true⟩

/-- The kernel before the first task, on a stack of its own. -/
structure ContextBoot (m : Machine) (live : List ℕ) (view : ℕ → Registers) (taskHead : ℕ) :
    Prop where
  esp_ge : 72 ≤ m.reg .esp
  esp_le : m.reg .esp ≤ kernelStack
  cs_eq : m.seg .cs = kernelCodeSelector
  nodup : live.Nodup
  placed : ∀ task ∈ live, Placed m.mem live task
  words : ∀ task ∈ live, Words m.mem (task + registersOffset) (view task).words ∧
    UserSelectors (view task)
  head_mem : taskHead ∈ live

lemma ContextBoot.start (l : KernelLayout) (h : ContextBoot m live view task) : ∃ r,
    taskRunFirstEverTask l m live view task = some r ∧ ContextInv r ∧ r.live = live := by
  obtain ⟨m', hm', hinv⟩ := resumeTask_spec (l := l) h.esp_ge h.esp_le h.cs_eq h.nodup h.placed
    h.words h.head_mem
  exact ⟨_, by rw [taskRunFirstEverTask, hm']; rfl, hinv, rfl⟩

/-- Each task has the processor for itself, whatever the order in which programs, interrupts and
system calls take turns. -/
theorem context_run (l : KernelLayout) (htmp : l.tmpRes + 256 ≤ kernelStack)
    (hboot : ContextBoot m live view task) :
    ∃ r, taskRunFirstEverTask l m live view task = some r ∧ ∀ ops : List ContextOp,
      Guarded (contextStep l) (ContextLegal l) r ops →
        Always (contextStep l) ContextOk r ops := by
  obtain ⟨r, hr, hinv, -⟩ := hboot.start l
  refine ⟨r, hr, fun ops hlegal => ?_⟩
  exact always_of_guarded (I := ContextInv) (fun _ hr => hr.toContextOk)
    (fun r op hr hop _ => hr.step htmp hop) hinv hlegal guarded_true

/-- The clock interrupt when nothing but the next task changes. -/
def clockTo (task : ℕ) : ContextOp := .interrupt 0x20 none (some ⟨id, [], [], some task⟩)

lemma liveAfter_clockTo (live : List ℕ) :
    (⟨id, [], [], some task⟩ : KernelWork).liveAfter live = live :=
  (List.nil_append _).trans (List.filter_eq_self.mpr fun _ _ => rfl)

lemma contextStep_clockTo {r' : ContextRun} (h : contextStep l r (clockTo task) = some r') :
    r'.live = r.live := by
  rw [clockTo, contextStep] at h
  simp only [ContextRun.switch] at h
  obtain ⟨m', -, rfl⟩ := Option.map_eq_some_iff.mp h
  exact liveAfter_clockTo r.live

lemma ContextInv.clockTo_legal (l : KernelLayout) (h : ContextInv r) (htask : task ∈ r.live) :
    ContextLegal l r (clockTo task) := by
  obtain ⟨m, e, hm, hentered⟩ := @kernelEntered r.machine none (.imm 0x20) 0x20 (Or.inl rfl)
  have hsaved := (hentered.kernelPage (l := l)).saved h
  have hrange := hsaved.range
  have hnil : (none : Option ℕ).toList.length = 0 := rfl
  have hroom : kernelStack = 0x600000 := rfl
  have henter : r.enterInterrupt l 0x20 none = kernelPage l m := by
    rw [ContextRun.enterInterrupt, interruptEntry, hm]
  have hlive := @liveAfter_clockTo task r.live
  refine ⟨?_, Or.inl rfl⟩
  rw [henter]
  have hmem : ∀ t ∈ r.live, (taskCurrentSaveState r.current (kernelPage l m)).mem t =
      r.machine.mem t := by
    intro t ht
    refine hsaved.mem_eq _ (h.placed t ht).task_ge fun k hk => ?_
    have := (h.placed t ht).task_mod
    have := (h.placed _ h.current_mem).task_mod
    rw [registersOffset]
    omega
  refine ⟨fun _ _ _ _ => rfl, rfl, ?_, ?_, fun t ht => absurd ht List.not_mem_nil,
    fun hc => absurd hc (Option.some_ne_none _), fun t ht => ?_⟩
  · rw [hlive]
    exact h.nodup
  · rw [hlive]
    exact fun t ht => (h.placed t ht).congr (hmem t ht)
  · obtain rfl := Option.some.inj ht
    rw [hlive]
    have hesp := hsaved.esp_eq
    refine ⟨htask, ?_, ?_⟩
    all_goals
      simp only [id]
      omega

/-- Two tasks in pages of the heap, with chunks behind them. -/
def twoTasks : ℕ → ℕ := fun a =>
  if a = 0x1001000 then 0x1003000
  else if a = 0x1002000 then 0x1004000
  else if a = 0x1001020 ∨ a = 0x1002020 then 0x400000
  else if a = 0x1001024 ∨ a = 0x1002024 then userCodeSegment
  else if a = 0x100102c ∨ a = 0x100202c then programVirtualStackAddressStart
  else if a = 0x1001030 ∨ a = 0x1002030 then userDataSegment
  else 0

lemma twoTasks_boot :
    ContextBoot ⟨fun _ => 0x200000, fun _ => kernelCodeSelector, 0, 2, 0, twoTasks⟩
    [0x1001000, 0x1002000] (fun _ => initialRegisters 0x400000) 0x1001000 := by
  have hcases : ∀ t ∈ [0x1001000, 0x1002000], t = 0x1001000 ∨ t = 0x1002000 := by simp
  refine ⟨by decide, by decide, rfl, by decide, fun t ht => ?_, fun t ht => ?_, by decide⟩
  · rcases hcases t ht with rfl | rfl
    all_goals exact ⟨by decide, by decide, by decide, by decide, by decide⟩
  · rcases hcases t ht with rfl | rfl
    all_goals
      refine ⟨⟨?_, ?_, ?_, ?_, ?_, ?_, ?_, ?_, ?_, ?_, ?_, ?_, trivial⟩, by decide, by decide⟩
      all_goals decide

/-- The clock takes turns with the two tasks. -/
theorem context_run_twoTasks : ∃ r, taskRunFirstEverTask ⟨0x1005000, 0x110000, 0x101000, 0x102000⟩
    ⟨fun _ => 0x200000, fun _ => kernelCodeSelector, 0, 2, 0, twoTasks⟩ [0x1001000, 0x1002000]
    (fun _ => initialRegisters 0x400000) 0x1001000 = some r ∧
      Always (contextStep ⟨0x1005000, 0x110000, 0x101000, 0x102000⟩) ContextOk r
        [clockTo 0x1002000, clockTo 0x1001000] := by
  obtain ⟨r, hr, hrun⟩ := context_run ⟨0x1005000, 0x110000, 0x101000, 0x102000⟩ (by decide)
    twoTasks_boot
  obtain ⟨r', hr', hinv, hlive⟩ := twoTasks_boot.start ⟨0x1005000, 0x110000, 0x101000, 0x102000⟩
  obtain rfl := Option.some.inj (hr.symm.trans hr')
  have hfirst : ContextLegal ⟨0x1005000, 0x110000, 0x101000, 0x102000⟩ r (clockTo 0x1002000) :=
    hinv.clockTo_legal _ (by rw [hlive]; decide)
  refine ⟨r, hr, hrun _ ⟨hfirst, fun r₁ h₁ => ⟨?_, fun _ _ => trivial⟩⟩⟩
  obtain ⟨r₂, h₂, hinv₂⟩ := hinv.step (by decide) hfirst
  obtain rfl := Option.some.inj (h₁.symm.trans h₂)
  exact hinv₂.clockTo_legal _ (by rw [contextStep_clockTo h₁, hlive]; decide)

end SerpaeOS.Context
