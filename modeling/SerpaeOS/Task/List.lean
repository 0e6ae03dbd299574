import SerpaeOS.Config
import SerpaeOS.Lib.Links
import SerpaeOS.Lib.Loop
import SerpaeOS.Lib.StepRun
import Mathlib.Logic.Function.Basic

/-!
# The scheduler's task list

`task.c` keeps all tasks in a doubly linked list with the globals `task_head`,
`task_tail` and `current_task`.  The memory that holds the task structures is a
function from addresses to structures: `kfree` only edits the heap table, so the
structure of a freed task keeps its last contents until the block is handed out
again.  What the list functions ask of the heap is recorded in order, the
arguments of `paging_free_4gb` and those of `kfree`.
-/

namespace SerpaeOS.TaskList

open Links StepRun

/-- `struct registers`. -/
structure Registers where
  edi : ℕ := 0
  esi : ℕ := 0
  ebp : ℕ := 0
  ebx : ℕ := 0
  edx : ℕ := 0
  ecx : ℕ := 0
  eax : ℕ := 0
  ip : ℕ := 0
  cs : ℕ := 0
  flags : ℕ := 0
  esp : ℕ := 0
  ss : ℕ := 0
deriving DecidableEq, Repr

/-- `struct task`; a structure filled with zero bytes is `{}`. -/
structure Task where
  pageDirectory : Ptr := 0
  registers : Registers := {}
  process : Ptr := 0
  mainTask : Bool := false
  next : Ptr := 0
  prev : Ptr := 0
deriving DecidableEq, Repr

/-- The `filetype` field of a process. -/
inductive ProcessFiletype
  | elf
  | binary
  | driver
deriving DecidableEq, Repr

/-- What the task functions read of a `struct process`: its address, its file type, the
entry point of its ELF header and its main task. -/
structure ProcessInfo where
  ptr : Ptr
  filetype : ProcessFiletype
  entry : ℕ
  task : Ptr
deriving DecidableEq, Repr

/-- The globals of `task.c` and the memory of the task structures. -/
structure Sched where
  mem : Ptr → Task
  taskHead : Ptr
  taskTail : Ptr
  currentTask : Ptr
  /-- The arguments of `paging_free_4gb` so far. -/
  chunksFreed : List Ptr
  /-- The arguments of `kfree` so far. -/
  kfreed : List Ptr

namespace Sched

def next (s : Sched) (t : Ptr) : Ptr := (s.mem t).next

def prev (s : Sched) (t : Ptr) : Ptr := (s.mem t).prev

/-- The assignment `*task = v`. -/
def store (s : Sched) (task : Ptr) (v : Task) : Sched :=
  { s with mem := Function.update s.mem task v }

/-- The assignment `task->next = v`. -/
def setNext (s : Sched) (task v : Ptr) : Sched := s.store task { s.mem task with next := v }

/-- The assignment `task->prev = v`. -/
def setPrev (s : Sched) (task v : Ptr) : Sched := s.store task { s.mem task with prev := v }

end Sched

/-! ## The functions of the task list -/

def taskGetNext (s : Sched) : Ptr :=
  if s.next s.currentTask = 0 then s.taskHead else s.next s.currentTask

/-- The first statement of `task_list_remove`: the predecessor is linked past the task. -/
def linkPast (s : Sched) (task : Ptr) : Sched :=
  { s with mem := if s.prev task ≠ 0 then (s.setNext (s.prev task) (s.next task)).mem
      else s.mem }

/-- `task_list_remove`: the successor of the removed task keeps its back link. -/
def taskListRemove (s : Sched) (task : Ptr) : Sched :=
  let s := linkPast s task
  let s := { s with taskHead := if task = s.taskHead then s.next task else s.taskHead }
  let s := { s with taskTail := if task = s.taskTail then s.prev task else s.taskTail }
  { s with currentTask := if task = s.currentTask then taskGetNext s else s.currentTask }

def taskFree (s : Sched) (task : Ptr) : Sched :=
  let s := { s with chunksFreed := if (s.mem task).mainTask then
    s.chunksFreed ++ [(s.mem task).pageDirectory] else s.chunksFreed }
  let s := taskListRemove s task
  { s with kfreed := s.kfreed ++ [task] }

/-- The `for` loop of `task_free_all_for_process`, which goes on through the `next` field
of the structure it may just have freed; `none` is a walk that never ends. -/
def taskFreeAllLoop (process : Ptr) (s : Sched) (current : Ptr) : Option Sched :=
  Loop.run ⟨fun (s, current) => some <|
    if current = 0 then .inr s
    else
      let s := if (s.mem current).process = process then taskFree s current else s
      .inl (s, s.next current)⟩ (s, current)

lemma taskFreeAllLoop_step (process : Ptr) (s : Sched) (current : Ptr) :
    taskFreeAllLoop process s current =
      if current = 0 then some s
      else
        let s := if (s.mem current).process = process then taskFree s current else s
        taskFreeAllLoop process s (s.next current) := by
  by_cases h : current = 0
  · rw [if_pos h]
    exact Loop.run_leave (congrArg some (if_pos h))
  · rw [if_neg h]
    exact Loop.run_next (congrArg some (if_neg h))

def taskFreeAllForProcess (s : Sched) (process : Ptr) : Option Sched :=
  taskFreeAllLoop process s s.taskHead

/-- The registers a new task starts with at address `ip`. -/
def initialRegisters (ip : ℕ) : Registers :=
  { ip := ip, ss := userDataSegment, cs := userCodeSegment,
    esp := programVirtualStackAddressStart }

/-- `task_init`; `pageDirectory` is what `paging_new_4gb` returned. -/
def taskInit (s : Sched) (task : Ptr) (process : ProcessInfo) (pageDirectory : Ptr) :
    Sched × ℤ :=
  let s := s.store task {}
  let s := s.store task { s.mem task with pageDirectory := pageDirectory }
  if pageDirectory = 0 then (s, -eio)
  else
    let ip := if process.filetype = .elf then process.entry else programVirtualAddress
    (s.store task { s.mem task with
      registers := initialRegisters ip, process := process.ptr, mainTask := true }, 0)

/-- The code that `task_new` and `task_add_to_process` share: append the task. -/
def taskAppend (s : Sched) (task : Ptr) : Sched :=
  if s.taskHead = 0 then { s with taskHead := task, taskTail := task, currentTask := task }
  else
    let s := s.setNext s.taskTail task
    let s := s.setPrev task s.taskTail
    { s with taskTail := task }

/-- `task_new`; `task` and `pageDirectory` are the results of `kzalloc` and of
`paging_new_4gb`. -/
def taskNew (s : Sched) (process : ProcessInfo) (task pageDirectory : Ptr) :
    Sched × Except ℤ Ptr :=
  if task = 0 then (taskFree s task, .error (-enomem))
  else
    let (s, res) := taskInit s task process pageDirectory
    if res ≠ allOk then (taskFree s task, .error res)
    else (taskAppend s task, .ok task)

/-- `task_add_to_process`; `task` is the result of `kzalloc`. -/
def taskAddToProcess (s : Sched) (process : ProcessInfo) (addr : ℕ) (task : Ptr) :
    Sched × Except ℤ Ptr :=
  if task = 0 then (taskFree s task, .error (-enomem))
  else
    let s := s.store task {}
    let s := s.store task
      { s.mem task with pageDirectory := (s.mem process.task).pageDirectory }
    if (s.mem task).pageDirectory = 0 then (taskFree s task, .error (-eio))
    else
      let s := s.store task
        { s.mem task with registers := initialRegisters addr, process := process.ptr }
      (taskAppend s task, .ok task)

/-! ## Runs of the list functions -/

/-- The scheduler together with the tasks that are alive, in creation order. -/
structure ListRun where
  sched : Sched
  live : List Ptr

/-- A call of one of the four functions that edit the list.  Calls that allocate carry
the results of their allocations. -/
inductive ListOp
  | taskNew (process : ProcessInfo) (task pageDirectory : Ptr)
  | taskAddToProcess (process : ProcessInfo) (addr : ℕ) (task : Ptr)
  | taskFree (task : Ptr)
  | taskFreeAllForProcess (process : Ptr)

/-- The tasks alive after a creation. -/
def ListRun.created (r : ListRun) (res : Sched × Except ℤ Ptr) : ListRun :=
  match res with
  | (s, .ok task) => ⟨s, r.live ++ [task]⟩
  | (s, .error _) => ⟨s, r.live⟩

/-- One call. -/
def listStep (r : ListRun) : ListOp → Option ListRun
  | .taskNew process task pageDirectory =>
      some (r.created (taskNew r.sched process task pageDirectory))
  | .taskAddToProcess process addr task =>
      some (r.created (taskAddToProcess r.sched process addr task))
  | .taskFree task => some ⟨taskFree r.sched task, r.live.erase task⟩
  | .taskFreeAllForProcess process =>
      (taskFreeAllForProcess r.sched process).map fun s =>
        ⟨s, r.live.filter fun t => (r.sched.mem t).process ≠ process⟩

/-- Allocations succeed with blocks that no live task occupies, and only live tasks are
freed. -/
def ListLegal (r : ListRun) : ListOp → Prop
  | .taskNew _ task pageDirectory => task ≠ 0 ∧ task ∉ r.live ∧ pageDirectory ≠ 0
  | .taskAddToProcess _ _ task => task ≠ 0 ∧ task ∉ r.live
  | .taskFree task => task ∈ r.live
  | .taskFreeAllForProcess _ => True

/-- The list of the scheduler: following `next` from `task_head` visits the live tasks in
creation order and ends at `task_tail` with `NULL`, every `prev` is the live predecessor,
and the current task is alive when one is. -/
structure WellFormed (r : ListRun) : Prop where
  ne_null : ∀ t ∈ r.live, t ≠ 0
  seg : Seg r.sched.next r.sched.taskHead r.live 0
  tail_eq : r.sched.taskTail = r.live.getLastD 0
  back : BackLinked r.sched.prev 0 r.live
  current_mem : r.live ≠ [] → r.sched.currentTask ∈ r.live

/-- The scheduler at boot: no task, all pointers `NULL`, the memory arbitrary. -/
def bootRun (mem : Ptr → Task) : ListRun := ⟨⟨mem, 0, 0, 0, [], []⟩, []⟩

/-- The calls that take only the last task off the list. -/
def RemovesOnlyTail (r : ListRun) : ListOp → Prop
  | .taskFree task => r.live.getLastD 0 = task
  | .taskFreeAllForProcess process =>
      ∀ t ∈ r.live, (r.sched.mem t).process = process → r.live.getLastD 0 = t
  | _ => True

end SerpaeOS.TaskList
