import SerpaeOS.Task.Load

/-!
# Commands that start and end processes

The commands of `isr80h/process.c` and `isr80h/misc.c` that load a program, invoke a command
or exit, and the clock interrupt, with the functions they call.  Each either returns to the
task that has called it, or resumes a task with `task_switch` and `task_return`; the result
of a definition is the error code, or the task that is resumed.

The contents of the strings that `process_inject_arguments` copies are left out.  What is in
memory at address `0` is a parameter: it is read as a string for `he` without a command.
-/

namespace SerpaeOS

open Prog TaskList

/-! ## Resuming the next task -/

/-- The loop of `task_next`; without a task that is awake the kernel panics. -/
def taskNextLoop (s : System) (nextTask : Ptr) : Option Ptr :=
  Loop.run ⟨fun nextTask =>
    if nextTask = 0 then none
    else some <|
      if (s.process (s.sched.mem nextTask).process).currentlyHosting = false then .inr nextTask
      else .inl (s.sched.next nextTask)⟩ nextTask

/-- `task_next`: the task that is resumed. -/
def taskNext : SystemProg Ptr := do
  let s ← getSystem
  match taskNextLoop s (taskGetNext s.sched) with
  | none => stuck
  | some nextTask => do
    taskSwitch nextTask
    return nextTask

/-! ## Arguments -/

/-- The sizes of a pointer and of the string in `struct command_argument`. -/
def pointerSize : ℕ := 4
def argumentSize : ℕ := 512

/-- The result of mapping a block of a process, which does not depend on what is mapped
already. -/
def processMallocResult (ptr size : ℕ) : ℤ :=
  (pagingMapTo (pagingNew4gb 5 lowTables) ptr ptr (allocationEnd ptr size) userPageFlags).1

/-- `process_malloc`. -/
def processMallocCall (process : Ptr) (size : ℕ) : SystemProg Ptr := do
  let ptr ← kzallocCall size
  if ptr = 0 then return 0
  else do
    let s ← getSystem
    match (List.range maxProgramAllocations).find? fun i =>
        ((s.process process).allocations i).ptr = 0 with
    | none => do
      kfreeCall ptr
      return 0
    | some index =>
      if processMallocResult ptr size < 0 then do
        kfreeCall ptr
        return 0
      else do
        updateSystem fun s => s.setProcess process fun p =>
          { p with allocations := Function.update p.allocations index ⟨ptr, size⟩ }
        return ptr

/-- It does to the heap and to the table of allocations what `processMalloc` does. -/
lemma processMallocCall_eq (process : Ptr) (size : ℕ) (s : System) : ∃ m,
    let r := processMalloc s.kernel.memory.heap
      ⟨(s.process process).allocations, pagingNew4gb 5 lowTables⟩ size
    m.heap = r.1 ∧ (r.2.2 ≠ 0 → allocate size s.kernel.memory = some (r.2.2, m)) ∧
      processMallocCall process size s = some (r.2.2, (s.withMemory m).setProcess process fun p =>
        { p with allocations := r.2.1.allocations }) := by
  have hsame : ∀ m, (s.withMemory m).setProcess process
      (fun p => { p with allocations := (s.process process).allocations }) = s.withMemory m := by
    intro m
    exact congrArg (fun f => { s.withMemory m with process := f }) (Function.update_eq_self _ _)
  obtain ⟨heap, ptr, hk⟩ : ∃ heap ptr, kzalloc s.kernel.memory.heap size = (heap, ptr) :=
    ⟨_, _, rfl⟩
  have halloc : allocate size s.kernel.memory =
      some (ptr, ⟨heap, ptr :: s.kernel.memory.returned, s.kernel.memory.freed⟩) := by
    rw [allocate, hk]
  have hcall : kzallocCall size s = some (ptr, s.withMemory
      ⟨heap, ptr :: s.kernel.memory.returned, s.kernel.memory.freed⟩) := by
    rw [kzallocCall, onKernel, onMemory, halloc]
    rfl
  have hresult : (pagingMapTo (pagingNew4gb 5 lowTables) ptr ptr (allocationEnd ptr size)
      userPageFlags).1 = processMallocResult ptr size := rfl
  have hbind : ∀ k : Ptr → SystemProg Ptr, (kzallocCall size >>= k) s = k ptr (s.withMemory
      ⟨heap, ptr :: s.kernel.memory.returned, s.kernel.memory.freed⟩) := by
    intro k
    have hrun : (kzallocCall size >>= k) s = (kzallocCall size s).bind fun r => k r.1 r.2 := rfl
    rw [hrun, hcall]
    rfl
  rw [processMalloc, hk, processMallocCall, hbind]
  simp only
  by_cases hzero : ptr = 0
  · rw [if_pos hzero, if_pos hzero]
    exact ⟨_, rfl, fun hne => absurd rfl hne, congrArg (fun t => some (0, t)) (hsame _).symm⟩
  rw [if_neg hzero, if_neg hzero, getSystem_bind]
  have hfind : ((List.range maxProgramAllocations).find? fun i =>
      (((s.withMemory ⟨heap, ptr :: s.kernel.memory.returned,
        s.kernel.memory.freed⟩).process process).allocations i).ptr = 0) =
      findFreeAllocIndex ⟨(s.process process).allocations, pagingNew4gb 5 lowTables⟩ := rfl
  rw [hfind]
  cases findFreeAllocIndex ⟨(s.process process).allocations, pagingNew4gb 5 lowTables⟩ with
  | none =>
    exact ⟨⟨kfree heap ptr, _, _⟩, rfl, fun hne => absurd rfl hne,
      congrArg (fun t => some (0, t)) (hsame _).symm⟩
  | some index =>
    simp only [hresult]
    by_cases hneg : processMallocResult ptr size < 0
    · rw [if_pos hneg, if_pos hneg]
      exact ⟨⟨kfree heap ptr, _, _⟩, rfl, fun hne => absurd rfl hne,
        congrArg (fun t => some (0, t)) (hsame _).symm⟩
    · rw [if_neg hneg, if_neg hneg]
      exact ⟨_, rfl, fun _ => halloc, rfl⟩

/-- A property that depends on neither is kept. -/
lemma keeps_processMallocCall_of {I : System → Prop} {process : Ptr} (size : ℕ)
    (hI : ∀ t m allocations, I t → I ((t.withMemory m).setProcess process fun p =>
      { p with allocations := allocations })) : Prog.Keeps I (processMallocCall process size) := by
  intro t p t' ht hrun
  obtain ⟨m, -, -, heq⟩ := processMallocCall_eq process size t
  rw [heq] at hrun
  cases hrun
  exact hI t m _ ht

/-- The loop of `process_inject_arguments` over the arguments. -/
def processInjectArgumentsLoop (process : Ptr) : List (List UInt8) → SystemProg ℤ
  | [] => return 0
  | _ :: root => do
    let argumentStr ← processMallocCall process argumentSize
    if argumentStr = 0 then return -enomem else processInjectArgumentsLoop process root

/-- `process_inject_arguments`. -/
def processInjectArguments (process : Ptr) (root : List (List UInt8)) : SystemProg ℤ := do
  if root.length = 0 then return -eio
  else do
    let argv ← processMallocCall process (pointerSize * root.length)
    if argv = 0 then return -enomem else processInjectArgumentsLoop process root

/-! ## The commands -/

/-- The process of the current task. -/
def System.callingProcess (s : System) : Ptr := (s.sched.mem s.sched.currentTask).process

/-- The directory `0:/` of `isr80h_command6_process_load_start`. -/
def rootLocation : List UInt8 := [0x30, 0x3A, 0x2F]

/-- The end of a command: the main task of the process is resumed. -/
def resumeProcess (process : Ptr) : SystemProg (Except ℤ Ptr) := do
  let s ← getSystem
  taskSwitch (s.process process).task
  return .ok (s.process process).task

/-- `isr80h_command6_process_load_start`, for a string that could be copied. -/
def isr80hCommand6ProcessLoadStart (filename : List UInt8) (now : ℕ) :
    SystemProg (Except ℤ Ptr) := do
  let loaded ← processLoadSwitch (rootLocation ++ filename) now 0
  if loaded.1 < 0 then return .error loaded.1 else resumeProcess loaded.2

/-- The path that `run` builds; the location `NULL` is the empty one, as `strncpy` writes over
it. -/
def commandPath (program location : List UInt8) : List UInt8 :=
  location ++ program.take (maxPath - location.length - 1)

/-- `run`. -/
def run (program location : List UInt8) (now : ℕ) (host : Ptr) : SystemProg (ℤ × Ptr) :=
  processLoadSwitch (commandPath program location) now host

/-- The locations `0:/sys/bin/`, `0:/usr/bin/` and `NULL`. -/
def commandLocations : List (List UInt8) :=
  [[0x30, 0x3A, 0x2F, 0x73, 0x79, 0x73, 0x2F, 0x62, 0x69, 0x6E, 0x2F],
    [0x30, 0x3A, 0x2F, 0x75, 0x73, 0x72, 0x2F, 0x62, 0x69, 0x6E, 0x2F],
    []]

/-- The loop over the locations in `isr80h_command7_invoke_system_command`: the process, if a
location has the program. -/
def runLocations (program : List UInt8) (now : ℕ) (host : Ptr) :
    List (List UInt8) → SystemProg (Option Ptr)
  | [] => return none
  | location :: rest => do
    let loaded ← run program location now host
    if loaded.1 ≠ 0 then runLocations program now host rest else return some loaded.2

/-- The word `he`. -/
def hostWord : List UInt8 := [0x68, 0x65]

/-- The command asks for a host: the first argument is `he`. -/
def AsksHost (arguments : List (List UInt8)) : Prop :=
  istrncmp hostWord (arguments.headD []) argumentSize = 0

instance (arguments : List (List UInt8)) : Decidable (AsksHost arguments) :=
  inferInstanceAs (Decidable (_ = _))

/-- The paths that are tried for the arguments. -/
def candidatePaths (atNull : List UInt8) (arguments : List (List UInt8)) : List (List UInt8) :=
  commandLocations.map <| commandPath <|
    if AsksHost arguments then arguments.tail.headD atNull else arguments.headD []

/-- The part of `isr80h_command7_invoke_system_command` that puts the host to sleep. -/
def sleepHost (hosted : Bool) : SystemProg Ptr := do
  if hosted then do
    let s ← getSystem
    updateSystem fun s => s.setProcess s.callingProcess fun p => { p with currentlyHosting := true }
    return s.callingProcess
  else return 0

/-- The end of `isr80h_command7_invoke_system_command`, with a loaded program. -/
def startCommand (process : Ptr) (root : List (List UInt8)) : SystemProg (Except ℤ Ptr) := do
  let res ← processInjectArguments process root
  if res < 0 then return .error (-einvarg) else resumeProcess process

/-- The part of `isr80h_command7_invoke_system_command` after the arguments are looked at. -/
def invokeProgram (hosted : Bool) (program : List UInt8) (root : List (List UInt8)) (now : ℕ) :
    SystemProg (Except ℤ Ptr) := do
  let host ← sleepHost hosted
  let loaded ← runLocations program now host commandLocations
  match loaded with
  | none => return .error (-einvarg)
  | some process => startCommand process root

/-- `isr80h_command7_invoke_system_command`; `atNull` is the string at address `0`. -/
def isr80hCommand7InvokeSystemCommand (atNull : List UInt8) (arguments : List (List UInt8))
    (now : ℕ) : SystemProg (Except ℤ Ptr) := do
  match arguments with
  | [] => return .error (-einvarg)
  | argument :: next =>
    if argument = [] then return .error (-einvarg)
    else if istrncmp hostWord argument argumentSize = 0 then
      invokeProgram true (next.headD atNull) next now
    else invokeProgram false argument arguments now

/-- `isr80h_command0_exit` of a process other than process `0`, for which the computer is
switched off. -/
def isr80hCommand0Exit : SystemProg Ptr := do
  let s ← getSystem
  if (s.process s.callingProcess).id = 0 then stuck
  else do
    let _ ← processTerminate s.callingProcess
    taskNext

/-- `idt_handle_exception_generic`: a thread that fails is ended, and with its main thread the
process. -/
def idtHandleExceptionGeneric : SystemProg Ptr := do
  let s ← getSystem
  if (s.sched.mem s.sched.currentTask).mainTask then do
    let _ ← processTerminate s.callingProcess
    taskNext
  else do
    taskFreeCall s.sched.currentTask
    taskNext

end SerpaeOS
