import SerpaeOS.Lib.Bytes
import SerpaeOS.Memory.Paging
import SerpaeOS.Task.List

/-!
# Threads

A process starts a thread with a list of arguments, which the kernel pushes on the stack of the new
task.  The stack of a process is mapped below `programVirtualStackAddressStart`; a new task begins
with this address in its stack pointer, and `task_push_stack_item` stores a word before it moves
the stack pointer down.  The task structures are kept apart from the bytes of the memory.
-/

namespace SerpaeOS

open Bytes Word TaskList

def programVirtualStackAddressEnd : ℕ := programVirtualStackAddressStart - userProgramStackSize

/-- The tasks, the bytes of the memory, the page directories by their addresses, and the addresses
of the words that were pushed for the last new task. -/
structure ThreadSystem where
  sched : Sched
  byte : ℕ → UInt8
  directory : Ptr → PagingChunk
  pushed : List ℕ

namespace ThreadSystem

variable (s : ThreadSystem) (task : Ptr)

def esp : ℕ := (s.sched.mem task).registers.esp

/-- Where a task finds the byte at an address of its own. -/
def translate (virt : ℕ) : ℕ :=
  pagingGetPhysicalAddress (s.directory (s.sched.mem task).pageDirectory) (virt % 2 ^ 32)

/-- A word of the memory of a task. -/
def userWord (virt : ℕ) : ℕ := u32le (view (s.translate task) s.byte) virt

/-- A word as the kernel sees it, whose directory maps every page to itself. -/
def kernelWord (a : ℕ) : ℕ := u32le (view (· % 2 ^ 32) s.byte) a

end ThreadSystem

/-- `task_get_stack_item`. -/
def taskGetStackItem (s : ThreadSystem) (task : Ptr) (index : ℕ) : ℕ :=
  s.userWord task (s.esp task + 4 * index)

/-- `task_push_stack_item`. -/
def taskPushStackItem (s : ThreadSystem) (task : Ptr) (value : ℕ) : ThreadSystem :=
  let t := s.sched.mem task
  let sp := t.registers.esp
  { s with
    byte := storeVia (s.translate task) s.byte sp (numberBytes 4 value)
    sched := s.sched.store task { t with registers := { t.registers with esp := u32 (sp - 4) } }
    pushed := s.pushed ++ [sp] }

/-- The loop over the first `n` arguments, the last one first. -/
def pushArguments (task arguments : Ptr) : ℕ → ThreadSystem → ThreadSystem
  | 0, s => s
  | p + 1, s =>
    pushArguments task arguments p (taskPushStackItem s task (s.kernelWord (arguments + 4 * p)))

/-- `task_switch`. -/
def ThreadSystem.taskSwitch (s : ThreadSystem) (task : Ptr) : ThreadSystem :=
  { s with sched := { s.sched with currentTask := task } }

/-- The argument `arg_count` of the command. -/
def argCount (s : ThreadSystem) : ℤ := i32 (taskGetStackItem s s.sched.currentTask 1)

/-- The physical address of the argument list. -/
def argumentList (s : ThreadSystem) : ℕ :=
  s.translate s.sched.currentTask (taskGetStackItem s s.sched.currentTask 2)

/-- `isr80h_command16_new_thread` of a process; `allocated` is the result of `kzalloc` in
`task_add_to_process`.  It returns the new task. -/
def isr80hCommand16NewThread (s : ThreadSystem) (process : ProcessInfo) (allocated : Ptr) :
    ThreadSystem × Option Ptr :=
  let virtualStartAddr := taskGetStackItem s s.sched.currentTask 0
  match taskAddToProcess s.sched process virtualStartAddr allocated with
  | (sched, .error _) => ({ s with sched := sched }, none)
  | (sched, .ok newTask) =>
    let s := pushArguments newTask (argumentList s) (argCount s).toNat
      { s with sched := sched, pushed := [] }
    (s.taskSwitch newTask, some newTask)

/-- The arguments lie behind a free word on the stack of the task. -/
structure HoldsArguments (s s' : ThreadSystem) (task : Ptr) : Prop where
  argument : ∀ i < (argCount s).toNat,
    s'.userWord task (s'.esp task + 4 * (i + 1)) = s.kernelWord (argumentList s + 4 * i)
  free : ∀ a ∈ s'.pushed, s'.esp task + 4 ≤ a

/-- The words were pushed to the pages that are mapped for the stack. -/
def PushedInside (s' : ThreadSystem) : Prop :=
  ∀ a ∈ s'.pushed, programVirtualStackAddressEnd ≤ a ∧ a + 4 ≤ programVirtualStackAddressStart

variable {s s' : ThreadSystem} {task arguments allocated : Ptr} {process : ProcessInfo}
  {n value : ℕ} {R : Set ℕ}

/-! ## One word -/

section push

lemma taskPushStackItem_pushed :
    (taskPushStackItem s task value).pushed = s.pushed ++ [s.esp task] := rfl

end push

/-! ## All arguments -/

section loop

lemma pushed_prefix : s.pushed <+: (pushArguments task arguments n s).pushed := by
  induction n generalizing s with
  | zero => exact List.prefix_rfl
  | succ n ih =>
    rw [pushArguments]
    exact (taskPushStackItem_pushed ▸ List.prefix_append _ _).trans ih

end loop

/-! ## The new task -/

@[simp] lemma taskSwitch_pushed (t : Ptr) : (s.taskSwitch t).pushed = s.pushed := rfl

lemma taskAppend_registers (sched : Sched) (t : Ptr) :
    ((taskAppend sched task).mem t).registers = (sched.mem t).registers ∧
      ((taskAppend sched task).mem t).pageDirectory = (sched.mem t).pageDirectory := by
  rw [taskAppend]
  split_ifs
  · exact ⟨rfl, rfl⟩
  · simp only [Sched.setPrev, Sched.setNext, Sched.store, Function.update_apply]
    split_ifs with h1 h2 h3 <;> simp_all

/-- A new task begins at the upper end of the stack. -/
lemma taskAddToProcess_esp {sched sched' : Sched} {addr : ℕ}
    (h : taskAddToProcess sched process addr allocated = (sched', .ok task)) :
    (sched'.mem task).registers.esp = programVirtualStackAddressStart := by
  rw [taskAddToProcess] at h
  dsimp only at h
  split_ifs at h
  · cases h
  · cases h
  · obtain ⟨rfl, htask⟩ := Prod.mk.inj h
    obtain rfl := Except.ok.inj htask
    rw [(taskAppend_registers _ _).1]
    simp [Sched.store, initialRegisters]

/-- What the command does to create a thread. -/
lemma newThread_eq (h : isr80hCommand16NewThread s process allocated = (s', some task)) :
    ∃ t : ThreadSystem, t.byte = s.byte ∧ t.directory = s.directory ∧ t.pushed = [] ∧
      t.esp task = programVirtualStackAddressStart ∧
      s' = (pushArguments task (argumentList s) (argCount s).toNat t).taskSwitch task := by
  rw [isr80hCommand16NewThread] at h
  rcases hadd : taskAddToProcess s.sched process (taskGetStackItem s s.sched.currentTask 0)
    allocated with ⟨sched, _ | newTask⟩
  · rw [hadd] at h
    cases h
  · rw [hadd] at h
    obtain ⟨rfl, htask⟩ := Prod.mk.inj h
    obtain rfl := Option.some.inj htask
    exact ⟨{ s with sched := sched, pushed := [] }, rfl, rfl, rfl, taskAddToProcess_esp hadd, rfl⟩

/-- The first word is pushed at the initial stack pointer itself. -/
lemma start_mem_pushed (h : isr80hCommand16NewThread s process allocated = (s', some task))
    (hpos : 0 < argCount s) : programVirtualStackAddressStart ∈ s'.pushed := by
  obtain ⟨t, -, -, -, hesp, hs'⟩ := newThread_eq h
  obtain ⟨n, hn⟩ := Nat.exists_eq_add_of_le' (show 1 ≤ (argCount s).toNat by omega)
  rw [hs', taskSwitch_pushed, hn, pushArguments]
  refine pushed_prefix.subset ?_
  rw [taskPushStackItem_pushed, hesp]
  exact List.mem_append_right _ (List.mem_singleton_self _)

/-- A new thread has its arguments in place and nothing written outside its stack if and only if
it has no arguments: the word of the last one is pushed behind the upper end of the stack. -/
theorem new_thread_stack_iff
    (h : isr80hCommand16NewThread s process allocated = (s', some task)) :
    (HoldsArguments s s' task ∧ PushedInside s') ↔ argCount s ≤ 0 := by
  constructor
  · rintro ⟨-, hinside⟩
    by_contra hpos
    have hstart := (hinside _ (start_mem_pushed h (not_le.mp hpos))).2
    omega
  · intro hnone
    have hcount : (argCount s).toNat = 0 := Int.toNat_eq_zero.mpr hnone
    obtain ⟨t, -, -, hpushed, -, hs'⟩ := newThread_eq h
    have hnil : s'.pushed = [] := by rw [hs', taskSwitch_pushed, hcount, pushArguments, hpushed]
    refine ⟨⟨fun i hi => ?_, fun a ha => ?_⟩, fun a ha => ?_⟩
    · rw [hcount] at hi
      exact absurd hi (Nat.not_lt_zero i)
    · rw [hnil] at ha
      exact absurd ha List.not_mem_nil
    · rw [hnil] at ha
      exact absurd ha List.not_mem_nil

/-- A process with one task and the given memory, whose pages are all mapped to themselves. -/
def oneTaskSystem (byte : ℕ → UInt8) : ThreadSystem where
  sched := {
    mem := Function.update (fun _ => {}) 0x2000000
      { pageDirectory := 0x1000000, registers := { esp := 0x3FE000 }, mainTask := true }
    taskHead := 0x2000000
    taskTail := 0x2000000
    currentTask := 0x2000000
    chunksFreed := []
    kfreed := [] }
  byte := byte
  directory _ := pagingNew4gb 7 lowTables
  pushed := []

def oneTaskProcess : ProcessInfo := ⟨0x3000000, .elf, 0x400000, 0x2000000⟩

lemma oneTaskSystem_translate (byte : ℕ → UInt8) :
    (oneTaskSystem byte).translate 0x2000000 = (· % 2 ^ 32) := by
  funext virt
  exact pagingGetPhysicalAddress_pagingNew4gb 7 lowTables (Nat.mod_lt _ (by decide))

/-- The command creates a task there. -/
lemma newThread_oneTaskSystem (byte : ℕ → UInt8) : ∃ s',
    isr80hCommand16NewThread (oneTaskSystem byte) oneTaskProcess 0x4000000 =
      (s', some 0x4000000) := by
  refine ⟨_, Prod.ext rfl ?_⟩
  simp [isr80hCommand16NewThread, taskAddToProcess, oneTaskSystem, oneTaskProcess, Sched.store]

theorem new_thread_stack_none : ∃ s',
    isr80hCommand16NewThread (oneTaskSystem fun _ => 0) oneTaskProcess 0x4000000 =
      (s', some 0x4000000) ∧ PushedInside s' := by
  obtain ⟨s', h⟩ := newThread_oneTaskSystem fun _ => 0
  exact ⟨s', h, ((new_thread_stack_iff h).mpr (by decide)).2⟩

/-- With one argument the word is pushed at the upper end of the stack, which is not mapped for
it. -/
theorem not_new_thread_stack : ¬ ∀ (s s' : ThreadSystem) (process : ProcessInfo)
    (allocated task : Ptr),
    isr80hCommand16NewThread s process allocated = (s', some task) →
    4 * ((argCount s).toNat + 1) ≤ userProgramStackSize →
    HoldsArguments s s' task ∧ PushedInside s' := by
  intro hall
  obtain ⟨s', h⟩ := newThread_oneTaskSystem fun a => if a = 0x3FE004 then 1 else 0
  have hcount : argCount (oneTaskSystem fun a => if a = 0x3FE004 then 1 else 0) = 1 := by
    have hesp : (oneTaskSystem fun a => if a = 0x3FE004 then 1 else 0).esp 0x2000000 =
        0x3FE000 := by
      simp [ThreadSystem.esp, oneTaskSystem]
    rw [argCount, taskGetStackItem]
    change i32 (ThreadSystem.userWord _ 0x2000000 (ThreadSystem.esp _ 0x2000000 + 4 * 1)) = 1
    rw [hesp, ThreadSystem.userWord, oneTaskSystem_translate]
    simp [u32le, u16le, view, oneTaskSystem, i32]
  obtain ⟨-, hinside⟩ := hall _ _ _ _ _ h (by rw [hcount]; decide)
  have hstart := (hinside _ (start_mem_pushed h (by rw [hcount]; decide))).2
  omega

end SerpaeOS
