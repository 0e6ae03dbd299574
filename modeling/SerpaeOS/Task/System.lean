import SerpaeOS.Fs.FileOps
import SerpaeOS.Task.ElfMapping
import SerpaeOS.Task.Files
import SerpaeOS.Task.List
import SerpaeOS.Task.Process
import SerpaeOS.Task.Screen

/-!
# The process table

`process.c`: the table of processes, loading a program into a slot of the table, switching
to a process and terminating it.  A process is a structure in the kernel heap; the table and
the fields of the structures hold addresses.  Loading reads the program through the file
system, and takes blocks for the structure, the image, the stack, the task with its page
directory, and a screen unless the process shares that of its host.

The memory of the structures is a function from addresses to structures, as that of the
tasks; the contents of page tables are left out.  `process_switch` stores the screen of the
process that was shown, whose block may have been given back: the structures that the bytes lie
over change with them.  The static data of the kernel do not lie in the heap, as screens do.
-/

namespace SerpaeOS

open BlockTable Bytes Word Prog TaskList

def maxProcesses : ℕ := 13
def totalMaxProcesses : ℕ := 50

/-- The sizes of `struct process`, `struct screen`, `struct elf_file`, `struct task` and
`struct paging_4gb_chunk`. -/
def processSize : ℕ := 9464
def screenSize : ℕ := 4012
def elfFileSize : ℕ := 132
def taskSize : ℕ := 68
def pagingChunkSize : ℕ := 4

/-- The fields of `struct process` that the functions below use. -/
structure Process where
  host : Ptr
  currentlyHosting : Bool
  id : ℕ
  task : Ptr
  allocations : ℕ → Allocation
  filetype : ProcessFiletype
  /-- The union of `ptr` and `elf_file`. -/
  data : Ptr
  stack : Ptr
  size : ℕ
  screen : Ptr
  iob : ℕ → ℤ

/-- `process_init`: a structure of zero bytes. -/
def Process.zero : Process where
  host := 0
  currentlyHosting := false
  id := 0
  task := 0
  allocations _ := ⟨0, 0⟩
  filetype := .elf
  data := 0
  stack := 0
  size := 0
  screen := 0
  iob _ := 0

/-- The blocks of a page directory, next to that of `struct paging_4gb_chunk`. -/
structure PageDirectory where
  directoryEntry : Ptr
  tables : List Ptr

/-- What the structures in memory are when bytes have been stored from an address on that lie over
them.  The layout of the structures is left open, so these are any functions; those of a
descriptor and of a volume, which have several blocks, look themselves where the bytes lie. -/
structure Overlay where
  process : ℕ → List UInt8 → Ptr → Process → Process
  elfFile : ℕ → List UInt8 → Ptr → ElfFile → ElfFile
  pageDirectory : ℕ → List UInt8 → Ptr → PageDirectory → PageDirectory
  task : ℕ → List UInt8 → Ptr → Task → Task
  descriptor : ℕ → List UInt8 → FileDescriptor → FileDescriptor
  mount : ℕ → List UInt8 → FatMount → FatMount

/-- The state of the kernel. -/
structure System where
  kernel : Kernel
  /-- The bytes of the program images and of the screens that are not shown. -/
  memory : Memory
  process : Ptr → Process
  elfFile : Ptr → ElfFile
  pageDirectory : Ptr → PageDirectory
  sched : Sched
  processes : ℕ → Ptr
  currentProcess : Ptr
  terminal : Terminal
  overlay : Overlay
  /-- The stores of `process_switch` so far: addresses and bytes. -/
  screenStores : List (ℕ × List UInt8)

/-- A program over the state of the system. -/
abbrev SystemProg := StateT System Option

def onKernel {α : Type} (p : KernelProg α) : SystemProg α := fun s =>
  (p s.kernel).map fun r => (r.1, { s with kernel := r.2 })

def getSystem : SystemProg System := fun s => some (s, s)

lemma getSystem_bind {α : Type} (f : System → SystemProg α) (s : System) :
    (getSystem >>= f) s = f s s := rfl

def updateSystem (f : System → System) : SystemProg Unit := fun s => some ((), f s)

/-- A call of `kzalloc`. -/
def kzallocCall (size : ℕ) : SystemProg Ptr := onKernel (onMemory (allocate size))

/-- A call of `kfree`. -/
def kfreeCall (p : Ptr) : SystemProg Unit := onKernel (onMemory (release p))

/-- An assignment to fields of the structure of a process. -/
def System.setProcess (s : System) (p : Ptr) (f : Process → Process) : System :=
  { s with process := Function.update s.process p (f (s.process p)) }

section setProcess

variable (s : System) (p : Ptr) (f : Process → Process)

@[simp] lemma System.setProcess_process :
    (s.setProcess p f).process = Function.update s.process p (f (s.process p)) := rfl
@[simp] lemma System.setProcess_sched : (s.setProcess p f).sched = s.sched := rfl
@[simp] lemma System.setProcess_currentProcess :
    (s.setProcess p f).currentProcess = s.currentProcess := rfl

end setProcess

/-! ## Page directories and tasks -/

/-- The page tables that `paging_new_4gb` allocates. -/
def newTables : ℕ → KProg (List Ptr)
  | 0 => return []
  | n + 1 => do
    let entry ← allocate 4096
    if entry = 0 then stuck
    else do
      let entries ← newTables n
      return entry :: entries

/-- The blocks that `paging_new_4gb` allocates: the chunk, and the directory and its tables. -/
def pagingNewBlocks : KProg (Ptr × PageDirectory) := do
  let directory ← allocate 4096
  if directory = 0 then stuck
  else do
    let tables ← newTables pagingTotalEntriesPerTable
    let chunk ← allocate pagingChunkSize
    if chunk = 0 then stuck else return (chunk, ⟨directory, tables⟩)

def releaseAll : List Ptr → KProg Unit
  | [] => return ()
  | p :: ps => do
    release p
    releaseAll ps

/-- `paging_free_4gb`. -/
def pagingFree4gb (chunk : Ptr) (d : PageDirectory) : KProg Unit := do
  releaseAll d.tables
  release d.directoryEntry
  release chunk

/-- What `task_free` gives back for a task: the page directory of a main task, and the
task. -/
def releaseTask (s : System) (task : Ptr) : KProg Unit := do
  let t := s.sched.mem task
  if t.mainTask then pagingFree4gb t.pageDirectory (s.pageDirectory t.pageDirectory)
  release task

def releaseTasks (s : System) : List Ptr → KProg Unit
  | [] => return ()
  | task :: tasks => do
    releaseTask s task
    releaseTasks s tasks

/-- `task_new`. -/
def taskNewCall (process : Ptr) : SystemProg Ptr := do
  let task ← kzallocCall taskSize
  if task = 0 then stuck
  else do
    let (chunk, directory) ← onKernel (onMemory pagingNewBlocks)
    updateSystem fun s =>
      let p := s.process process
      let entry := u32le s.memory.at ((s.elfFile p.data).elfMemory + 24)
      { s with
        pageDirectory := Function.update s.pageDirectory chunk directory
        sched := (taskNew s.sched ⟨process, p.filetype, entry, p.task⟩ task chunk).1 }
    return task

/-- `task_free`. -/
def taskFreeCall (task : Ptr) : SystemProg Unit := do
  let s ← getSystem
  onKernel (onMemory (releaseTask s task))
  updateSystem fun s => { s with sched := taskFree s.sched task }

/-- `task_free_all_for_process`; the blocks of the tasks are given back in the order in which
they are freed. -/
def taskFreeAllCall (process : Ptr) : SystemProg Unit := do
  let s ← getSystem
  match taskFreeAllForProcess s.sched process with
  | none => stuck
  | some sched => do
    onKernel (onMemory (releaseTasks s (sched.kfreed.drop s.sched.kfreed.length)))
    updateSystem fun s => { s with sched := sched }

/-! ## Program data -/

/-- `elf_close`. -/
def elfClose (file : Ptr) : SystemProg Unit := do
  if file = 0 then return ()
  else do
    let s ← getSystem
    kfreeCall (s.elfFile file).elfMemory
    kfreeCall file

/-- `process_free_program_data`. -/
def processFreeProgramData (process : Ptr) : SystemProg ℤ := do
  let s ← getSystem
  match (s.process process).filetype with
  | .binary => do
    kfreeCall (s.process process).data
    return 0
  | .elf => do
    elfClose (s.process process).data
    return 0
  | .driver => return -einvarg

/-- The mode string `"r"`. -/
def readMode : List UInt8 := [0x72]

/-- The part of `elf_load` with the open file: the result and the `elf_file` that is passed
out. -/
def elfLoadFrom (elfFile : Ptr) (fd : ℤ) : SystemProg (ℤ × Ptr) := do
  let stat ← onKernel (fstat fd)
  match stat.2 with
  | none => return (stat.1, 0)
  | some st =>
    if elfFile = 0 then stuck
    else do
      let elfMemory ← kzallocCall st.filesize
      let read ← onKernel (fread fd st.filesize)
      if elfMemory = 0 ∧ read.2 ≠ [] then stuck
      else do
        updateSystem fun s => { s with
          memory := ⟨store s.memory.byte elfMemory read.2⟩
          elfFile := Function.update s.elfFile elfFile ⟨elfMemory, 0, 0, 0, 0⟩ }
        if read.1 < 0 then return (read.1, 0)
        else do
          let s ← getSystem
          let loaded := elfProcessLoaded s.memory (s.elfFile elfFile)
          updateSystem fun s => { s with
            elfFile := Function.update s.elfFile elfFile loaded.2 }
          if loaded.1 < 0 then return (loaded.1, 0) else return (loaded.1, elfFile)

/-- `elf_load`. -/
def elfLoad (filename : List UInt8) (now : ℕ) : SystemProg (ℤ × Ptr) := do
  let elfFile ← kzallocCall elfFileSize
  let fd ← onKernel (fopen filename readMode now)
  if fd ≤ 0 then do
    let _ ← onKernel (fclose 0)
    return (-eio, 0)
  else do
    let res ← elfLoadFrom elfFile fd
    let _ ← onKernel (fclose fd)
    return res

/-- The part of `process_load_binary` before the file is closed. -/
def processReadBinary (process : Ptr) (fd : ℤ) : SystemProg ℤ := do
  let stat ← onKernel (fstat fd)
  match stat.2 with
  | none => return stat.1
  | some st => do
    let programDataPtr ← kzallocCall st.filesize
    if programDataPtr = 0 then return -enomem
    else do
      let read ← onKernel (fread fd st.filesize)
      updateSystem fun s => { s with memory := ⟨store s.memory.byte programDataPtr read.2⟩ }
      if read.1 < 0 then do
        kfreeCall programDataPtr
        return -eio
      else do
        updateSystem fun s => s.setProcess process fun p =>
          { p with filetype := .binary, data := programDataPtr, size := st.filesize }
        return stat.1

/-- `process_load_binary`; `fopen` does not return `0`. -/
def processLoadBinary (filename : List UInt8) (now : ℕ) (process : Ptr) : SystemProg ℤ := do
  let fd ← onKernel (fopen filename readMode now)
  if fd = 0 then do
    let _ ← onKernel (fclose fd)
    return -eio
  else do
    let res ← processReadBinary process fd
    let _ ← onKernel (fclose fd)
    return res

/-- `process_load_elf`. -/
def processLoadElf (filename : List UInt8) (now : ℕ) (process : Ptr) : SystemProg ℤ := do
  let loaded ← elfLoad filename now
  if loaded.1 < 0 then return loaded.1
  else do
    updateSystem fun s => s.setProcess process fun p =>
      { p with filetype := .elf, data := loaded.2 }
    return loaded.1

/-- `process_load_data`. -/
def processLoadData (filename : List UInt8) (now : ℕ) (process : Ptr) : SystemProg ℤ := do
  let res ← processLoadElf filename now process
  if res = -einformat then processLoadBinary filename now process else return res

/-- The result of `process_map_elf`, which does not depend on what is mapped already. -/
def processMapElfResult (memory : Memory) (file : ElfFile) : ℤ :=
  (processMapElf memory file (pagingNew4gb 5 lowTables)).1

/-- `process_map_memory`; the results of mapping a binary and of mapping the stack are not
looked at. -/
def processMapMemory (process : Ptr) : SystemProg ℤ := do
  let s ← getSystem
  match (s.process process).filetype with
  | .elf => return processMapElfResult s.memory (s.elfFile (s.process process).data)
  | .binary => return 0
  | .driver => stuck

/-! ## Loading -/

/-- The part of a failed `process_load_for_slot` that frees the task. -/
def processFreeTask (process : Ptr) : SystemProg Unit := do
  let s ← getSystem
  if (s.process process).task ≠ 0 then taskFreeCall (s.process process).task else return ()

/-- The end of a failed `process_load_for_slot`: the task and the program data are given back,
the structure of the process is not. -/
def processLoadFailed (process : Ptr) (res : ℤ) : SystemProg (ℤ × Ptr) := do
  processFreeTask process
  let _ ← processFreeProgramData process
  return (res, 0)

/-- The part of `process_load_for_slot` that sets the host and the screen. -/
def processSetHost (process hosting : Ptr) : SystemProg Unit := do
  updateSystem fun s => s.setProcess process fun p =>
    { p with currentlyHosting := false, host := hosting }
  if hosting ≠ 0 then do
    updateSystem fun s => s.setProcess process fun p =>
      { p with screen := (s.process hosting).screen }
    updateSystem fun s => s.setProcess hosting fun p => { p with currentlyHosting := true }
  else do
    let screen ← kzallocCall screenSize
    updateSystem fun s => s.setProcess process fun p => { p with screen := screen }

/-- The part of `process_load_for_slot` after the program is loaded. -/
def processStart (process : Ptr) (slot : ℕ) (hosting : Ptr) : SystemProg (ℤ × Ptr) := do
  let programStackPtr ← kzallocCall userProgramStackSize
  if programStackPtr = 0 then processLoadFailed process (-enomem)
  else do
    updateSystem fun s => s.setProcess process fun p =>
      { p with stack := programStackPtr, id := slot }
    let task ← taskNewCall process
    updateSystem fun s => s.setProcess process fun p => { p with task := task }
    let res ← processMapMemory process
    if res < 0 then processLoadFailed process res
    else do
      processSetHost process hosting
      updateSystem fun s => { s with processes := Function.update s.processes slot process }
      return (res, process)

/-- `process_load_for_slot`: the result, and the process that is passed out.  Without memory
for the structure, and for a slot that is taken, the error path uses a pointer that is `NULL`
or not set. -/
def processLoadForSlot (filename : List UInt8) (now slot : ℕ) (hosting : Ptr) :
    SystemProg (ℤ × Ptr) := do
  let s ← getSystem
  if slot < totalMaxProcesses ∧ s.processes slot ≠ 0 then stuck
  else do
    let process ← kzallocCall processSize
    if process = 0 then stuck
    else do
      updateSystem fun s => s.setProcess process fun _ => .zero
      let res ← processLoadData filename now process
      if res < 0 then processLoadFailed process res else processStart process slot hosting

/-- `process_get_free_slot`. -/
def processGetFreeSlot (s : System) : Option ℕ :=
  (List.range maxProcesses).find? fun i => s.processes i = 0

/-- `process_load`. -/
def processLoad (filename : List UInt8) (now : ℕ) (hosting : Ptr) : SystemProg (ℤ × Ptr) := do
  let s ← getSystem
  match processGetFreeSlot s with
  | none => return (-eistkn, 0)
  | some slot => processLoadForSlot filename now slot hosting

/-! ## Switching -/

/-- Structures of a size, of which those that the area lies over are changed. -/
def overlaid {α : Type} (a n size : ℕ) (f : Ptr → α → α) (g : Ptr → α) : Ptr → α :=
  fun q => if Overlap a n q size then f q (g q) else g q

/-- Bytes stored from an address on. -/
def System.storeBytes (s : System) (a : ℕ) (l : List UInt8) : System :=
  { s with
    kernel :=
      { s.kernel with
        fileDescriptors := fun i => (s.kernel.fileDescriptors i).map (s.overlay.descriptor a l)
        disks := fun i => (s.kernel.disks i).map (Option.map (s.overlay.mount a l)) }
    memory := ⟨store s.memory.byte a l⟩
    process := overlaid a l.length processSize (s.overlay.process a l) s.process
    elfFile := overlaid a l.length elfFileSize (s.overlay.elfFile a l) s.elfFile
    pageDirectory :=
      overlaid a l.length pagingChunkSize (s.overlay.pageDirectory a l) s.pageDirectory
    sched :=
      { s.sched with mem := overlaid a l.length taskSize (s.overlay.task a l) s.sched.mem }
    screenStores := s.screenStores ++ [(a, l)] }

/-- The bytes of the cells of a screen. -/
def CellMemory.screenBytes (m : CellMemory) : List UInt8 :=
  (List.range 4000).map fun k =>
    let cell := m.cell ((k / 2 : ℕ) : ℤ)
    if k % 2 = 0 then cell.toUInt8 else (cell >>> 8).toUInt8

/-- The cells of `struct screen` at an address. -/
def screenCells (byte : ℕ → UInt8) (screen : ℕ) : CellMemory :=
  ⟨fun i => UInt16.ofNat (u16le byte (screen + 12 + 2 * i.toNat)), []⟩

/-- `process_save_video`. -/
def System.processSaveVideo (s : System) (process : Ptr) : System :=
  let s := s.storeBytes ((s.process process).screen + 12) s.terminal.video.screenBytes
  let s := s.storeBytes ((s.process process).screen + 4) (numberBytes 4 s.terminal.col)
  let s := s.storeBytes ((s.process process).screen + 8) (numberBytes 4 s.terminal.row)
  s.storeBytes (s.process process).screen [0]

/-- `process_load_video`; `set_cursor` has parameters of two bytes. -/
def System.processLoadVideo (s : System) (process : Ptr) : System :=
  let screen := (s.process process).screen
  let video := s.terminal.video.copyScreen (screenCells s.memory.byte screen)
  { s.storeBytes screen [1] with
    terminal := setCursor { s.terminal with video := video }
      (u16le s.memory.byte (screen + 4)) (u16le s.memory.byte (screen + 8)) }

/-- `process_switch`: the state behind it. -/
def System.switchTo (s : System) (process : Ptr) : System :=
  { (s.processSaveVideo s.currentProcess).processLoadVideo process with
    currentProcess := process }

/-- `process_switch`. -/
def processSwitch (process : Ptr) : SystemProg Unit := updateSystem fun s => s.switchTo process

/-- `process_load_switch`. -/
def processLoadSwitch (filename : List UInt8) (now : ℕ) (hosting : Ptr) :
    SystemProg (ℤ × Ptr) := do
  let loaded ← processLoad filename now hosting
  if loaded.1 = 0 then do
    processSwitch loaded.2
    updateSystem fun s =>
      if (s.process loaded.2).host = 0 then { s with terminal := terminalInitialize s.terminal }
      else s
    return loaded
  else return loaded

/-- `task_switch`. -/
def taskSwitch (task : Ptr) : SystemProg Unit :=
  updateSystem fun s => { s with sched := { s.sched with currentTask := task } }

/-- `process_flip`: the task that is resumed, if any.  The list of the processes that another key
shows is left out. -/
def processFlip (id : ℤ) : SystemProg (Option Ptr) := do
  let s ← getSystem
  if id < 0 ∨ id > maxProcesses ∨ s.processes id.toNat = 0 then return none
  else do
    processSwitch (s.processes id.toNat)
    let s ← getSystem
    taskSwitch (s.process s.currentProcess).task
    let s ← getSystem
    return some s.sched.currentTask

/-- `process_switch_to_any`; without a process the kernel panics. -/
def processSwitchToAny : SystemProg Unit := do
  let s ← getSystem
  match (List.range maxProcesses).find? fun i => s.processes i ≠ 0 with
  | none => stuck
  | some i => processSwitch (s.processes i)

/-! ## Termination -/

/-- `process_terminate_allocs`, which also frees the unused entries. -/
def processTerminateAllocs (process : Ptr) : SystemProg Unit := do
  let s ← getSystem
  onKernel (onMemory (releaseAll ((List.range maxProgramAllocations).map fun i =>
    ((s.process process).allocations i).ptr)))

/-- The loop of `process_terminate_files`. -/
def processTerminateFilesLoop (process : Ptr) : List ℕ → SystemProg Unit
  | [] => return ()
  | i :: rest => do
    let s ← getSystem
    if (s.process process).iob i = 0 then
      let closed ← onKernel (processFclose (s.process process).iob i)
      updateSystem fun s => s.setProcess process fun p => { p with iob := closed.2 }
    processTerminateFilesLoop process rest

/-- `process_terminate_files`. -/
def processTerminateFiles (process : Ptr) : SystemProg Unit :=
  processTerminateFilesLoop process (List.range nfile)

/-- `process_unlink`. -/
def processUnlink (process : Ptr) : SystemProg Unit := do
  updateSystem fun s =>
    { s with processes := Function.update s.processes (s.process process).id 0 }
  kfreeCall process
  let s ← getSystem
  if s.currentProcess = process then processSwitchToAny else return ()

/-- The part of `process_terminate` that wakes the host. -/
def processWakeHost (process : Ptr) : SystemProg Unit := do
  let s ← getSystem
  if (s.process process).host ≠ 0 then
    updateSystem fun s => s.setProcess (s.process process).host fun p =>
      { p with currentlyHosting := false }
  else return ()

/-- The part of `process_terminate` after the program data is given back. -/
def processTerminateRest (process : Ptr) : SystemProg ℤ := do
  let s ← getSystem
  kfreeCall (s.process process).stack
  taskFreeAllCall process
  processWakeHost process
  let s ← getSystem
  kfreeCall (s.process process).screen
  processUnlink process
  return 0

/-- `process_terminate`. -/
def processTerminate (process : Ptr) : SystemProg ℤ := do
  let s ← getSystem
  if process = 0 then return -einvarg
  else if (s.process process).id = 0 then return -einvarg
  else do
    processTerminateAllocs process
    processTerminateFiles process
    let res ← processFreeProgramData process
    if res < 0 then return res else processTerminateRest process

end SerpaeOS
