import SerpaeOS.Fs.Fat.OpenAccounts

/-!
# Files

`file.c`: `fopen` and `fclose`, over the table of file descriptors and the mounted volumes.
A call of `fopen` parses the path, has the driver of the disk open the file, and enters the
result into the table.  On the way out of a failed call the path is freed, and the pointer
that the driver returned.  `fopen_result` lists everything a call can do.
-/

namespace SerpaeOS

open BlockTable Bytes Word Prog

def fileModeRead : ℕ := 0b001
def fileModeInvalid : ℕ := 0

/-- `struct file_descriptor`.  The functions of its filesystem are those of the driver that
opened the file. -/
structure FileDescriptor where
  ptr : Ptr
  index : ℕ
  privateData : FatOpenFile
  disk : ℕ
  mode : ℕ

/-- The size of `struct file_descriptor`. -/
def fileDescriptorSize : ℕ := 20

/-- The memory, `file_descriptors`, and the disks that exist, each with the volume that is
mounted on it. -/
structure Kernel where
  memory : KMemory
  fileDescriptors : ℕ → Option FileDescriptor
  disks : ℕ → Option (Option FatMount)

/-- A program over the state of the kernel. -/
abbrev KernelProg := StateT Kernel Option

/-- A program over the memory. -/
def onMemory {α : Type} (p : KProg α) : KernelProg α := fun k =>
  (p k.memory).map fun r => (r.1, { k with memory := r.2 })

def getKernel : KernelProg Kernel := fun k => some (k, k)

def updateKernel (f : Kernel → Kernel) : KernelProg Unit := fun k => some ((), f k)

/-- `file_get_mode_by_string`. -/
def fileGetModeByString (str : List UInt8) : ℕ :=
  str.foldl (fun mode c =>
    if c = 0x72 ∨ c = 0x52 then mode ||| fileModeRead
    else if c = 0x77 ∨ c = 0x57 then mode ||| fileModeWrite
    else if c = 0x61 ∨ c = 0x41 then mode ||| fileModeAppend
    else mode) fileModeInvalid

/-- `disk_get`. -/
def diskGet (k : Kernel) (index : ℕ) : Option (Option FatMount) :=
  if index > maxDisks - 1 then none else k.disks index

/-- `file_new_descriptor`, with the fields that `fopen` fills in. -/
def fileNewDescriptor (privateData : FatOpenFile) (disk mode : ℕ) : KernelProg (Option ℕ) := do
  let k ← getKernel
  match (List.range maxFileDescriptors).find? fun i => (k.fileDescriptors i).isNone with
  | none => return none
  | some i => do
    let desc ← onMemory (allocate fileDescriptorSize)
    if desc = 0 then stuck
    else do
      updateKernel fun k => { k with
        fileDescriptors := Function.update k.fileDescriptors i
          (some ⟨desc, i + 1, privateData, disk, mode⟩) }
      return some (i + 1)

/-- The end of a failed `fopen` with a root path. -/
def fopenOut (rootPath : PathRoot) (descriptorPrivateData : Ptr) (res : ℤ) : KernelProg ℤ := do
  onMemory (pathparserFree rootPath)
  if descriptorPrivateData ≠ 0 then
    onMemory (release descriptorPrivateData)
    return res
  else return res

/-- The end of `fopen` with a file that the driver has opened. -/
def fopenEnter (rootPath : PathRoot) (file : FatOpenFile) (mode : ℕ) : KernelProg ℤ := do
  let index ← fileNewDescriptor file rootPath.driveNo mode
  match index with
  | none => fopenOut rootPath file.ptr (-enomem)
  | some index => do
    onMemory (release rootPath.ptr)
    return index

/-- The part of `fopen` that has the driver of the disk open the file.  The pointer that the
driver returns for an error is the error code; the address of a block is not negative. -/
def fopenOn (mt : FatMount) (rootPath : PathRoot) (mode now : ℕ) : KernelProg ℤ := do
  let opened ← onMemory (mt.fatOpen rootPath.first mode now)
  updateKernel fun k => { k with
    disks := Function.update k.disks rootPath.driveNo
      (some (some { mt with disk := opened.2 })) }
  match opened.1 with
  | .error e => fopenOut rootPath (u32 e) e
  | .ok file => fopenEnter rootPath file mode

/-- `fopen`. -/
def fopen (filename modeStr : List UInt8) (now : ℕ) : KernelProg ℤ := do
  let rootPath ← onMemory (pathparserParse filename)
  match rootPath with
  | none => return -einvarg
  | some rootPath =>
    if rootPath.first.isEmpty then fopenOut rootPath 0 (-einvarg)
    else do
      let k ← getKernel
      match diskGet k rootPath.driveNo with
      | none => fopenOut rootPath 0 (-eio)
      | some none => fopenOut rootPath 0 (-eio)
      | some (some mt) =>
        let mode := fileGetModeByString modeStr
        if mode = fileModeInvalid then fopenOut rootPath 0 (-einvarg)
        else fopenOn mt rootPath mode now

/-- `file_get_descriptor`. -/
def fileGetDescriptor (k : Kernel) (fd : ℤ) : Option FileDescriptor :=
  if fd ≤ 0 ∨ fd ≥ maxFileDescriptors then none else k.fileDescriptors (fd - 1).toNat

/-- `file_free_descriptor`. -/
def fileFreeDescriptor (desc : FileDescriptor) : KernelProg Unit := do
  updateKernel fun k => { k with
    fileDescriptors := Function.update k.fileDescriptors (desc.index - 1) none }
  onMemory (release desc.ptr)

/-- `fclose`. -/
def fclose (fd : ℤ) : KernelProg ℤ := do
  let k ← getKernel
  match fileGetDescriptor k fd with
  | none => return -eio
  | some desc => do
    let res ← onMemory (fatClose desc.privateData)
    if res = allOk then
      fileFreeDescriptor desc
      return res
    else return res

end SerpaeOS
