import SerpaeOS.Heap.Kheap
import SerpaeOS.Memory.Paging

/-!
# Memory of user processes

The memory calls of `process.c`: a process asks for kernel heap blocks, which are mapped
into its page directory as writable pages and recorded in its table of allocations.
-/

namespace SerpaeOS

/-- `allocation`: an entry of the table of allocations, unused when its pointer is zero. -/
structure Allocation where
  ptr : ℕ
  size : ℕ
deriving DecidableEq

/-- What the memory calls use of `struct process`: the table of allocations and the page
directory of its task. -/
structure ProcessMemory where
  allocations : ℕ → Allocation
  pageDirectory : PagingChunk

def findFreeAllocIndex (process : ProcessMemory) : Option ℕ :=
  (List.range maxProgramAllocations).find? fun i => (process.allocations i).ptr = 0

/-- The flags of a page that user code may write. -/
def userPageFlags : ℕ := pagingIsWriteable ||| pagingIsPresent ||| pagingAccessFromAll

lemma userPageFlags_eq : userPageFlags = 7 := rfl

/-- The end of the pages of a block: `paging_align_address(ptr + size)`. -/
def allocationEnd (ptr : ℕ) (size : ℕ) : ℕ := pagingAlignAddress ((ptr + size) % 2 ^ 32)

/-- `process_malloc`: the heap and the process afterwards and the pointer returned. -/
def processMalloc (heap : Heap) (process : ProcessMemory) (size : ℕ) :
    Heap × ProcessMemory × ℕ :=
  let (heap, ptr) := kzalloc heap size
  if ptr = 0 then (heap, process, 0)
  else
    match findFreeAllocIndex process with
    | none => (kfree heap ptr, process, 0)
    | some index =>
      let (res, directory) :=
        pagingMapTo process.pageDirectory ptr ptr (allocationEnd ptr size) userPageFlags
      let process := { process with pageDirectory := directory }
      if res < 0 then (kfree heap ptr, process, 0)
      else
        let allocations := Function.update process.allocations index ⟨ptr, size⟩
        (heap, { process with allocations := allocations }, ptr)

lemma processMalloc_some {heap heap' : Heap} {process : ProcessMemory} {size ptr index : ℕ}
    {directory : PagingChunk} (hk : kzalloc heap size = (heap', ptr)) (hne : ptr ≠ 0)
    (hindex : findFreeAllocIndex process = some index)
    (hmap : pagingMapTo process.pageDirectory ptr ptr (allocationEnd ptr size) userPageFlags =
      (0, directory)) :
    processMalloc heap process size =
      (heap', ⟨Function.update process.allocations index ⟨ptr, size⟩, directory⟩, ptr) := by
  unfold processMalloc
  rw [hk]
  simp only [if_neg hne, hindex, hmap, lt_irrefl, if_false]

def processAllocationUnjoin (process : ProcessMemory) (ptr : ℕ) : ProcessMemory :=
  { process with
    allocations := fun i =>
      if i < maxProgramAllocations ∧ (process.allocations i).ptr = ptr then ⟨0, 0⟩
      else process.allocations i }

def processGetAllocationByAddr (process : ProcessMemory) (addr : ℕ) : Option Allocation :=
  ((List.range maxProgramAllocations).find? fun i => (process.allocations i).ptr = addr).map
    process.allocations

/-- `process_free`: the heap and the process afterwards. -/
def processFree (heap : Heap) (process : ProcessMemory) (ptr : ℕ) : Heap × ProcessMemory :=
  match processGetAllocationByAddr process ptr with
  | none => (heap, process)
  | some allocation =>
    let (res, directory) := pagingMapTo process.pageDirectory allocation.ptr allocation.ptr
      (allocationEnd allocation.ptr allocation.size) 0x00
    let process := { process with pageDirectory := directory }
    if res < 0 then (heap, process)
    else (kfree heap ptr, processAllocationUnjoin process ptr)

lemma processFree_none {heap : Heap} {process : ProcessMemory} {ptr : ℕ}
    (h : processGetAllocationByAddr process ptr = none) :
    processFree heap process ptr = (heap, process) := by
  unfold processFree
  rw [h]

lemma processFree_some {heap : Heap} {process : ProcessMemory} {ptr : ℕ} {a : Allocation}
    {directory : PagingChunk} (h : processGetAllocationByAddr process ptr = some a)
    (hmap : pagingMapTo process.pageDirectory a.ptr a.ptr (allocationEnd a.ptr a.size) 0x00 =
      (0, directory)) :
    processFree heap process ptr =
      (kfree heap ptr,
        processAllocationUnjoin { process with pageDirectory := directory } ptr) := by
  unfold processFree
  rw [h]
  simp only [hmap, lt_irrefl, if_false]

/-! ## Runs of the memory calls of several processes -/

/-- The kernel heap, the processes by their number, and a record of the pages that
`process_malloc` mapped into a process and `process_free` has not unmapped since, by page
number. -/
structure MemoryRun where
  heap : Heap
  procs : ℕ → ProcessMemory
  mapped : ℕ → ℕ → Bool

/-- A call of a process. -/
inductive MemoryOp
  | malloc (pid size : ℕ)
  | free (pid : ℕ) (ptr : ℕ)

/-- The record after the pages of `[ptr, stop)` of the process were mapped or unmapped. -/
def MemoryRun.mark (r : MemoryRun) (pid ptr stop : ℕ) (b : Bool) : ℕ → ℕ → Bool :=
  fun q page =>
    if q = pid ∧ ptr ≤ page * pagingPageSize ∧ page * pagingPageSize < stop then b
    else r.mapped q page

def memoryStep (r : MemoryRun) : MemoryOp → Option MemoryRun
  | .malloc pid size =>
    let (heap, process, ptr) := processMalloc r.heap (r.procs pid) size
    some ⟨heap, Function.update r.procs pid process,
      if ptr = 0 then r.mapped else r.mark pid ptr (allocationEnd ptr size) true⟩
  | .free pid ptr =>
    let (heap, process) := processFree r.heap (r.procs pid) ptr
    some ⟨heap, Function.update r.procs pid process,
      match processGetAllocationByAddr (r.procs pid) ptr with
      | none => r.mapped
      | some a =>
        let stop := allocationEnd a.ptr a.size
        if (pagingMapTo (r.procs pid).pageDirectory a.ptr a.ptr stop 0x00).1 < 0 then r.mapped
        else r.mark pid a.ptr stop false⟩

end SerpaeOS
