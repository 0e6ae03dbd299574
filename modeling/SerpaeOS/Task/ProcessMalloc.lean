import SerpaeOS.Heap.OneBlock
import SerpaeOS.Task.Isolation

/-!
# What one `process_malloc` does

`process_malloc` takes blocks of the heap, a slot of the table of allocations and pages of the
directory, in this order, and gives the blocks back when one of the later steps fails.
-/

namespace SerpaeOS

open Word StepRun

variable {heap heap₀ : Heap} {process process' : ProcessMemory} {ptr size : ℕ}

/-- `kzalloc` of at least one byte: no memory, or the address of blocks that are marked, and
`kfree` of the address puts the entries of the table back. -/
lemma KernelTable.kzalloc (h : KernelTable heap) (hpos : 1 ≤ size) (hsize : size ≤ heapSizeBytes) :
    SerpaeOS.kzalloc heap size = (heap, 0) ∨ ∃ b < kernelBlocks, ∃ heap',
      SerpaeOS.kzalloc heap size = (heap', blockAddress b) ∧
      ∀ i < kernelBlocks, (kfree heap' (blockAddress b)).table.entries (i : ℕ) =
        heap.table.entries i := by
  have hn := blocksFor_pos hpos
  have heq : SerpaeOS.kzalloc heap size = heapMallocBlocks heap (blocksFor size) := by
    refine heapMalloc_eq heap ?_
    simp only [heapSizeBytes, heapBlockSize] at *
    omega
  rw [heq]
  rcases heapMallocBlocks_cases heap hn with hnone | ⟨b, hb, hfree, hsome⟩
  · exact Or.inl hnone
  · rw [h.total_eq] at hb
    rw [blockToAddress_eq h.saddr_eq hb] at hsome
    refine Or.inr ⟨b, hb, heapMarkBlocksTaken heap b (blocksFor size), hsome, fun i hi => ?_⟩
    have hp : heapAddressToBlock (heapMarkBlocksTaken heap b (blocksFor size)) (blockAddress b) =
        b := addressToBlock_eq h.saddr_eq hb
    refine heapFree_markTaken h.clean hn ?_ hfree hp ?_
    · rwa [h.total_eq]
    · rwa [h.total_eq]

/-- The page has bytes of `[ptr, ptr + size)`. -/
def PageOverlaps (ptr size page : ℕ) : Prop := page < ptr + size ∧ ptr < page + pagingPageSize

/-- One slot that was empty records the block, its pages are mapped to themselves for user code,
and nothing else has changed. -/
structure RecordsBlock (process process' : ProcessMemory) (ptr size : ℕ) : Prop where
  aligned : ptr % pagingPageSize = 0
  slot : ∃ index < maxProgramAllocations, (process.allocations index).ptr = 0 ∧
    process'.allocations = Function.update process.allocations index ⟨ptr, size⟩
  mapped : ∀ page < 2 ^ 32, page % pagingPageSize = 0 → PageOverlaps ptr size page →
    pagingGet process'.pageDirectory page = page ||| userPageFlags
  kept : ∀ page < 2 ^ 32, page % pagingPageSize = 0 → ¬ PageOverlaps ptr size page →
    pagingGet process'.pageDirectory page = pagingGet process.pageDirectory page
  directory_eq : process'.pageDirectory.directoryEntry = process.pageDirectory.directoryEntry

/-- The pages of a block are those that have bytes of it. -/
lemma pageOverlaps_iff {page : ℕ} (halign : ptr % 4096 = 0) (hpage : page % 4096 = 0) :
    PageOverlaps ptr size page ↔ ptr ≤ page ∧ page < ptr + blocksFor size * 4096 := by
  simp only [PageOverlaps, pagingPageSize, blocksFor, heapBlockSize]
  omega

/-- The three steps that succeed. -/
lemma recordsBlock_of_map {index : ℕ} {directory : PagingChunk} (halign : ptr % 4096 = 0)
    (hindex : findFreeAllocIndex process = some index)
    (hdir : directory.directoryEntry = process.pageDirectory.directoryEntry)
    (hget : ∀ v, v * 4096 < 2 ^ 32 → pagingGet directory (v * 4096) =
      if ptr ≤ v * 4096 ∧ v * 4096 < ptr + blocksFor size * 4096 then v * 4096 ||| userPageFlags
      else pagingGet process.pageDirectory (v * 4096)) :
    RecordsBlock process
      ⟨Function.update process.allocations index ⟨ptr, size⟩, directory⟩ ptr size := by
  obtain ⟨hfree, hmem, -⟩ := List.find?_range_eq_some.mp hindex
  have hentry : ∀ page < 2 ^ 32, page % 4096 = 0 → pagingGet directory page =
      if ptr ≤ page ∧ page < ptr + blocksFor size * 4096 then page ||| userPageFlags
      else pagingGet process.pageDirectory page := by
    intro page hlt hpage
    have hv : page / 4096 * 4096 = page := by omega
    have := hget (page / 4096) (by rwa [hv])
    rwa [hv] at this
  refine ⟨halign, ⟨index, List.mem_range.mp hmem, by simpa using hfree, rfl⟩, ?_, ?_, hdir⟩
  · intro page hlt hpage hover
    rw [hentry page hlt hpage, if_pos ((pageOverlaps_iff halign hpage).mp hover)]
  · intro page hlt hpage hnot
    rw [hentry page hlt hpage, if_neg fun hin => hnot ((pageOverlaps_iff halign hpage).mpr hin)]

/-- **Allocating memory for a process.**  In every state of the kernel heap, for every process and
every size up to that of the heap, `process_malloc` returns `NULL` and leaves the entries of the
heap table and the process as they were, or it returns the address of a page, one empty slot
records the block, its pages are mapped for user code and all others are as before. -/
theorem process_malloc_records {entries : ℤ → Entry} (hinit : kheapInit entries = .ok heap₀)
    {ops : List HeapOp} {r : HeapRun} (hrun : ops.foldlM heapStep ⟨heap₀, []⟩ = some r)
    (process : ProcessMemory) (hpos : 1 ≤ size) (hsize : size ≤ heapSizeBytes) :
    ((processMalloc r.heap process size).2.2 = 0 ∧
      (∀ i < r.heap.table.total, (processMalloc r.heap process size).1.table.entries (i : ℕ) =
        r.heap.table.entries i) ∧
      (processMalloc r.heap process size).2.1 = process) ∨
    ((processMalloc r.heap process size).2.2 ≠ 0 ∧
      RecordsBlock process (processMalloc r.heap process size).2.1
        (processMalloc r.heap process size).2.2 size) := by
  have htable := kernelTable_run hinit hrun
  rcases htable.kzalloc hpos hsize with hnone | ⟨b, hb, heap', hsome, hrestores⟩
  · refine Or.inl ?_
    rw [processMalloc, hnone]
    exact ⟨rfl, fun _ _ => rfl, rfl⟩
  cases hindex : findFreeAllocIndex process with
  | none =>
    -- all slots are used: the blocks are given back
    refine Or.inl ?_
    rw [processMalloc, hsome]
    simp only [if_neg (blockAddress_ne_zero b), hindex]
    refine ⟨trivial, fun i hi => hrestores i ?_, trivial⟩
    rwa [← htable.total_eq]
  | some index =>
    have halign : blockAddress b % 4096 = 0 := by
      simp only [blockAddress, heapAddress, heapBlockSize]
      omega
    have hend : blockAddress b + blocksFor size * 4096 < 2 ^ 32 := by
      simp only [blockAddress, heapAddress, heapBlockSize, kernelBlocks, blocksFor,
        heapSizeBytes] at *
      omega
    obtain ⟨directory, hmap, hdir, hget⟩ :=
      pagingMapTo_identity halign hend process.pageDirectory userPageFlags
    refine Or.inr ?_
    rw [processMalloc_some hsome (blockAddress_ne_zero b) hindex hmap]
    exact ⟨blockAddress_ne_zero b, recordsBlock_of_map halign hindex hdir hget⟩

/-- The first block of the heap goes to a process without allocations. -/
theorem process_malloc_records_first :
    RecordsBlock (bootMemory.procs 0) (processMalloc freshHeap (bootMemory.procs 0) 4096).2.1
      heapAddress 4096 := by
  have hrun : ([] : List HeapOp).foldlM heapStep ⟨freshHeap, []⟩ = some ⟨freshHeap, []⟩ := rfl
  have hptr : (processMalloc freshHeap (bootMemory.procs 0) 4096).2.2 = heapAddress := by
    decide +kernel
  have hmalloc := process_malloc_records freshHeap_init hrun (bootMemory.procs 0)
    (show 1 ≤ 4096 by decide) (by decide)
  simp only [hptr] at hmalloc
  rcases hmalloc with ⟨hnull, -⟩ | ⟨-, hrecords⟩
  · exact absurd hnull (by decide)
  · exact hrecords

end SerpaeOS
