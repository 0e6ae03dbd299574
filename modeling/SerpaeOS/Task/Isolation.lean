import SerpaeOS.Lib.StepRun
import SerpaeOS.Task.Process
import Mathlib.Data.List.Pairwise
import Mathlib.Tactic.IntervalCases

/-!
# Isolation of the processes' memory

Any number of processes call `process_malloc` and `process_free` in any order.  As long as
the heap can answer every request, no page is writable for two processes through their
own allocations, and what a process has recorded is taken in the heap.
-/

namespace SerpaeOS

open BlockTable Word StepRun

/-- Sizes are below the heap size; a process frees some non-null pointer. -/
def MemoryLegal (_ : MemoryRun) : MemoryOp → Prop
  | .malloc _ size => size < heapSizeBytes
  | .free _ ptr => ptr ≠ 0

/-- The block range an allocation occupies: the block its pointer lies in, and all blocks
that its bytes lie in. -/
def Heap.occupied (heap : Heap) (a : Allocation) : Extent :=
  ⟨heap.offset a.ptr / heapBlockSize, max 1 (blocksFor a.size)⟩

/-- No page frame is mapped writable by `process_malloc` for two processes, and recorded
allocations occupy blocks of the heap that are marked taken. -/
structure Isolated (r : MemoryRun) : Prop where
  frames_ne : ∀ p q, p ≠ q → ∀ v w, r.mapped p v = true → r.mapped q w = true →
    UserWritable (r.procs p).pageDirectory (v * pagingPageSize) →
    UserWritable (r.procs q).pageDirectory (w * pagingPageSize) →
    entryAddress (pagingGet (r.procs p).pageDirectory (v * pagingPageSize)) ≠
      entryAddress (pagingGet (r.procs q).pageDirectory (w * pagingPageSize))
  taken : ∀ p, ∀ i < maxProgramAllocations, ((r.procs p).allocations i).ptr ≠ 0 →
    ∀ b, (r.heap.occupied ((r.procs p).allocations i)).Covers b →
      b < r.heap.table.total ∧ heapGetEntryType (r.heap.table.entries b) = entryTaken

/-- The heap can answer the request of the call. -/
def MemoryRoom (r : MemoryRun) : MemoryOp → Prop
  | .malloc _ size => HeapRoom r.heap size
  | .free _ _ => True

/-- The state before the first call: the kernel has some allocations of its own, and no
process has one. -/
structure MemoryStart (kernel : List Extent) (r : MemoryRun) : Prop where
  heap : KernelHeap r.heap kernel
  fresh : ∀ p i, ((r.procs p).allocations i).ptr = 0
  unmapped : ∀ p v, r.mapped p v = false

/-! ## The invariant -/

/-- The block range of an allocation of at least one byte. -/
def Heap.allocExtent (heap : Heap) (a : ℕ × Allocation) : Extent :=
  ⟨heap.offset a.2.ptr / heapBlockSize, blocksFor a.2.size⟩

/-- The allocation starts with a block of the kernel heap and ends inside it. -/
def InPool (a : Allocation) : Prop :=
  0 < a.size ∧ ∃ s, a.ptr = blockAddress s ∧ s + blocksFor a.size ≤ kernelBlocks

/-- The heap records the allocations of the kernel and, process by process, those of
`live`; every process's table and its mapped pages are among the live allocations. -/
structure MemoryInv (kernel : List Extent) (live : List (ℕ × Allocation)) (r : MemoryRun) :
    Prop where
  heap : KernelHeap r.heap (live.map r.heap.allocExtent ++ kernel)
  inPool : ∀ a ∈ live, InPool a.2
  recorded : ∀ p, ∀ i < maxProgramAllocations, ((r.procs p).allocations i).ptr ≠ 0 →
    (p, (r.procs p).allocations i) ∈ live
  mapped : ∀ p v, r.mapped p v = true → ∃ a, (p, a) ∈ live ∧ a.ptr ≤ v * 4096 ∧
    v * 4096 < a.ptr + blocksFor a.size * 4096 ∧
    pagingGet (r.procs p).pageDirectory (v * 4096) = v * 4096 ||| userPageFlags

variable {kernel L : List Extent} {live : List (ℕ × Allocation)} {r : MemoryRun} {heap : Heap}

lemma MemoryStart.memoryInv (h : MemoryStart kernel r) : MemoryInv kernel [] r :=
  ⟨h.heap, by simp, fun p i _ hne => absurd (h.fresh p i) hne,
    fun p v hv => absurd (h.unmapped p v) (by simp [hv])⟩

lemma KernelHeap.allocExtent_eq (h : KernelHeap heap L) {p s size : ℕ} (hpos : 0 < size)
    (hs : s + blocksFor size ≤ kernelBlocks) :
    heap.allocExtent (p, ⟨blockAddress s, size⟩) = ⟨s, blocksFor size⟩ := by
  have hb := blocksFor_pos hpos
  rw [Heap.allocExtent, h.offset_blockAddress (by omega), Nat.mul_div_cancel _ (by decide)]

lemma InPool.blocks_pos {a : Allocation} (h : InPool a) : 0 < blocksFor a.size :=
  blocksFor_pos h.1

/-- The pages of a block that does not reach the end of the address space. -/
lemma allocationEnd_eq {ptr size : ℕ} (halign : ptr % 4096 = 0)
    (hlt : ptr + blocksFor size * 4096 < 2 ^ 32) :
    allocationEnd ptr size = ptr + blocksFor size * 4096 := by
  have hle : size ≤ blocksFor size * 4096 := by
    simp only [blocksFor, heapBlockSize]
    omega
  rw [allocationEnd, Nat.mod_eq_of_lt (by omega), pagingAlignAddress]
  by_cases hmod : (ptr + size) % pagingPageSize ≠ 0
  · rw [if_pos hmod, Nat.mod_eq_of_lt]
    · simp only [blocksFor, heapBlockSize, pagingPageSize] at *
      omega
    · simp only [blocksFor, heapBlockSize, pagingPageSize] at *
      omega
  · rw [if_neg hmod]
    simp only [blocksFor, heapBlockSize, pagingPageSize] at *
    omega

/-- Mapping the pages of a block to themselves. -/
lemma pagingMapTo_identity {ptr size : ℕ} (halign : ptr % 4096 = 0)
    (hlt : ptr + blocksFor size * 4096 < 2 ^ 32) (c : PagingChunk) (flags : ℕ) :
    ∃ c', pagingMapTo c ptr ptr (allocationEnd ptr size) flags = (0, c') ∧
      c'.directoryEntry = c.directoryEntry ∧
      ∀ v, v * 4096 < 2 ^ 32 → pagingGet c' (v * 4096) =
        if ptr ≤ v * 4096 ∧ v * 4096 < ptr + blocksFor size * 4096 then v * 4096 ||| flags
        else pagingGet c (v * 4096) := by
  have hle : ptr ≤ ptr + blocksFor size * 4096 := Nat.le_add_right _ _
  have hend : (ptr + blocksFor size * 4096) % 4096 = 0 := by omega
  obtain ⟨c', heq, hm⟩ := pagingMapTo_mapped c flags halign (by omega) halign hend hle hlt
  have hcount : (ptr + blocksFor size * 4096 - ptr) / 4096 = blocksFor size := by omega
  rw [hcount] at hm
  exact ⟨c', by rw [allocationEnd_eq halign hlt, heq], hm.directory_eq,
    fun v hv => hm.identity halign (by omega) hv⟩

/-- The pages of an allocation in the pool. -/
lemma InPool.allocationEnd_eq {a : Allocation} (h : InPool a) :
    allocationEnd a.ptr a.size = a.ptr + blocksFor a.size * 4096 ∧ a.ptr % 4096 = 0 ∧
      a.ptr + blocksFor a.size * 4096 < 2 ^ 32 := by
  obtain ⟨hpos, s, hptr, hs⟩ := h
  have hend : a.ptr + blocksFor a.size * 4096 < 2 ^ 32 := by
    simp only [hptr, blockAddress, heapAddress, heapBlockSize, kernelBlocks] at *
    omega
  have halign : a.ptr % 4096 = 0 := by
    simp only [hptr, blockAddress, heapAddress, heapBlockSize]
    omega
  exact ⟨SerpaeOS.allocationEnd_eq halign hend, halign, hend⟩

/-- Mapping the pages of an allocation in the pool to themselves. -/
lemma InPool.pagingMapTo {a : Allocation} (h : InPool a) (c : PagingChunk) (flags : ℕ) :
    ∃ c', pagingMapTo c a.ptr a.ptr (allocationEnd a.ptr a.size) flags = (0, c') ∧
      ∀ v, v * 4096 < 2 ^ 32 → pagingGet c' (v * 4096) =
        if a.ptr ≤ v * 4096 ∧ v * 4096 < a.ptr + blocksFor a.size * 4096 then v * 4096 ||| flags
        else pagingGet c (v * 4096) := by
  obtain ⟨-, halign, hlt⟩ := h.allocationEnd_eq
  obtain ⟨c', heq, -, hget⟩ := pagingMapTo_identity halign hlt c flags
  exact ⟨c', heq, hget⟩

/-- Two different live allocations have no block in common. -/
lemma MemoryInv.apart (h : MemoryInv kernel live r) {a b : ℕ × Allocation} (ha : a ∈ live)
    (hb : b ∈ live) (hab : a ≠ b) :
    (r.heap.allocExtent a).Apart (r.heap.allocExtent b) := by
  have hp := (List.pairwise_append.mp h.heap.records.encodes.packed.apart).1
  rw [List.pairwise_map] at hp
  have hsymm : Std.Symm fun a b => (r.heap.allocExtent a).Apart (r.heap.allocExtent b) :=
    ⟨fun _ _ h => h.symm⟩
  exact hp.forall ha hb hab

/-- A page of a live allocation is a block of its range. -/
lemma MemoryInv.covers (h : MemoryInv kernel live r) {p : ℕ} {a : Allocation}
    (ha : (p, a) ∈ live) {v : ℕ} (h1 : a.ptr ≤ v * 4096)
    (h2 : v * 4096 < a.ptr + blocksFor a.size * 4096) :
    (r.heap.allocExtent (p, a)).Covers (v - 4096) := by
  obtain ⟨hpos, s, hptr, hs⟩ := h.inPool _ ha
  obtain ⟨ptr, size⟩ := a
  simp only at hptr hpos hs h1 h2
  subst hptr
  rw [h.heap.allocExtent_eq hpos hs]
  simp only [blockAddress, heapAddress, heapBlockSize] at h1 h2
  exact ⟨by simp only; omega, by simp only; omega⟩

/-- The invariant gives isolation. -/
lemma MemoryInv.isolated (h : MemoryInv kernel live r) : Isolated r := by
  constructor
  · intro p q hpq v w hv hw _ _ heq
    obtain ⟨a, ha, ha1, ha2, hga⟩ := h.mapped p v hv
    obtain ⟨b, hb, hb1, hb2, hgb⟩ := h.mapped q w hw
    have hva : v * 4096 < 2 ^ 32 := ha2.trans (h.inPool _ ha).allocationEnd_eq.2.2
    have hwb : w * 4096 < 2 ^ 32 := hb2.trans (h.inPool _ hb).allocationEnd_eq.2.2
    simp only [pagingPageSize] at heq
    have hflags : userPageFlags < 4096 := by
      rw [userPageFlags_eq]
      omega
    rw [hga, hgb, entryAddress_or (Nat.mul_mod_left _ _) hva hflags,
      entryAddress_or (Nat.mul_mod_left _ _) hwb hflags] at heq
    obtain rfl : v = w := by omega
    have hne : (p, a) ≠ (q, b) := fun hc => hpq (congrArg Prod.fst hc)
    exact h.apart ha hb hne _ ⟨h.covers ha ha1 ha2, h.covers hb hb1 hb2⟩
  · intro p i hi hne b hb
    have hmem := h.recorded p i hi hne
    have hpos := (h.inPool _ hmem).blocks_pos
    generalize (r.procs p).allocations i = a at *
    have hext : r.heap.occupied a = r.heap.allocExtent (p, a) := by
      simp only [Heap.occupied, Heap.allocExtent]
      congr 1
      simp only at hpos
      omega
    rw [hext] at hb
    have hmem' : r.heap.allocExtent (p, a) ∈ live.map r.heap.allocExtent ++ kernel :=
      List.mem_append_left _ (List.mem_map_of_mem hmem)
    have hlt : b < r.heap.table.total :=
      Nat.lt_of_lt_of_le hb.2 (h.heap.records.encodes.packed.inside _ hmem')
    exact ⟨hlt, (h.heap.records.taken_iff hlt).mpr ⟨_, hmem', hb⟩⟩

/-! ## What one call does -/

lemma Heap.SameFrame.allocExtent_eq {heap' : Heap} (h : heap.SameFrame heap') :
    heap'.allocExtent = heap.allocExtent := by
  ext a
  simp only [Heap.allocExtent, Heap.offset, h.saddr_eq]

/-- Replacing the heap by one that records the same allocations. -/
lemma MemoryInv.of_heap (h : MemoryInv kernel live r) {heap' : Heap}
    (hh : KernelHeap heap' (live.map r.heap.allocExtent ++ kernel))
    (hf : r.heap.SameFrame heap') : MemoryInv kernel live { r with heap := heap' } := by
  refine ⟨?_, h.inPool, h.recorded, h.mapped⟩
  rw [hf.allocExtent_eq]
  exact hh

/-- An allocation recorded in a free slot of a process and mapped into its directory. -/
lemma MemoryInv.add (h : MemoryInv kernel live r) {pid index : ℕ} {a : Allocation}
    {heap' : Heap} {directory : PagingChunk} (ha : InPool a)
    (hh : KernelHeap heap'
      ((((pid, a) :: live).map r.heap.allocExtent) ++ kernel))
    (hf : r.heap.SameFrame heap')
    (hget : ∀ v, v * 4096 < 2 ^ 32 → pagingGet directory (v * 4096) =
      if a.ptr ≤ v * 4096 ∧ v * 4096 < a.ptr + blocksFor a.size * 4096
      then v * 4096 ||| userPageFlags else pagingGet (r.procs pid).pageDirectory (v * 4096)) :
    MemoryInv kernel ((pid, a) :: live)
      ⟨heap', Function.update r.procs pid
          ⟨Function.update (r.procs pid).allocations index a, directory⟩,
        r.mark pid a.ptr (allocationEnd a.ptr a.size) true⟩ := by
  refine ⟨?_, ?_, ?_, ?_⟩
  · rw [hf.allocExtent_eq]
    exact hh
  · intro b hb
    rcases List.mem_cons.mp hb with rfl | hb
    · exact ha
    · exact h.inPool b hb
  · intro p i hi hne
    by_cases hp : p = pid
    · subst hp
      simp only [Function.update_self] at hne ⊢
      by_cases hidx : i = index
      · subst hidx
        simp only [Function.update_self, List.mem_cons, true_or]
      · rw [Function.update_of_ne hidx] at hne ⊢
        exact List.mem_cons_of_mem _ (h.recorded p i hi hne)
    · simp only [Function.update_of_ne hp] at hne ⊢
      exact List.mem_cons_of_mem _ (h.recorded p i hi hne)
  · intro p v hv
    simp only [MemoryRun.mark, ha.allocationEnd_eq.1, pagingPageSize] at hv
    by_cases hc : p = pid ∧ a.ptr ≤ v * 4096 ∧ v * 4096 < a.ptr + blocksFor a.size * 4096
    · obtain ⟨rfl, hin⟩ := hc
      have hlt : v * 4096 < 2 ^ 32 := hin.2.trans ha.allocationEnd_eq.2.2
      refine ⟨a, by simp, hin.1, hin.2, ?_⟩
      simp only [Function.update_self]
      rw [hget v hlt, if_pos hin]
    · rw [if_neg hc] at hv
      obtain ⟨b, hb, hb1, hb2, hgb⟩ := h.mapped p v hv
      refine ⟨b, List.mem_cons_of_mem _ hb, hb1, hb2, ?_⟩
      by_cases hp : p = pid
      · subst hp
        have hlt : v * 4096 < 2 ^ 32 := hb2.trans (h.inPool _ hb).allocationEnd_eq.2.2
        simp only [Function.update_self]
        rw [hget v hlt, if_neg fun hin => hc ⟨rfl, hin⟩, hgb]
      · simp only [Function.update_of_ne hp]
        exact hgb

lemma MemoryInv.malloc (h : MemoryInv kernel live r) {pid size : ℕ}
    (hsize : size < heapSizeBytes) (hroom : HeapRoom r.heap size) :
    ∃ live' r', memoryStep r (.malloc pid size) = some r' ∧ MemoryInv kernel live' r' := by
  rw [memoryStep]
  rcases h.heap.kzalloc hsize hroom with heq | ⟨s, heap', heq, hpos, hs, hh, hf⟩
  · -- no memory: nothing changes
    rw [processMalloc, heq]
    refine ⟨live, _, rfl, ?_⟩
    simpa using h
  · cases hindex : findFreeAllocIndex (r.procs pid) with
    | none =>
      -- the table of allocations is full: the block is given back
      rw [processMalloc, heq]
      simp only [if_neg (blockAddress_ne_zero s), hindex]
      rw [← List.nil_append (Extent.mk _ _ :: _)] at hh
      obtain ⟨hh', hf'⟩ := hh.kfree (blocksFor_pos hpos)
      refine ⟨live, _, rfl, ?_⟩
      simpa using h.of_heap hh' (hf.trans hf')
    | some index =>
      have ha : InPool ⟨blockAddress s, size⟩ := ⟨hpos, s, rfl, hs⟩
      obtain ⟨directory, hmap, hget⟩ := ha.pagingMapTo (r.procs pid).pageDirectory userPageFlags
      rw [processMalloc_some heq (blockAddress_ne_zero s) hindex hmap]
      simp only [if_neg (blockAddress_ne_zero s)]
      refine ⟨(pid, ⟨blockAddress s, size⟩) :: live, _, rfl, ?_⟩
      refine h.add ha ?_ hf hget
      rw [List.map_cons, h.heap.allocExtent_eq hpos hs]
      exact hh

/-- An allocation taken out of the table of its process and unmapped. -/
lemma MemoryInv.remove {live₁ live₂ : List (ℕ × Allocation)} {pid : ℕ} {a : Allocation}
    (h : MemoryInv kernel (live₁ ++ (pid, a) :: live₂) r) {heap' : Heap}
    {directory : PagingChunk}
    (hh : KernelHeap heap' ((live₁ ++ live₂).map r.heap.allocExtent ++ kernel))
    (hf : r.heap.SameFrame heap')
    (hget : ∀ v, v * 4096 < 2 ^ 32 → pagingGet directory (v * 4096) =
      if a.ptr ≤ v * 4096 ∧ v * 4096 < a.ptr + blocksFor a.size * 4096
      then v * 4096 ||| 0 else pagingGet (r.procs pid).pageDirectory (v * 4096)) :
    MemoryInv kernel (live₁ ++ live₂)
      ⟨heap', Function.update r.procs pid
          (processAllocationUnjoin { r.procs pid with pageDirectory := directory } a.ptr),
        r.mark pid a.ptr (allocationEnd a.ptr a.size) false⟩ := by
  have hsub : ∀ b ∈ live₁ ++ (pid, a) :: live₂, b ≠ (pid, a) → b ∈ live₁ ++ live₂ := by
    intro b hb hne
    simp only [List.mem_append, List.mem_cons] at hb ⊢
    tauto
  have ha := h.inPool (pid, a) (by simp)
  refine ⟨?_, ?_, ?_, ?_⟩
  · rw [hf.allocExtent_eq]
    exact hh
  · intro b hb
    refine h.inPool b ?_
    simp only [List.mem_append, List.mem_cons] at hb ⊢
    tauto
  · intro p i hi hne
    by_cases hp : p = pid
    · subst hp
      simp only [Function.update_self, processAllocationUnjoin] at hne ⊢
      by_cases hptr : i < maxProgramAllocations ∧ ((r.procs p).allocations i).ptr = a.ptr
      · rw [if_pos hptr] at hne
        exact absurd rfl hne
      · rw [if_neg hptr] at hne ⊢
        refine hsub _ (h.recorded p i hi hne) fun hc => hptr ⟨hi, ?_⟩
        rw [(Prod.mk.inj hc).2]
    · simp only [Function.update_of_ne hp] at hne ⊢
      exact hsub _ (h.recorded p i hi hne) fun hc => hp (congrArg Prod.fst hc)
  · intro p v hv
    simp only [MemoryRun.mark, ha.allocationEnd_eq.1, pagingPageSize] at hv
    by_cases hc : p = pid ∧ a.ptr ≤ v * 4096 ∧ v * 4096 < a.ptr + blocksFor a.size * 4096
    · rw [if_pos hc] at hv
      exact absurd hv (by decide)
    · rw [if_neg hc] at hv
      obtain ⟨b, hb, hb1, hb2, hgb⟩ := h.mapped p v hv
      refine ⟨b, hsub _ hb ?_, hb1, hb2, ?_⟩
      · intro hba
        obtain ⟨rfl, rfl⟩ := Prod.mk.inj hba
        exact hc ⟨rfl, hb1, hb2⟩
      · by_cases hp : p = pid
        · subst hp
          have hlt : v * 4096 < 2 ^ 32 := hb2.trans (h.inPool _ hb).allocationEnd_eq.2.2
          simp only [Function.update_self, processAllocationUnjoin]
          rw [hget v hlt, if_neg fun hin => hc ⟨rfl, hin⟩, hgb]
        · simp only [Function.update_of_ne hp]
          exact hgb

/-- The entry found for an address is a recorded allocation at that address. -/
lemma processGetAllocationByAddr_some {process : ProcessMemory} {addr : ℕ} {a : Allocation}
    (h : processGetAllocationByAddr process addr = some a) :
    a.ptr = addr ∧ ∃ i < maxProgramAllocations, process.allocations i = a := by
  obtain ⟨i, hi, rfl⟩ := Option.map_eq_some_iff.mp h
  have hmem := List.mem_of_find?_eq_some hi
  have hptr := List.find?_some hi
  exact ⟨by simpa using hptr, i, List.mem_range.mp hmem, rfl⟩

lemma MemoryInv.free (h : MemoryInv kernel live r) {pid ptr : ℕ} (hptr : ptr ≠ 0) :
    ∃ live' r', memoryStep r (.free pid ptr) = some r' ∧ MemoryInv kernel live' r' := by
  rw [memoryStep]
  cases hget : processGetAllocationByAddr (r.procs pid) ptr with
  | none =>
    -- not a pointer of this process
    rw [processFree_none hget]
    simp only [Function.update_eq_self]
    exact ⟨live, r, rfl, h⟩
  | some a =>
    obtain ⟨rfl, i, hi, heq⟩ := processGetAllocationByAddr_some hget
    have hmem : (pid, a) ∈ live := by
      rw [← heq]
      exact h.recorded pid i hi (by rwa [heq])
    obtain ⟨live₁, live₂, rfl⟩ := List.append_of_mem hmem
    have ha := h.inPool _ hmem
    obtain ⟨hpos, s, hs, hin⟩ := id ha
    obtain ⟨directory, hmap, hdir⟩ := ha.pagingMapTo (r.procs pid).pageDirectory 0
    simp only at hmap
    rw [processFree_some hget hmap]
    simp only [hmap, lt_irrefl, if_false]
    have hext : r.heap.allocExtent (pid, a) = ⟨s, blocksFor a.size⟩ := by
      obtain ⟨p, n⟩ := a
      simp only at hs
      subst hs
      exact h.heap.allocExtent_eq hpos hin
    have hh := h.heap
    rw [List.map_append, List.map_cons, hext, List.append_assoc, List.cons_append] at hh
    obtain ⟨hh', hf⟩ := hh.kfree (blocksFor_pos hpos)
    simp only at hs
    rw [← hs] at hh' hf
    refine ⟨live₁ ++ live₂, _, rfl, h.remove ?_ hf hdir⟩
    rw [List.map_append, List.append_assoc]
    exact hh'

/-! ## Runs -/

/-- **Isolation along a run.**  Starting from processes without allocations, with any
allocations of the kernel's own, for every interleaving of `process_malloc` calls with
sizes below the heap size and `process_free` calls with non-null pointers in which the
heap can answer every request, every state reached is isolated. -/
theorem memoryRun_isolated {kernel : List Extent} {r : MemoryRun} (hstart : MemoryStart kernel r)
    (ops : List MemoryOp) (hlegal : Guarded memoryStep MemoryLegal r ops)
    (hroom : Guarded memoryStep MemoryRoom r ops) : Always memoryStep Isolated r ops := by
  refine always_of_guarded (I := fun r => ∃ live, MemoryInv kernel live r)
    (fun _ ⟨_, h⟩ => h.isolated) ?_ ⟨[], hstart.memoryInv⟩ hlegal hroom
  rintro r op ⟨live, h⟩ hl hc
  cases op with
  | malloc pid size =>
    obtain ⟨live', r', hstep, h'⟩ := h.malloc hl hc
    exact ⟨r', hstep, live', h'⟩
  | free pid ptr =>
    obtain ⟨live', r', hstep, h'⟩ := h.free hl
    exact ⟨r', hstep, live', h'⟩

/-! ## A run on an unused heap -/

/-- Page tables above the heap, for the processes below. -/
def bootTables : TableAddresses where
  entry i := 0x70000000 + i % 1024 * 4096
  aligned i := by omega
  lt i := by omega
  injective i hi j hj h := by omega

/-- Processes without allocations, with directories as `process_load` makes them. -/
def bootMemory : MemoryRun :=
  ⟨bootHeap, fun _ => ⟨fun _ => ⟨0, 0⟩, pagingNew4gb 5 bootTables⟩, fun _ _ => false⟩

lemma bootMemory_start : MemoryStart [] bootMemory :=
  ⟨bootHeap_kernelHeap, fun _ _ => rfl, fun _ _ => rfl⟩

/-- The page is mapped writable by `process_malloc` in both processes, to one frame. -/
def SharedPage (r : MemoryRun) (p q v : ℕ) : Prop :=
  r.mapped p v = true ∧ r.mapped q v = true ∧
    UserWritable (r.procs p).pageDirectory (v * pagingPageSize) ∧
    UserWritable (r.procs q).pageDirectory (v * pagingPageSize) ∧
    entryAddress (pagingGet (r.procs p).pageDirectory (v * pagingPageSize)) =
      entryAddress (pagingGet (r.procs q).pageDirectory (v * pagingPageSize))

instance (r : MemoryRun) (p q v : ℕ) : Decidable (SharedPage r p q v) :=
  inferInstanceAs (Decidable (_ ∧ _))

/-- Two processes allocate memory and the first one frees it again. -/
theorem memoryRun_isolated_two_processes :
    Always memoryStep Isolated bootMemory
      [.malloc 0 100, .malloc 1 5000, .free 0 0x1000000] := by
  refine memoryRun_isolated bootMemory_start _ ?_ ?_
  · simp [Guarded, MemoryLegal, heapSizeBytes]
  · refine ⟨Or.inl ⟨by decide, 0, by decide, fun i _ => ?_⟩, fun r₁ h₁ => ⟨?_, ?_⟩⟩
    · exact entryFree_bootHeap i
    · -- the blocks after the first one are still free
      have hfree : r₁.heap.table.total = kernelBlocks ∧ EntryFree r₁.heap.table.entries 1 ∧
          EntryFree r₁.heap.table.entries 2 := by
        have := congrArg (Option.map fun r : MemoryRun =>
          decide (r.heap.table.total = kernelBlocks ∧ EntryFree r.heap.table.entries 1 ∧
            EntryFree r.heap.table.entries 2)) h₁
        rw [Option.map_some] at this
        refine of_decide_eq_true (Option.some.inj (this.symm.trans ?_))
        decide +kernel
      refine Or.inl ⟨by decide, 1, ?_, fun i hi => ?_⟩
      · rw [hfree.1]
        decide
      · have h1 : 1 ≤ i := hi.1
        have h2 : i < 3 := hi.2
        interval_cases i
        · exact hfree.2.1
        · exact hfree.2.2
    · exact fun _ _ => ⟨trivial, fun _ _ => trivial⟩

/-- The first process asks for no bytes and is given the first free block, which is not
reserved: the second process gets the same block, and when the first one frees its
pointer, a third process gets it as well. -/
theorem not_memoryRun_isolated_zero_size :
    MemoryStart [] bootMemory ∧
      Guarded memoryStep MemoryLegal bootMemory
        [.malloc 0 0, .malloc 1 4096, .free 0 0x1000000, .malloc 2 4096] ∧
      ¬ Always memoryStep Isolated bootMemory
        [.malloc 0 0, .malloc 1 4096, .free 0 0x1000000, .malloc 2 4096] := by
  refine ⟨bootMemory_start, ?_, ?_⟩
  · simp [Guarded, MemoryLegal, heapSizeBytes]
  · rintro ⟨-, r₁, h₁, halw⟩
    have hindex : findFreeAllocIndex (bootMemory.procs 0) = some 0 := by decide +kernel
    have hmap : pagingMapTo (bootMemory.procs 0).pageDirectory heapAddress heapAddress
        (allocationEnd heapAddress 0) userPageFlags = (0, pagingNew4gb 5 bootTables) := rfl
    rw [memoryStep, show bootMemory.heap = bootHeap from rfl,
      processMalloc_some kzalloc_bootHeap_zero (by decide) hindex hmap] at h₁
    obtain rfl := Option.some.inj h₁
    obtain ⟨r, hr, hiso⟩ := halw.last
    -- the page at the start of the heap is writable for the last two processes
    have hend : SharedPage r 1 2 4096 := by
      have := congrArg (Option.map fun r => decide (SharedPage r 1 2 4096)) hr
      rw [Option.map_some] at this
      refine of_decide_eq_true (Option.some.inj (this.symm.trans ?_))
      decide +kernel
    exact hiso.frames_ne 1 2 (by decide) 4096 4096 hend.1 hend.2.1 hend.2.2.1 hend.2.2.2.1
      hend.2.2.2.2

end SerpaeOS
