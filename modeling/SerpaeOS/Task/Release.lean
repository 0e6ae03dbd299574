import SerpaeOS.Heap.Sweep
import SerpaeOS.Task.Isolation
import SerpaeOS.Task.Terminate
import Mathlib.Data.Set.List

/-!
# Giving back the memory of a process

A process gives allocations back with `process_free`, and `process_terminate` gives back those
that are left: `process_terminate_allocs` calls `kfree` for all entries of the table of
allocations, used or not.  An unused entry holds `NULL`, which `kfree` takes for a block far in
front of the heap table, and which `process_free` takes for an allocation at the address `NULL`.
-/

namespace SerpaeOS

open BlockTable Prog

/-- Calls of `process_free` with the given pointers, one after the other. -/
def processFrees (heap : Heap) (process : ProcessMemory) (ptrs : List Ptr) :
    Heap × ProcessMemory :=
  ptrs.foldl (fun r ptr => processFree r.1 r.2 ptr) (heap, process)

/-- What `process_terminate_allocs` passes to `kfree`. -/
def allocationPtrs (allocations : ℕ → Allocation) : List Ptr :=
  (List.range maxProgramAllocations).map fun i => (allocations i).ptr

/-- The pointer is that of an allocation of the process. -/
def ProcessMemory.IsLive (process : ProcessMemory) (ptr : Ptr) : Prop :=
  ptr ≠ 0 ∧ ∃ i < maxProgramAllocations, (process.allocations i).ptr = ptr

/-- The block belongs to an allocation of the process. -/
def ProcessMemory.Owns (process : ProcessMemory) (b : ℕ) : Prop :=
  ∃ i < maxProgramAllocations, ∃ s, (process.allocations i).ptr = blockAddress s ∧
    (⟨s, blocksFor (process.allocations i).size⟩ : Extent).Covers b

/-- The process calls `process_free` for the pointers `ptrs` and is terminated; `others` are the
pointers that `process_terminate` passes to `kfree` after those of the allocations.  Only entries
of the heap table are accessed, a pointer that is not that of an allocation changes nothing, and
the termination frees the blocks of the allocations that are left. -/
structure ReleaseOk (heap : Heap) (process : ProcessMemory) (ptrs others : List Ptr) : Prop where
  inside : let r := processFrees heap process ptrs
    ∀ x ∈ (kfreeAll (kfreeAll r.1 (allocationPtrs r.2.allocations)) others).table.written,
      0 ≤ x ∧ x < heap.table.total
  foreign : ∀ before ptr after, ptrs = before ++ ptr :: after →
    let r := processFrees heap process before
    ¬ r.2.IsLive ptr → processFree r.1 r.2 ptr = r
  cleared : let r := processFrees heap process ptrs
    let heap' := kfreeAll r.1 (allocationPtrs r.2.allocations)
    ∀ b < heap.table.total, (r.2.Owns b → heap'.block b = entryFree) ∧
      (¬ r.2.Owns b → heap'.block b = r.1.block b)

/-- All entries of the table of allocations are used, no pointer is that of an allocation, no
other pointer lies in front of the heap, and where an allocation of no bytes starts, no block of
anyone else does. -/
structure ReleaseFits (heap : Heap) (process : ProcessMemory) (ptrs others : List Ptr) :
    Prop where
  used : ∀ i < maxProgramAllocations, (process.allocations i).ptr ≠ 0
  foreign : ∀ ptr ∈ ptrs, ¬ process.IsLive ptr
  others : ∀ ptr ∈ others, 0 ≤ heapAddressToBlock heap ptr
  alone : ∀ i < maxProgramAllocations, ∀ s, (process.allocations i).ptr = blockAddress s →
    heap.block s ≠ entryFree → process.Owns s

/-- The allocation starts with a block of the heap, and is recorded there if it has a byte. -/
def RecordedIn (L : List Extent) (a : Allocation) : Prop :=
  ∃ s < kernelBlocks, a.ptr = blockAddress s ∧ (0 < a.size → ⟨s, blocksFor a.size⟩ ∈ L)

/-- The allocations of the process are among those that the kernel heap records. -/
structure ProcessHeap (heap : Heap) (process : ProcessMemory) (L : List Extent) : Prop where
  saddr_eq : heap.saddr = heapAddress
  total_eq : heap.table.total = kernelBlocks
  lists : heap.Lists L
  unwritten : heap.table.written = []
  recorded : ∀ i < maxProgramAllocations, (process.allocations i).ptr ≠ 0 →
    RecordedIn L (process.allocations i)

variable {heap : Heap} {process : ProcessMemory} {ptrs others : List Ptr} {L : List Extent}
  {a : Allocation} {i : ℕ} {ptr : Ptr}

/-! ## The calls of `process_free` -/

/-- The pages of an allocation can be unmapped. -/
lemma RecordedIn.pagingMapTo {total : ℕ} (h : RecordedIn L a) (hpacked : Extent.Packed total L)
    (htotal : total = kernelBlocks) (c : PagingChunk) :
    ∃ c', pagingMapTo c a.ptr a.ptr (allocationEnd a.ptr a.size) 0 = (0, c') := by
  obtain ⟨s, hs, hptr, hmem⟩ := h
  by_cases hsize : a.size = 0
  · have haddr : a.ptr % 4096 = 0 ∧ a.ptr < 2 ^ 32 := by
      simp only [hptr, blockAddress, heapAddress, heapBlockSize, kernelBlocks] at *
      omega
    have hend : allocationEnd a.ptr a.size = a.ptr := by
      rw [allocationEnd, hsize, Nat.add_zero, Nat.mod_eq_of_lt haddr.2, pagingAlignAddress,
        pagingPageSize, if_neg (not_not.mpr haddr.1)]
    rw [hend]
    obtain ⟨c', hmap, -⟩ :=
      pagingMapTo_mapped c 0 haddr.1 haddr.2 haddr.1 haddr.1 le_rfl haddr.2
    exact ⟨c', hmap⟩
  · have hpos := Nat.pos_of_ne_zero hsize
    have hpool : InPool a := ⟨hpos, s, hptr, htotal ▸ hpacked.inside _ (hmem hpos)⟩
    obtain ⟨c', hmap, -⟩ := hpool.pagingMapTo c 0
    exact ⟨c', hmap⟩

/-- A call with a pointer of no allocation changes nothing, if all entries are used. -/
lemma processFree_foreign (hused : ∀ i < maxProgramAllocations, (process.allocations i).ptr ≠ 0)
    (hptr : ¬ process.IsLive ptr) : processFree heap process ptr = (heap, process) := by
  refine processFree_none (Option.eq_none_iff_forall_ne_some.mpr fun a ha => ?_)
  obtain ⟨rfl, i, hi, rfl⟩ := processGetAllocationByAddr_some ha
  exact hptr ⟨hused i hi, i, hi, rfl⟩

lemma processAllocationUnjoin_unused (hi : (process.allocations i).ptr = 0) :
    ((processAllocationUnjoin process ptr).allocations i).ptr = 0 := by
  rw [processAllocationUnjoin]
  simp only
  split_ifs
  · rfl
  · exact hi

/-- An entry that is not used stays so. -/
lemma processFree_unused (hi : (process.allocations i).ptr = 0) :
    ((processFree heap process ptr).2.allocations i).ptr = 0 := by
  cases hget : processGetAllocationByAddr process ptr with
  | none =>
    rw [processFree_none hget]
    exact hi
  | some a =>
    unfold processFree
    rw [hget]
    simp only
    generalize pagingMapTo process.pageDirectory a.ptr a.ptr (allocationEnd a.ptr a.size) 0 = res
    by_cases hres : res.1 < 0
    · rw [if_pos hres]
      exact hi
    · rw [if_neg hres]
      exact processAllocationUnjoin_unused hi

lemma processFrees_cons : processFrees heap process (ptr :: ptrs) =
    processFrees (processFree heap process ptr).1 (processFree heap process ptr).2 ptrs := by
  rw [processFrees, processFrees, List.foldl_cons, Prod.mk.eta]

lemma processFrees_unused (ptrs : List Ptr) : ∀ {heap : Heap} {process : ProcessMemory},
    (process.allocations i).ptr = 0 →
      ((processFrees heap process ptrs).2.allocations i).ptr = 0 := by
  induction ptrs with
  | nil => exact fun h => h
  | cons ptr ptrs ih =>
    intro heap process h
    rw [processFrees_cons]
    exact ih (processFree_unused h)

/-- A call with the pointer of an allocation leaves an entry that is not used. -/
lemma ProcessHeap.free_live (h : ProcessHeap heap process L) (hptr : process.IsLive ptr) :
    ∃ i < maxProgramAllocations, ((processFree heap process ptr).2.allocations i).ptr = 0 := by
  obtain ⟨hne, i, hi, hslot⟩ := hptr
  have hfind : ∃ a, processGetAllocationByAddr process ptr = some a := by
    refine Option.ne_none_iff_exists'.mp fun hnone => ?_
    rw [processGetAllocationByAddr, Option.map_eq_none_iff, List.find?_eq_none] at hnone
    exact hnone i (List.mem_range.mpr hi) (decide_eq_true hslot)
  obtain ⟨a, ha⟩ := hfind
  obtain ⟨hptr, j, hj, hentry⟩ := processGetAllocationByAddr_some ha
  have hrec : RecordedIn L a := hentry ▸ h.recorded j hj (by rw [hentry, hptr]; exact hne)
  obtain ⟨c', hmap⟩ := hrec.pagingMapTo h.lists.packed h.total_eq process.pageDirectory
  refine ⟨i, hi, ?_⟩
  rw [processFree_some ha hmap, processAllocationUnjoin]
  simp only [hi, hslot, and_self, if_true]

lemma processFrees_saddr (ptrs : List Ptr) : ∀ {heap : Heap} {process : ProcessMemory},
    (processFrees heap process ptrs).1.saddr = heap.saddr := by
  induction ptrs with
  | nil => exact rfl
  | cons ptr ptrs ih =>
    intro heap process
    rw [processFrees_cons, ih]
    cases hget : processGetAllocationByAddr process ptr with
    | none => rw [processFree_none hget]
    | some a =>
      unfold processFree
      rw [hget]
      simp only
      split_ifs
      · rfl
      · rfl

/-- If all entries are used in the end, then no call has done anything. -/
lemma ProcessHeap.frees_eq (h : ProcessHeap heap process L) (ptrs : List Ptr)
    (hused : ∀ i < maxProgramAllocations,
      ((processFrees heap process ptrs).2.allocations i).ptr ≠ 0) :
    (∀ ptr ∈ ptrs, ¬ process.IsLive ptr) ∧ processFrees heap process ptrs = (heap, process) := by
  have hstart : ∀ i < maxProgramAllocations, (process.allocations i).ptr ≠ 0 :=
    fun i hi hzero => hused i hi (processFrees_unused ptrs hzero)
  induction ptrs with
  | nil => exact ⟨fun _ hptr => absurd hptr List.not_mem_nil, rfl⟩
  | cons ptr ptrs ih =>
    have hforeign : ¬ process.IsLive ptr := by
      intro hlive
      obtain ⟨i, hi, hzero⟩ := h.free_live hlive
      rw [processFrees_cons] at hused
      exact hused i hi (processFrees_unused ptrs hzero)
    rw [processFrees_cons, processFree_foreign hstart hforeign] at hused ⊢
    obtain ⟨hrest, heq⟩ := ih hused
    exact ⟨List.forall_mem_cons.mpr ⟨hforeign, hrest⟩, heq⟩

lemma processFrees_foreign (hused : ∀ i < maxProgramAllocations, (process.allocations i).ptr ≠ 0)
    (ptrs : List Ptr) (hptrs : ∀ ptr ∈ ptrs, ¬ process.IsLive ptr) :
    processFrees heap process ptrs = (heap, process) := by
  induction ptrs with
  | nil => rfl
  | cons ptr ptrs ih =>
    rw [processFrees_cons, processFree_foreign hused (hptrs ptr List.mem_cons_self)]
    exact ih fun p hp => hptrs p (List.mem_cons_of_mem ptr hp)

/-! ## The release of the allocations -/

lemma mem_allocationPtrs : ptr ∈ allocationPtrs process.allocations ↔
    ∃ i < maxProgramAllocations, (process.allocations i).ptr = ptr := by
  simp only [allocationPtrs, List.mem_map, List.mem_range]

/-- If all entries are used, the termination frees a list of blocks of the heap. -/
lemma ProcessHeap.exists_blocks (h : ProcessHeap heap process L)
    (hused : ∀ i < maxProgramAllocations, (process.allocations i).ptr ≠ 0) :
    ∃ blocks : List ℕ, blocks.map blockAddress = allocationPtrs process.allocations ∧
      (∀ s ∈ blocks, s < kernelBlocks) ∧
      ∀ s, s ∈ blocks ↔
        ∃ i < maxProgramAllocations, (process.allocations i).ptr = blockAddress s := by
  have hblock : ∀ ptr ∈ allocationPtrs process.allocations, ∃ s < kernelBlocks,
      blockAddress s = ptr := by
    intro ptr hptr
    obtain ⟨i, hi, rfl⟩ := mem_allocationPtrs.mp hptr
    obtain ⟨s, hs, heq, -⟩ := h.recorded i hi (hused i hi)
    exact ⟨s, hs, heq.symm⟩
  obtain ⟨blocks, hmap⟩ : allocationPtrs process.allocations ∈
      Set.range (List.map blockAddress) := by
    rw [Set.range_list_map]
    exact fun ptr hptr => (hblock ptr hptr).imp fun _ hs => hs.2
  have hmem : ∀ s, s ∈ blocks ↔ blockAddress s ∈ allocationPtrs process.allocations := by
    intro s
    rw [← hmap, List.mem_map_of_injective blockAddress_injective]
  refine ⟨blocks, hmap, fun s hs => ?_, fun s => (hmem s).trans mem_allocationPtrs⟩
  obtain ⟨t, ht, heq⟩ := hblock _ ((hmem s).mp hs)
  exact blockAddress_injective heq ▸ ht

/-- A block of the process lies in a recorded allocation. -/
lemma ProcessHeap.owns_iff (h : ProcessHeap heap process L) {b : ℕ} : process.Owns b ↔
    ∃ i < maxProgramAllocations, ∃ s, (process.allocations i).ptr = blockAddress s ∧
      (⟨s, blocksFor (process.allocations i).size⟩ : Extent) ∈ L ∧
      (⟨s, blocksFor (process.allocations i).size⟩ : Extent).Covers b := by
  constructor
  · rintro ⟨i, hi, s, hptr, hb⟩
    obtain ⟨t, ht, hptr', hmem⟩ := h.recorded i hi (hptr ▸ blockAddress_ne_zero s)
    obtain rfl := blockAddress_injective (hptr.symm.trans hptr')
    have hsize : 0 < (process.allocations i).size := by
      by_contra hzero
      have hnone : blocksFor (process.allocations i).size = 0 := by
        rw [Nat.eq_zero_of_not_pos hzero]
        rfl
      rw [hnone] at hb
      exact absurd hb.1 (Nat.not_le.mpr hb.2)
    exact ⟨i, hi, s, hptr, hmem hsize, hb⟩
  · rintro ⟨i, hi, s, hptr, -, hb⟩
    exact ⟨i, hi, s, hptr, hb⟩

/-- The blocks that the termination frees. -/
lemma ProcessHeap.swept_iff (h : ProcessHeap heap process L) {blocks : List ℕ}
    (hblocks : ∀ s, s ∈ blocks ↔
      ∃ i < maxProgramAllocations, (process.allocations i).ptr = blockAddress s)
    (halone : ∀ i < maxProgramAllocations, ∀ s, (process.allocations i).ptr = blockAddress s →
      heap.block s ≠ entryFree → process.Owns s) {b : ℕ} :
    Swept L blocks b ↔ process.Owns b := by
  have hpacked := h.lists.packed
  rw [h.owns_iff]
  constructor
  · rintro ⟨s, hs, a, ha, has, hab, -⟩
    obtain ⟨i, hi, hptr⟩ := (hblocks s).mp hs
    have hne : heap.block s ≠ entryFree := by
      rw [h.lists.code_of_covers ha has]
      exact blockCode_ne_free _ _
    obtain ⟨j, hj, t, hptr', hmem, hcov⟩ := h.owns_iff.mp (halone i hi s hptr hne)
    rw [hpacked.eq_of_covers ha hmem has hcov] at hab
    exact ⟨j, hj, t, hptr', hmem, hab⟩
  · rintro ⟨i, hi, s, hptr, hmem, hb⟩
    have hstart : (⟨s, blocksFor (process.allocations i).size⟩ : Extent).Covers s :=
      ⟨le_rfl, hb.1.trans_lt hb.2⟩
    exact ⟨s, (hblocks s).mpr ⟨i, hi, hptr⟩, _, hmem, hstart, hb, hb.1⟩

/-- `kfree` of an entry that is not used writes in front of the table. -/
lemma used_of_inside (hsaddr : heap.saddr = heapAddress) {total : ℕ}
    (h : ∀ x ∈ (kfreeAll (kfreeAll heap (allocationPtrs process.allocations)) others).table.written,
      0 ≤ x ∧ x < total) : ∀ i < maxProgramAllocations, (process.allocations i).ptr ≠ 0 := by
  intro i hi hzero
  have hblock := isCode_null.addressToBlock hsaddr
  have hmem := exists_written_kfreeAll (allocationPtrs process.allocations)
    (mem_allocationPtrs.mpr ⟨i, hi, hzero⟩) (by rw [hblock]; decide : heapAddressToBlock heap 0 < 0)
  have hneg := (h _ (written_subset_kfreeAll others _ hmem)).1
  rw [hblock] at hneg
  exact absurd hneg (by decide)

lemma heapAddressToBlock_congr {heap' : Heap} (h : heap'.saddr = heap.saddr) (ptr : Ptr) :
    heapAddressToBlock heap' ptr = heapAddressToBlock heap ptr := by
  rw [heapAddressToBlock, heapAddressToBlock, h]

/-- The heap after `process_terminate_allocs` if all entries are used. -/
lemma ProcessHeap.exists_swept (h : ProcessHeap heap process L)
    (hused : ∀ i < maxProgramAllocations, (process.allocations i).ptr ≠ 0) :
    ∃ blocks : List ℕ, (∀ s, s ∈ blocks ↔
        ∃ i < maxProgramAllocations, (process.allocations i).ptr = blockAddress s) ∧
      SweptHeap heap L blocks (kfreeAll heap (allocationPtrs process.allocations)) := by
  obtain ⟨blocks, hmap, hlt, hmem⟩ := h.exists_blocks hused
  have hswept := (sweptHeap_nil heap L).kfreeAll h.saddr_eq h.total_eq h.lists blocks hlt
  rw [List.append_nil, hmap] at hswept
  exact ⟨blocks, hmem, hswept.congr fun s => List.mem_reverse⟩

lemma ProcessHeap.fits (h : ProcessHeap heap process L) (hok : ReleaseOk heap process ptrs others) :
    ReleaseFits heap process ptrs others := by
  have hsaddr : (processFrees heap process ptrs).1.saddr = heapAddress :=
    (processFrees_saddr ptrs).trans h.saddr_eq
  obtain ⟨hforeign, heq⟩ := h.frees_eq ptrs (used_of_inside hsaddr hok.inside)
  have hinside := hok.inside
  have hcleared := hok.cleared
  rw [heq] at hinside hcleared
  simp only at hinside hcleared
  have hused := used_of_inside h.saddr_eq hinside
  obtain ⟨blocks, hmem, hswept⟩ := h.exists_swept hused
  refine ⟨hused, hforeign, fun ptr hptr => ?_, fun i hi s hptr hne => ?_⟩
  · generalize kfreeAll heap (allocationPtrs process.allocations) = heap' at hinside hswept
    rw [← heapAddressToBlock_congr hswept.saddr_eq]
    by_contra hneg
    have hwrite := exists_written_kfreeAll others hptr (Int.not_le.mp hneg)
    exact hneg (hinside _ hwrite).1
  · -- the walk from the block frees it, so it belongs to the process
    by_contra hown
    obtain ⟨t, ht, hptr', -⟩ := h.recorded i hi (hused i hi)
    obtain rfl := blockAddress_injective (hptr.symm.trans hptr')
    have hlt : s < heap.table.total := h.total_eq ▸ ht
    obtain ⟨a, ha, has⟩ := (h.lists.ne_free_iff blockCode_ne_free hlt).mp hne
    have hfreed := hswept.freed s hlt ⟨s, (hmem s).mpr ⟨i, hi, hptr⟩, a, ha, has, has, le_rfl⟩
    exact hne (((hcleared s hlt).2 hown).symm.trans hfreed)

/-- Only entries of the table are accessed if the process fits. -/
lemma ProcessHeap.inside (h : ProcessHeap heap process L)
    (hfits : ReleaseFits heap process ptrs others) :
    ∀ x ∈ (kfreeAll (kfreeAll heap (allocationPtrs process.allocations)) others).table.written,
      0 ≤ x ∧ x < heap.table.total := by
  obtain ⟨blocks, -, hswept⟩ := h.exists_swept hfits.used
  have hnone : ∀ x ∈ heap.table.written, 0 ≤ x ∧ x < heap.table.total := by
    rw [h.unwritten]
    exact fun x hx => absurd hx List.not_mem_nil
  have hallocs : ∀ x ∈ (kfreeAll heap (allocationPtrs process.allocations)).table.written,
      0 ≤ x ∧ x < heap.table.total := by
    refine kfreeAll_written _ (fun ptr hptr => ?_) hnone
    obtain ⟨i, hi, rfl⟩ := mem_allocationPtrs.mp hptr
    obtain ⟨s, hs, heq, -⟩ := h.recorded i hi (hfits.used i hi)
    rw [heq, addressToBlock_eq h.saddr_eq hs]
    exact Int.natCast_nonneg s
  generalize kfreeAll heap (allocationPtrs process.allocations) = heap' at hallocs hswept ⊢
  rw [← hswept.total_eq] at hallocs ⊢
  refine kfreeAll_written _ (fun ptr hptr => ?_) hallocs
  rw [heapAddressToBlock_congr hswept.saddr_eq]
  exact hfits.others ptr hptr

lemma ProcessHeap.ok (h : ProcessHeap heap process L)
    (hfits : ReleaseFits heap process ptrs others) : ReleaseOk heap process ptrs others := by
  have hframe : ∀ before : List Ptr, before ⊆ ptrs →
      processFrees heap process before = (heap, process) := fun before hsub =>
    processFrees_foreign hfits.used before fun ptr hptr => hfits.foreign ptr (hsub hptr)
  obtain ⟨blocks, hmem, hswept⟩ := h.exists_swept hfits.used
  refine ⟨?_, fun before ptr after heq => ?_, ?_⟩
  · rw [hframe ptrs (List.Subset.refl ptrs)]
    exact h.inside hfits
  · rw [hframe before (heq ▸ List.subset_append_left before (ptr :: after))]
    exact fun hlive => processFree_foreign hfits.used hlive
  · rw [hframe ptrs (List.Subset.refl ptrs)]
    refine fun b hb => ⟨fun hown => ?_, fun hown => ?_⟩
    · exact hswept.freed b hb ((h.swept_iff hmem hfits.alone).mpr hown)
    · exact hswept.kept b hb (mt (h.swept_iff hmem hfits.alone).mp hown)

/-- The release is right exactly if the process fits. -/
theorem process_release_iff (h : ProcessHeap heap process L) (ptrs others : List Ptr) :
    ReleaseOk heap process ptrs others ↔ ReleaseFits heap process ptrs others :=
  ⟨h.fits, h.ok⟩

/-- The first blocks, as many allocations. -/
def unitExtents (n : ℕ) : List Extent := (List.range n).map fun i => ⟨i, 1⟩

/-- The kernel heap with these allocations. -/
def unitHeap (n : ℕ) : Heap :=
  ⟨⟨fun i => if 0 ≤ i ∧ i < n then blockCode 1 0 else entryFree, kernelBlocks, []⟩, heapAddress⟩

lemma mem_unitExtents {n : ℕ} {a : Extent} : a ∈ unitExtents n ↔ ∃ i < n, ⟨i, 1⟩ = a := by
  simp only [unitExtents, List.mem_map, List.mem_range]

lemma unitHeap_lists {n : ℕ} (hn : n ≤ kernelBlocks) : (unitHeap n).Lists (unitExtents n) := by
  have hentry : ∀ i : ℕ, (unitHeap n).block i = if i < n then blockCode 1 0 else entryFree := by
    intro i
    have hiff : 0 ≤ (i : ℤ) ∧ (i : ℤ) < n ↔ i < n := by omega
    exact if_congr hiff rfl rfl
  refine ⟨⟨fun a ha => ?_, ?_⟩, fun a ha j hj => ?_, fun i _ hi => ?_⟩
  · obtain ⟨i, hi, rfl⟩ := mem_unitExtents.mp ha
    exact hi.trans_le hn
  · refine List.pairwise_map.mpr (List.pairwise_lt_range.imp fun hlt k hk => ?_)
    simp only [Extent.Covers] at hk
    omega
  · obtain ⟨i, hi, rfl⟩ := mem_unitExtents.mp ha
    obtain rfl : j = 0 := Nat.lt_one_iff.mp hj
    rw [hentry]
    exact if_pos hi
  · rw [hentry, if_neg fun hlt => hi ⟨⟨i, 1⟩, mem_unitExtents.mpr ⟨i, hlt, rfl⟩, le_rfl,
      Nat.lt_succ_self i⟩]

/-- A process that uses all entries of its table of allocations, with a block for each. -/
def fullProcess : ProcessMemory := ⟨fun i => ⟨blockAddress i, 4096⟩, pagingNew4gb 5 bootTables⟩

/-- The process calls `process_free` with `NULL` and is terminated. -/
theorem process_release_full :
    ReleaseOk (unitHeap maxProgramAllocations) fullProcess [0] [blockAddress 2000] := by
  have hblocks : blocksFor 4096 = 1 := by decide
  have h : ProcessHeap (unitHeap maxProgramAllocations) fullProcess
      (unitExtents maxProgramAllocations) := by
    refine ⟨rfl, rfl, unitHeap_lists (by decide), rfl, fun i hi _ =>
      ⟨i, hi.trans (by decide), rfl, fun _ => ?_⟩⟩
    exact mem_unitExtents.mpr ⟨i, hi, congrArg (Extent.mk i) hblocks.symm⟩
  refine (process_release_iff h [0] [blockAddress 2000]).mpr
    ⟨fun i _ => blockAddress_ne_zero i, fun ptr hptr hlive => ?_, fun ptr hptr => ?_,
      fun i hi s hptr _ => ⟨i, hi, s, hptr, le_rfl, ?_⟩⟩
  · exact hlive.1 (List.mem_singleton.mp hptr)
  · rw [List.mem_singleton.mp hptr, addressToBlock_eq rfl (by decide)]
    exact Int.natCast_nonneg 2000
  · exact Nat.lt_add_of_pos_right (blocksFor_pos (by decide : 0 < 4096))

/-- A process without an allocation is terminated. -/
theorem not_process_release_unused :
    ProcessHeap bootHeap (bootMemory.procs 0) [] ∧
      ¬ ReleaseOk bootHeap (bootMemory.procs 0) [] [] := by
  refine ⟨⟨rfl, rfl, bootHeap_kernelHeap.records.encodes, rfl, fun i _ hne => absurd rfl hne⟩,
    fun hok => ?_⟩
  exact used_of_inside rfl hok.inside 0 (by decide) rfl

end SerpaeOS
