import SerpaeOS.Heap.Spec

/-!
# The heap of the kernel

`kheap.c`: the kernel has one heap, with its pool at `heapAddress` and its table outside
the pool.  All its blocks have addresses below `2 ^ 31`, so that in this heap a block and
its address determine each other.
-/

namespace SerpaeOS

open BlockTable Word

/-- `kheap_init`, over a table memory with the given contents. -/
def kheapInit (entries : ℤ → Entry) : Except ℤ Heap :=
  let totalTableEntries := heapSizeBytes / heapBlockSize
  heapCreate heapAddress (heapAddress + heapSizeBytes) ⟨entries, totalTableEntries, []⟩

def kmalloc (kernelHeap : Heap) (size : ℕ) : Heap × Ptr := heapMalloc kernelHeap size

/-- `kzalloc`; it also clears the block, which the table does not show. -/
def kzalloc (kernelHeap : Heap) (size : ℕ) : Heap × Ptr := kmalloc kernelHeap size

def kfree (kernelHeap : Heap) (ptr : Ptr) : Heap := heapFree kernelHeap ptr

/-- The number of blocks of the kernel heap. -/
def kernelBlocks : ℕ := 409600

/-- The heap of the kernel with the given allocations. -/
structure KernelHeap (heap : Heap) (L : List Extent) : Prop where
  saddr_eq : heap.saddr = heapAddress
  total_eq : heap.table.total = kernelBlocks
  records : heap.Records L

lemma kheapInit_kernelHeap {entries : ℤ → Entry} {heap : Heap}
    (h : kheapInit entries = .ok heap) : KernelHeap heap [] := by
  obtain ⟨hsaddr, htotal⟩ := heapCreate_frame h
  exact ⟨hsaddr, htotal, heapCreate_records h⟩

/-- The address of a block of the kernel heap. -/
def blockAddress (s : ℕ) : ℕ := heapAddress + s * heapBlockSize

variable {heap : Heap} {L L₁ L₂ : List Extent}

lemma blockToAddress_eq (h : heap.saddr = heapAddress) {s : ℕ} (hs : s < kernelBlocks) :
    heapBlockToAddress heap s = blockAddress s := by
  rw [heapBlockToAddress, h, blockAddress, Nat.mod_eq_of_lt]
  simp only [kernelBlocks, heapAddress, heapBlockSize] at *
  omega

lemma offset_blockAddress (h : heap.saddr = heapAddress) {s : ℕ} (hs : s < kernelBlocks) :
    heap.offset (blockAddress s) = s * heapBlockSize := by
  rw [← blockToAddress_eq h hs]
  refine heap.offset_blockToAddress ?_
  simp only [kernelBlocks] at hs
  omega

lemma addressToBlock_eq (h : heap.saddr = heapAddress) {s : ℕ} (hs : s < kernelBlocks) :
    heapAddressToBlock heap (blockAddress s) = s := by
  have hoff := offset_blockAddress h hs
  have hlt : heap.offset (blockAddress s) < 2 ^ 31 := by
    rw [hoff]
    simp only [kernelBlocks, heapBlockSize] at *
    omega
  rw [heapAddressToBlock_of_lt hlt, hoff, Nat.mul_div_cancel _ (by decide)]

lemma KernelHeap.blockToAddress (h : KernelHeap heap L) {s : ℕ} (hs : s < kernelBlocks) :
    heapBlockToAddress heap s = blockAddress s :=
  blockToAddress_eq h.saddr_eq hs

lemma KernelHeap.offset_blockAddress (h : KernelHeap heap L) {s : ℕ} (hs : s < kernelBlocks) :
    heap.offset (blockAddress s) = s * heapBlockSize :=
  SerpaeOS.offset_blockAddress h.saddr_eq hs

lemma KernelHeap.addressToBlock (h : KernelHeap heap L) {s : ℕ} (hs : s < kernelBlocks) :
    heapAddressToBlock heap (blockAddress s) = s :=
  addressToBlock_eq h.saddr_eq hs

lemma blockAddress_mod (s : ℕ) : blockAddress s % 4096 = 0 := by
  simp only [blockAddress, heapAddress, heapBlockSize]
  omega

lemma blockAddress_add_le {s : ℕ} (hs : s < kernelBlocks) : blockAddress s + 4096 ≤ 2 ^ 32 := by
  simp only [blockAddress, heapAddress, heapBlockSize, kernelBlocks] at hs ⊢
  omega

lemma blockAddress_injective : Function.Injective blockAddress := by
  intro s t h
  simp only [blockAddress, heapBlockSize] at h
  omega

lemma blockAddress_ne_zero (s : ℕ) : blockAddress s ≠ 0 := by
  simp only [blockAddress, heapAddress]
  omega

/-- A request that the heap can answer: a long enough run is free, or the last block is
taken. -/
def HeapRoom (heap : Heap) (size : ℕ) : Prop :=
  (1 ≤ size ∧ Extent.HasRun (EntryFree heap.table.entries) heap.table.total (blocksFor size)) ∨
    ∀ j, j + 1 = heap.table.total → ¬ EntryFree heap.table.entries j

/-- `kzalloc` when the heap can answer the request: no memory, or the first run of free
blocks. -/
lemma KernelHeap.kzalloc (h : KernelHeap heap L) {size : ℕ} (hsize : size < heapSizeBytes)
    (hroom : HeapRoom heap size) :
    kzalloc heap size = (heap, 0) ∨
      ∃ s heap', SerpaeOS.kzalloc heap size = (heap', blockAddress s) ∧ 0 < size ∧
        s + blocksFor size ≤ kernelBlocks ∧ KernelHeap heap' (⟨s, blocksFor size⟩ :: L) ∧
        heap.SameFrame heap' := by
  have heq : SerpaeOS.kzalloc heap size = heapMallocBlocks heap (blocksFor size) := by
    refine heapMalloc_eq heap ?_
    simp only [heapSizeBytes, heapBlockSize] at *
    omega
  have hres := heapGetStartBlock_result heap (blocksFor size)
  generalize hr : heapGetStartBlock heap (blocksFor size) = res at hres
  cases hres with
  | @found s hn hfit =>
    obtain ⟨heap', hm, hrec, hf⟩ := h.records.mallocBlocks hn hfit
    have hin := hfit.inside
    rw [h.total_eq] at hin
    have hs : s < kernelBlocks := by
      simp only at hin
      omega
    have hpos : 0 < size := by
      by_contra h0
      obtain rfl : size = 0 := by omega
      exact absurd hn (by decide)
    refine Or.inr ⟨s, heap', ?_, hpos, hin, ⟨?_, ?_, hrec⟩, hf⟩
    · rw [heq, hm, h.blockToAddress hs]
    · rw [hf.saddr_eq, h.saddr_eq]
    · rw [hf.total_eq, h.total_eq]
  | full hno hlast =>
    rw [heq, heapMallocBlocks_full hno hlast]
    exact Or.inl rfl
  | @short b hno hb htail =>
    exfalso
    rcases hroom with ⟨hsize', hrun⟩ | hlast
    · exact hno (blocksFor_pos hsize') hrun
    · refine hlast (heap.table.total - 1) (by omega) (htail _ ⟨?_, ?_⟩)
      · simp only
        omega
      · simp only
        omega

/-- `kfree` of the first block of an allocation. -/
lemma KernelHeap.kfree {s n : ℕ} (h : KernelHeap heap (L₁ ++ ⟨s, n⟩ :: L₂)) (hn : 0 < n) :
    KernelHeap (kfree heap (blockAddress s)) (L₁ ++ L₂) ∧
      heap.SameFrame (SerpaeOS.kfree heap (blockAddress s)) := by
  have hin := h.records.encodes.packed.inside ⟨s, n⟩ (by simp)
  rw [h.total_eq] at hin
  have hs : s < kernelBlocks := by
    simp only at hin
    omega
  obtain ⟨hrec, hf⟩ := h.records.free hn (h.addressToBlock hs)
  exact ⟨⟨hf.saddr_eq.trans h.saddr_eq, hf.total_eq.trans h.total_eq, hrec⟩, hf⟩

/-! ## The heap before its first allocation -/

/-- The kernel heap with all blocks free. -/
def bootHeap : Heap := ⟨⟨fun _ => entryFree, kernelBlocks, []⟩, heapAddress⟩

lemma bootHeap_kernelHeap : KernelHeap bootHeap [] := by
  refine ⟨rfl, rfl, ⟨Extent.packed_nil _, by simp, fun _ _ _ => rfl⟩, by simp [bootHeap], ?_⟩
  simp only [bootHeap, kernelBlocks]
  omega

lemma entryFree_bootHeap (j : ℕ) : EntryFree bootHeap.table.entries j :=
  (by decide : heapGetEntryType entryFree = entryFree)

/-- A request for no bytes returns the first block, which stays free. -/
lemma kzalloc_bootHeap_zero : SerpaeOS.kzalloc bootHeap 0 = (bootHeap, heapAddress) := by
  have hstart : heapGetStartBlock bootHeap 0 = some 0 := by
    have h0 : heapGetEntryType (bootHeap.table.entries (0 : ℕ)) = entryFree := entryFree_bootHeap 0
    obtain ⟨k, hk⟩ : ∃ k, bootHeap.table.total = k + 1 := ⟨kernelBlocks - 1, rfl⟩
    rw [heapGetStartBlock, hk, startBlockLoop, if_neg (not_not.mpr h0)]
    exact startBlockLoop_zero k 1 1 fun j _ => entryFree_bootHeap j
  rw [SerpaeOS.kzalloc, kmalloc, heapMalloc_eq _ (by decide), show blocksFor 0 = 0 from rfl,
    heapMallocBlocks, hstart]
  rfl

end SerpaeOS
