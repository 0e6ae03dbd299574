import SerpaeOS.Heap.OneBlock

/-!
# The heap among its users

The allocations that the users of the kernel heap hold are a family of extents.  `Holding` says that
the table records this family and that outside the table nothing has changed, so the number of free
blocks can be read off from the family, and the table is as it was at first when nobody holds
anything.
-/

namespace SerpaeOS

open BlockTable Word

/-- The kernel heap with the given allocations; in front of the table and behind it nothing is
different from `heap₀`. -/
structure Holding (heap₀ heap : Heap) (L : List Extent) : Prop where
  saddr_eq : heap.saddr = heapAddress
  total_eq : heap.table.total = kernelBlocks
  lists : heap.Lists L
  outside : ∀ x : ℤ, x < 0 ∨ (kernelBlocks : ℤ) ≤ x →
    heap.table.entries x = heap₀.table.entries x

/-- Single blocks as extents. -/
def singles (blocks : List ℕ) : List Extent := blocks.map fun s => ⟨s, 1⟩

variable {heap₀ heap heap' : Heap} {L L' : List Extent} {blocks : List ℕ} {s n size : ℕ}

lemma mem_singles {a : Extent} : a ∈ singles blocks ↔ ∃ s ∈ blocks, a = ⟨s, 1⟩ := by
  simp only [singles, List.mem_map, eq_comm]

lemma singles_covers {i : ℕ} : (⟨s, 1⟩ : Extent).Covers i ↔ s = i := by
  simp only [Extent.Covers]
  omega

lemma holding_init {entries : ℤ → Entry} (hinit : kheapInit entries = .ok heap) :
    Holding heap heap [] := by
  have h := kheapInit_kernelHeap hinit
  exact ⟨h.saddr_eq, h.total_eq, h.records.encodes, fun _ _ => rfl⟩

namespace Holding

lemma perm (h : Holding heap₀ heap L) (hperm : L.Perm L') : Holding heap₀ heap L' :=
  ⟨h.saddr_eq, h.total_eq, h.lists.perm hperm, h.outside⟩

lemma kernelTable (h : Holding heap₀ heap L) : KernelTable heap :=
  ⟨h.saddr_eq, h.total_eq, fun i hi hfree =>
    h.lists.free_eq i hi ((h.lists.entryFree_iff hi).mp hfree)⟩

/-- Every block is free or belongs to an allocation. -/
lemma card_freeBlocks (h : Holding heap₀ heap L) :
    (freeBlocks heap).card + (L.map Extent.len).sum = kernelBlocks := by
  have hsplit := Finset.card_filter_add_card_filter_not (s := Finset.range heap.table.total)
    fun i => EntryFree heap.table.entries i
  have hcovered : ((Finset.range heap.table.total).filter
      fun i : ℕ => ¬ EntryFree heap.table.entries i) =
        (Finset.range heap.table.total).filter fun i => Extent.Covered L i := by
    refine Finset.filter_congr fun i hi => ?_
    rw [h.lists.entryFree_iff (Finset.mem_range.mp hi), not_not]
  rw [hcovered, h.lists.packed.card_covered, Finset.card_range, h.total_eq] at hsplit
  rwa [freeBlocks, h.total_eq]

/-- When nothing is held the table is as it was at first. -/
lemma entries_eq (h : Holding heap₀ heap []) (h₀ : Holding heap₀ heap₀ []) :
    heap.table.entries = heap₀.table.entries := by
  funext x
  by_cases hx : 0 ≤ x ∧ x < kernelBlocks
  · obtain ⟨i, rfl⟩ := Int.eq_ofNat_of_zero_le hx.1
    have hlists := h.lists
    rw [Heap.Lists, h.total_eq, ← h₀.total_eq] at hlists
    refine hlists.table_eq h₀.lists (fun _ => Iff.rfl) i ?_
    rw [h₀.total_eq]
    omega
  · exact h.outside x (by omega)

/-- Blocks that were taken one by one are allocations of their own. -/
lemma marked (h : Holding heap₀ heap L) (hm : Marked heap heap' blocks) :
    Holding heap₀ heap' (singles blocks ++ L) := by
  have hfree : ∀ s ∈ blocks, s < kernelBlocks ∧ ¬ Extent.Covered L s := by
    intro s hs
    obtain ⟨hlt, hentry⟩ := mem_freeBlocks.mp (hm.free s hs)
    exact ⟨h.total_eq ▸ hlt, (h.lists.entryFree_iff hlt).mp hentry⟩
  have htotal := hm.total_eq.trans h.total_eq
  refine ⟨hm.saddr_eq.trans h.saddr_eq, htotal, ⟨⟨fun a ha => ?_, ?_⟩, fun a ha j hj => ?_,
    fun i hi hcov => ?_⟩, fun x hx => ?_⟩
  · rw [htotal]
    rcases List.mem_append.mp ha with ha | ha
    · obtain ⟨s, hs, rfl⟩ := mem_singles.mp ha
      exact (hfree s hs).1
    · exact h.total_eq ▸ h.lists.packed.inside a ha
  · rw [List.pairwise_append]
    refine ⟨?_, h.lists.packed.apart, fun a ha b hb i hi => ?_⟩
    · refine List.pairwise_map.mpr (hm.nodup.imp fun {s t} hne i hi => hne ?_)
      exact (singles_covers.mp hi.1).trans (singles_covers.mp hi.2).symm
    · obtain ⟨s, hs, rfl⟩ := mem_singles.mp ha
      obtain rfl := singles_covers.mp hi.1
      exact (hfree s hs).2 ⟨b, hb, hi.2⟩
  · rcases List.mem_append.mp ha with ha | ha
    · obtain ⟨s, hs, rfl⟩ := mem_singles.mp ha
      obtain rfl : j = 0 := Nat.lt_one_iff.mp hj
      exact hm.inside s hs
    · have hcovers : a.Covers (a.start + j) := ⟨Nat.le_add_right _ _, Nat.add_lt_add_left hj _⟩
      refine Eq.trans (hm.outside _ fun s hs hc => ?_) (h.lists.code_eq a ha j hj)
      obtain rfl : a.start + j = s := Int.ofNat_inj.mp hc
      exact (hfree _ hs).2 ⟨a, ha, hcovers⟩
  · refine Eq.trans (hm.outside _ fun s hs hc => hcov ?_) (h.lists.free_eq i (hm.total_eq ▸ hi) ?_)
    · obtain rfl : i = s := Int.ofNat_inj.mp hc
      exact ⟨⟨i, 1⟩, List.mem_append_left _ (mem_singles.mpr ⟨i, hs, rfl⟩), singles_covers.mpr rfl⟩
    · exact fun hc => hcov (hc.subset (List.subset_append_right _ _))
  · rw [hm.outside x fun s hs hc => ?_]
    · exact h.outside x hx
    · have := (hfree s hs).1
      omega

/-- `kzalloc` when the heap can answer the request. -/
lemma kzalloc (h : Holding heap₀ heap L) (hsize : size < heapSizeBytes)
    (hroom : HeapRoom heap size) : SerpaeOS.kzalloc heap size = (heap, 0) ∨
      ∃ s heap', SerpaeOS.kzalloc heap size = (heap', blockAddress s) ∧ 0 < size ∧
        Holding heap₀ heap' (⟨s, blocksFor size⟩ :: L) := by
  have heq : SerpaeOS.kzalloc heap size = heapMallocBlocks heap (blocksFor size) := by
    refine heapMalloc_eq heap ?_
    simp only [heapSizeBytes, heapBlockSize] at *
    omega
  have hres := heapGetStartBlock_result heap (blocksFor size)
  generalize hr : heapGetStartBlock heap (blocksFor size) = res at hres
  cases hres with
  | @found s hn hfit =>
    have hin := hfit.inside
    rw [h.total_eq] at hin
    have hs : s < kernelBlocks := by
      simp only at hin
      omega
    have hpos : 0 < size := by
      by_contra h0
      obtain rfl : size = 0 := by omega
      exact absurd hn (by decide)
    have hw := heapMarkBlocksTaken_written heap s (blocksFor size)
    refine Or.inr ⟨s, heapMarkBlocksTaken heap s (blocksFor size), ?_, hpos, h.saddr_eq,
      hw.total_eq.trans h.total_eq, h.lists.mark hfit.inside hfit.all, fun x hx => ?_⟩
    · rw [heq, heapMallocBlocks, hr]
      simp only
      rw [blockToAddress_eq h.saddr_eq hs]
    · simp only at hin
      rw [hw.outside x (by omega)]
      exact h.outside x hx
  | full hno hlast =>
    rw [heq, heapMallocBlocks_full hno hlast]
    exact Or.inl rfl
  | @short b hno hb htail =>
    exfalso
    rcases hroom with ⟨hsize', hrun⟩ | hlast
    · exact hno (blocksFor_pos hsize') hrun
    · refine hlast (heap.table.total - 1) (by omega) (htail _ ⟨?_, ?_⟩)
      · simp only
        omega
      · simp only
        omega

/-- `kfree` of the first block of an allocation. -/
lemma kfree (h : Holding heap₀ heap (⟨s, n⟩ :: L)) (hn : 0 < n) :
    Holding heap₀ (SerpaeOS.kfree heap (blockAddress s)) L := by
  have hlists : heap.Lists ([] ++ ⟨s, n⟩ :: L) := h.lists
  have hin := h.lists.packed.inside ⟨s, n⟩ List.mem_cons_self
  rw [h.total_eq] at hin
  simp only at hin
  have hblock : heapAddressToBlock heap (blockAddress s) = s :=
    addressToBlock_eq h.saddr_eq (by omega)
  have hw := hlists.free_written hn hblock
  refine ⟨h.saddr_eq, hw.total_eq.trans h.total_eq, hlists.free hn hblock, fun x hx => ?_⟩
  refine Eq.trans (hw.outside x ?_) (h.outside x hx)
  simp only
  omega

/-- The blocks are given back one after the other. -/
lemma kfreeAll : ∀ {blocks : List ℕ} {heap : Heap}, Holding heap₀ heap (singles blocks ++ L) →
    Holding heap₀ ((blocks.map blockAddress).foldl SerpaeOS.kfree heap) L := by
  intro blocks
  induction blocks with
  | nil => exact fun h => h
  | cons s blocks ih => exact fun h => ih (h.kfree Nat.one_pos)

end Holding

end SerpaeOS
