import Mathlib.Data.Finset.Card
import SerpaeOS.Heap.FirstFit

/-!
# Blocks taken one at a time

Requests of at most a page take one block each.  `Marked` compares the table with an earlier one:
the listed blocks were free then and are single allocations now, and nothing else is different.
Taking a block adds it to the list, giving it back removes it.
-/

namespace SerpaeOS

open BlockTable Word StepRun

/-- A heap that calls lead to from `kheap_init`, whatever they are. -/
def ReachableHeap (heap : Heap) : Prop :=
  ∃ (entries : ℤ → Entry) (heap₀ : Heap) (ops : List HeapOp) (r : HeapRun),
    kheapInit entries = .ok heap₀ ∧ ops.foldlM heapStep ⟨heap₀, []⟩ = some r ∧ r.heap = heap

/-- The kernel heap at its place, with clean free entries. -/
structure KernelTable (heap : Heap) : Prop where
  saddr_eq : heap.saddr = heapAddress
  total_eq : heap.table.total = kernelBlocks
  clean : CleanTable heap.table

/-- The free blocks of a heap. -/
def freeBlocks (heap : Heap) : Finset ℕ :=
  (Finset.range heap.table.total).filter fun i => EntryFree heap.table.entries i

/-- The heap `heap'` is `heap` with the listed blocks taken one by one. -/
structure Marked (heap heap' : Heap) (blocks : List ℕ) : Prop where
  saddr_eq : heap'.saddr = heap.saddr
  total_eq : heap'.table.total = heap.table.total
  nodup : blocks.Nodup
  free : ∀ s ∈ blocks, s ∈ freeBlocks heap
  inside : ∀ s ∈ blocks, heap'.table.entries (s : ℕ) = blockCode 1 0
  outside : ∀ x : ℤ, (∀ s ∈ blocks, x ≠ (s : ℕ)) → heap'.table.entries x = heap.table.entries x

variable {heap heap' heap₀ : Heap} {blocks L₁ L₂ : List ℕ} {s size : ℕ}

lemma mem_freeBlocks {i : ℕ} :
    i ∈ freeBlocks heap ↔ i < heap.table.total ∧ EntryFree heap.table.entries i := by
  rw [freeBlocks, Finset.mem_filter, Finset.mem_range]

/-! ## Reachable heaps -/

lemma heapStep_frame {r r' : HeapRun} {op : HeapOp} (h : heapStep r op = some r') :
    r'.heap.saddr = r.heap.saddr ∧ r'.heap.table.total = r.heap.table.total := by
  cases op with
  | malloc size =>
    obtain rfl := Option.some.inj h
    have hcases : ∀ n, (heapMallocBlocks r.heap n).1.saddr = r.heap.saddr ∧
        (heapMallocBlocks r.heap n).1.table.total = r.heap.table.total := by
      intro n
      rw [heapMallocBlocks]
      cases heapGetStartBlock r.heap n with
      | none => exact ⟨rfl, rfl⟩
      | some s => exact ⟨rfl, (heapMarkBlocksTaken_written r.heap s n).total_eq⟩
    exact hcases _
  | free ptr =>
    obtain rfl := Option.some.inj h
    exact ⟨rfl, total_markFreeLoop _ _ _⟩

/-- The kernel heap after any calls. -/
lemma kernelTable_run {entries : ℤ → Entry} (hinit : kheapInit entries = .ok heap₀)
    {ops : List HeapOp} {r : HeapRun} (hrun : ops.foldlM heapStep ⟨heap₀, []⟩ = some r) :
    KernelTable r.heap := by
  have hkernel := kheapInit_kernelHeap hinit
  have hstart : KernelTable heap₀ :=
    ⟨hkernel.saddr_eq, hkernel.total_eq, cleanTable_create hinit⟩
  have halways : Always heapStep (fun r => KernelTable r.heap) ⟨heap₀, []⟩ ops := by
    refine always_of_guarded (L := fun _ _ => True) (C := fun _ _ => True) (fun _ h => h)
      (fun r op h _ _ => ?_) hstart guarded_true guarded_true
    obtain ⟨r', hstep, hclean⟩ := cleanTable_step h.clean op
    obtain ⟨hsaddr, htotal⟩ := heapStep_frame hstep
    exact ⟨r', hstep, hsaddr.trans h.saddr_eq, htotal.trans h.total_eq, hclean⟩
  obtain ⟨r', hrun', htable⟩ := halways.last
  obtain rfl := Option.some.inj (hrun'.symm.trans hrun)
  exact htable

lemma ReachableHeap.kernelTable (h : ReachableHeap heap) : KernelTable heap := by
  obtain ⟨entries, heap₀, ops, r, hinit, hrun, rfl⟩ := h
  exact kernelTable_run hinit hrun

/-- The kernel heap as `kheap_init` leaves it. -/
def freshHeap : Heap :=
  ⟨⟨fun i => if 0 ≤ i ∧ i < (kernelBlocks : ℕ) then entryFree else 0, kernelBlocks,
    (List.range kernelBlocks).map Int.ofNat⟩, heapAddress⟩

lemma freshHeap_init : kheapInit (fun _ => 0) = .ok freshHeap := by
  have htotal : heapSizeBytes / heapBlockSize = kernelBlocks := by decide
  have halign : (!heapValidateAlignment heapAddress ||
      !heapValidateAlignment (heapAddress + heapSizeBytes)) = false := by decide
  have htable : heapValidateTable heapAddress (heapAddress + heapSizeBytes)
      ⟨fun _ => 0, kernelBlocks, []⟩ = 0 := by decide
  simp only [kheapInit, htotal, heapCreate, halign] at htable ⊢
  rw [htable, if_neg (by decide), if_neg (lt_irrefl 0), List.nil_append, freshHeap]

lemma reachableHeap_freshHeap : ReachableHeap freshHeap :=
  ⟨fun _ => 0, freshHeap, [], ⟨freshHeap, []⟩, freshHeap_init, rfl, rfl⟩

/-- All blocks are free at first. -/
lemma card_freeBlocks_freshHeap : (freeBlocks freshHeap).card = kernelBlocks := by
  rw [freeBlocks, Finset.filter_true_of_mem, Finset.card_range]
  · rfl
  · intro i hi
    have hlt : i < kernelBlocks := Finset.mem_range.mp hi
    simp only [freshHeap, EntryFree]
    rw [if_pos ⟨Int.natCast_nonneg i, Int.ofNat_lt.mpr hlt⟩]
    decide

/-! ## Taking and giving back -/

namespace Marked

lemma refl (heap : Heap) : Marked heap heap [] :=
  ⟨rfl, rfl, List.nodup_nil, fun _ hs => absurd hs List.not_mem_nil,
    fun _ hs => absurd hs List.not_mem_nil, fun _ _ => rfl⟩

/-- When all blocks are given back the table is as before. -/
lemma entries_eq (h : Marked heap heap' []) : heap'.table.entries = heap.table.entries :=
  funext fun x => h.outside x fun _ hs => absurd hs List.not_mem_nil

/-- A block that was free is free unless it is listed. -/
lemma entryFree_iff (h : Marked heap heap' blocks) {i : ℕ} :
    EntryFree heap'.table.entries i ↔ EntryFree heap.table.entries i ∧ i ∉ blocks := by
  by_cases hi : i ∈ blocks
  · rw [EntryFree, h.inside i hi, heapGetEntryType_blockCode]
    exact iff_of_false (by decide) fun hc => hc.2 hi
  · rw [EntryFree, EntryFree, h.outside i fun s hs hc => hi (Nat.cast_inj.mp hc ▸ hs)]
    exact ⟨fun hfree => ⟨hfree, hi⟩, fun hfree => hfree.1⟩

lemma lt_kernelBlocks (hheap : KernelTable heap) (h : Marked heap heap' blocks) (hs : s ∈ blocks) :
    s < kernelBlocks := by
  rw [← hheap.total_eq]
  exact (mem_freeBlocks.mp (h.free s hs)).1

/-- A request of at most a page takes one more block, as long as one is free. -/
lemma kzalloc (hheap : KernelTable heap) (h : Marked heap heap' blocks)
    (hroom : blocks.length < (freeBlocks heap).card) (hpos : 1 ≤ size) (hle : size ≤ 4096) :
    ∃ s heap'', SerpaeOS.kzalloc heap' size = (heap'', blockAddress s) ∧
      Marked heap heap'' (blocks ++ [s]) := by
  obtain ⟨i, hi, hnew⟩ : ∃ i ∈ freeBlocks heap, i ∉ blocks.toFinset := by
    refine Finset.exists_mem_notMem_of_card_lt_card ?_
    rwa [List.toFinset_card_of_nodup h.nodup]
  rw [List.mem_toFinset] at hnew
  obtain ⟨hlt, hfree⟩ := mem_freeBlocks.mp hi
  have hrun : Extent.HasRun (EntryFree heap'.table.entries) heap'.table.total 1 := by
    refine ⟨i, by rw [h.total_eq]; exact hlt, fun j hj => ?_⟩
    obtain rfl : j = i := Nat.le_antisymm (Nat.le_of_lt_succ hj.2) hj.1
    exact h.entryFree_iff.mpr ⟨hfree, hnew⟩
  obtain ⟨s, hfit⟩ := hrun.exists_firstFit
  have hs : EntryFree heap'.table.entries s := hfit.all s ⟨le_rfl, Nat.lt_succ_self s⟩
  have hslt : s < heap.table.total := by
    rw [← h.total_eq]
    exact hfit.inside
  obtain ⟨hsfree, hsnew⟩ := h.entryFree_iff.mp hs
  have hblocks : blocksFor size = 1 := by
    rw [blocksFor, heapBlockSize]
    omega
  have hw := heapMarkBlocksTaken_written heap' s 1
  refine ⟨s, heapMarkBlocksTaken heap' s 1, ?_, h.saddr_eq, hw.total_eq.trans h.total_eq, ?_,
    fun t ht => ?_, fun t ht => ?_, fun x hx => ?_⟩
  · rw [SerpaeOS.kzalloc, kmalloc, heapMalloc_eq heap' (hle.trans (by decide)), hblocks,
      heapMallocBlocks, heapGetStartBlock_found Nat.one_pos hfit]
    simp only
    rw [blockToAddress_eq (h.saddr_eq.trans hheap.saddr_eq) (hheap.total_eq ▸ hslt)]
  · exact List.nodup_append.mpr ⟨h.nodup, List.nodup_singleton s, fun a ha b hb hab =>
      hsnew (by rwa [hab, List.mem_singleton.mp hb] at ha)⟩
  · rcases List.mem_append.mp ht with ht | ht
    · exact h.free t ht
    · rw [List.mem_singleton.mp ht]
      exact mem_freeBlocks.mpr ⟨hslt, hsfree⟩
  · rcases List.mem_append.mp ht with ht' | ht'
    · rw [hw.outside t ?_]
      · exact h.inside t ht'
      · have hne : t ≠ s := fun hc => hsnew (hc ▸ ht')
        omega
    · rw [List.mem_singleton.mp ht']
      simpa using hw.inside 0 Nat.one_pos
  · have hne := hx s (List.mem_append_right _ (List.mem_singleton_self s))
    rw [hw.outside x (by omega)]
    exact h.outside x fun t ht => hx t (List.mem_append_left _ ht)

/-- A block that is given back leaves the list. -/
lemma kfree (hheap : KernelTable heap) (h : Marked heap heap' (L₁ ++ s :: L₂)) :
    Marked heap (SerpaeOS.kfree heap' (blockAddress s)) (L₁ ++ L₂) := by
  have hmem : s ∈ L₁ ++ s :: L₂ := List.mem_append_right _ List.mem_cons_self
  have hslt := h.lt_kernelBlocks hheap hmem
  have hrest : ∀ t ∈ L₁ ++ L₂, t ∈ L₁ ++ s :: L₂ ∧ t ≠ s := by
    intro t ht
    refine ⟨?_, ?_⟩
    · rw [List.mem_append, List.mem_cons]
      rcases List.mem_append.mp ht with ht | ht
      · exact Or.inl ht
      · exact Or.inr (Or.inr ht)
    · rintro rfl
      exact (List.nodup_middle.mp h.nodup).notMem ht
  have hw : Written heap'.table (SerpaeOS.kfree heap' (blockAddress s)).table s 1
      fun _ => entryFree := by
    rw [SerpaeOS.kfree, heapFree, heapMarkBlocksFree,
      addressToBlock_eq (h.saddr_eq.trans hheap.saddr_eq) hslt]
    have htotal := h.total_eq.trans hheap.total_eq
    refine markFreeLoop_written 1 _ 0 s _ rfl Nat.one_pos (by omega) fun l hl => ?_
    obtain rfl : l = 0 := by omega
    simpa using h.inside s hmem
  refine ⟨h.saddr_eq, hw.total_eq.trans h.total_eq, (List.nodup_middle.mp h.nodup).of_cons,
    fun t ht => h.free t (hrest t ht).1, fun t ht => ?_, fun x hx => ?_⟩
  · obtain ⟨hmem', hne⟩ := hrest t ht
    rw [hw.outside t (by omega)]
    exact h.inside t hmem'
  · by_cases hxs : x = (s : ℕ)
    · -- the free entry is the one that was there before
      obtain ⟨hlt, hfree⟩ := mem_freeBlocks.mp (h.free s hmem)
      have hentry := hw.inside 0 Nat.one_pos
      rw [Nat.cast_zero, add_zero] at hentry
      rw [hxs, hentry, hheap.clean s hlt hfree]
    · rw [hw.outside x (by omega)]
      refine h.outside x fun t ht => ?_
      by_cases hts : t = s
      · rwa [hts]
      · refine hx t ?_
        rw [List.mem_append, List.mem_cons] at ht
        rw [List.mem_append]
        tauto

end Marked

end SerpaeOS
