import SerpaeOS.Heap.Ledger

/-!
# Guards

A guard is a property of the heap that `kzalloc` keeps, with the addresses at which `kfree` keeps
it.  Code that frees only what it has taken itself, `NULL` and error codes keeps every guard.
Unlike an account of the allocations this asks nothing of the rest of the heap: requests may fail,
and other allocations may be freed twice.
-/

namespace SerpaeOS

open BlockTable Word Prog

/-- The number of blocks that `kzalloc` looks for. -/
def requestBlocks (size : ℕ) : ℕ := heapAlignValueToUpper size / heapBlockSize

/-- What a request for `n` blocks does: nothing, or it marks blocks from a free one on as taken;
those inside the table were free. -/
inductive Requested (m : KMemory) (n : ℕ) : Ptr → KMemory → Prop
  | full {m' : KMemory} (heap_eq : m'.heap = m.heap) : Requested m n 0 m'
  | marked {m' : KMemory} {s : ℕ} (lt : s < kernelBlocks)
      (free : ∀ i, s ≤ i → i < s + max n 1 → i < kernelBlocks →
        EntryFree m.heap.table.entries i)
      (saddr_eq : m'.heap.saddr = m.heap.saddr)
      (written : Written m.heap.table m'.heap.table s n (blockCode n)) :
      Requested m n (blockAddress s) m'

variable {m m' : KMemory} {p : Ptr} {n size : ℕ}

lemma ends_allocate (hsaddr : m.heap.saddr = heapAddress)
    (htotal : m.heap.table.total = kernelBlocks) (size : ℕ) :
    Ends (allocate size) m (Requested m (requestBlocks size)) := by
  intro p m' hrun
  cases hrun
  rw [kzalloc, kmalloc, heapMalloc, ← requestBlocks]
  generalize requestBlocks size = n
  have hres := heapGetStartBlock_result m.heap n
  rw [heapMallocBlocks]
  generalize heapGetStartBlock m.heap n = r at hres
  cases hres with
  | @found s hn hfit =>
    have hin := hfit.inside
    simp only [htotal] at hin
    have hs : s < kernelBlocks := by omega
    simp only [blockToAddress_eq hsaddr hs]
    refine .marked hs (fun i hi hi' _ => hfit.all i ⟨hi, ?_⟩) rfl
      (heapMarkBlocksTaken_written m.heap s n)
    simp only
    omega
  | full => exact .full rfl
  | @short s _ hs htail =>
    rw [htotal] at hs htail
    simp only [blockToAddress_eq hsaddr hs]
    refine .marked hs (fun i hi _ hlt => htail i ⟨hi, ?_⟩) rfl
      (heapMarkBlocksTaken_written m.heap s n)
    simp only
    omega

/-- A walk of `kfree` leaves an entry as it is, or marks it as free. -/
lemma markFreeLoop_entry (k : ℕ) : ∀ (i x : ℤ) (t : HeapTable),
    (markFreeLoop k i t).entries x = t.entries x ∨ (markFreeLoop k i t).entries x = entryFree := by
  induction k with
  | zero => exact fun _ _ _ => Or.inl rfl
  | succ k ih =>
    intro i x t
    have hset : (t.set i entryFree).entries x = t.entries x ∨
        (t.set i entryFree).entries x = entryFree := by
      by_cases hx : x = i
      · subst hx
        exact Or.inr (Function.update_self _ _ _)
      · exact Or.inl (Function.update_of_ne hx _ _)
    rw [markFreeLoop]
    split
    · exact hset
    · rcases ih (i + 1) x (t.set i entryFree) with h | h
      · rw [h]
        exact hset
      · exact Or.inr h

/-- So `kfree` does not give a block a successor. -/
lemma kfree_hasNext {heap : Heap} {x : ℤ} (h : heap.table.entries x &&& blockHasNext = 0) :
    (kfree heap p).table.entries x &&& blockHasNext = 0 := by
  rcases markFreeLoop_entry (heap.table.total - heapAddressToBlock heap p).toNat
    (heapAddressToBlock heap p) x heap.table with heq | heq
  · exact (congrArg (· &&& blockHasNext) heq).trans h
  · exact (congrArg (· &&& blockHasNext) heq).trans (by decide)

lemma kfree_total (heap : Heap) (p : Ptr) : (kfree heap p).table.total = heap.table.total :=
  total_markFreeLoop _ _ _

/-! ## Guards -/

structure Guard where
  holds : KMemory → Prop
  clear : Ptr → Prop
  allocate : ∀ size, Gives holds (SerpaeOS.allocate size) clear
  release : ∀ {p}, clear p → Gives holds (SerpaeOS.release p) fun _ => True
  code : ∀ {p}, IsCode p → clear p

/-- In the table of the kernel heap free blocks have no successor, and the walk of `kfree` of an
error code ends in front of the table. -/
structure HeapPlain (m : KMemory) : Prop where
  saddr_eq : m.heap.saddr = heapAddress
  total_eq : m.heap.table.total = kernelBlocks
  last : ∀ i : ℕ, i < kernelBlocks → EntryFree m.heap.table.entries i →
    m.heap.table.entries i &&& blockHasNext = 0
  stops : StopsBefore m.heap.table.entries

/-- A heap that records its allocations is plain. -/
lemma KernelHeap.heapPlain {L : List Extent} (h : KernelHeap m.heap L)
    (hstops : StopsBefore m.heap.table.entries) : HeapPlain m := by
  have htotal := h.total_eq
  refine ⟨h.saddr_eq, htotal, fun i hi hfree => ?_, hstops⟩
  have hcov := (h.records.entryFree_iff (by omega)).mp hfree
  have hcode : m.heap.table.entries i = _ := h.records.encodes.free_eq i (by omega) hcov
  rw [hcode]
  rfl

lemma HeapPlain.allocate (h : HeapPlain m) (size : ℕ) :
    Ends (SerpaeOS.allocate size) m fun _ m' => HeapPlain m' := by
  intro p m' hrun
  cases ends_allocate h.saddr_eq h.total_eq size p m' hrun with
  | full heap_eq => exact ⟨heap_eq ▸ h.saddr_eq, heap_eq ▸ h.total_eq, heap_eq ▸ h.last,
      heap_eq ▸ h.stops⟩
  | @marked _ s _ _ hsaddr hw =>
    generalize requestBlocks size = n at hw
    refine ⟨hsaddr.trans h.saddr_eq, hw.total_eq.trans h.total_eq, fun i hi hfree => ?_, ?_⟩
    · by_cases hin : s ≤ i ∧ i < s + n
      · have hcode := hw.inside (i - s) (by omega)
        rw [show (s : ℤ) + (i - s : ℕ) = i by omega] at hcode
        rw [EntryFree, hcode, heapGetEntryType_blockCode] at hfree
        exact absurd hfree (by decide)
      · have hsame := hw.outside i (by omega)
        rw [EntryFree, hsame] at hfree
        rw [hsame]
        exact h.last i hi hfree
    · obtain ⟨j, hj, hentry⟩ := h.stops
      refine ⟨j, hj, ?_⟩
      rw [hw.outside _ (Or.inl (by simp only [nullBlock]; omega))]
      exact hentry

lemma HeapPlain.release (h : HeapPlain m) (p : Ptr) :
    Ends (SerpaeOS.release p) m fun _ m' => HeapPlain m' := by
  intro _ m' hrun
  cases hrun
  refine ⟨h.saddr_eq, (kfree_total _ _).trans h.total_eq, fun i hi hfree => ?_, ?_⟩
  · rcases markFreeLoop_entry (m.heap.table.total - heapAddressToBlock m.heap p).toNat
      (heapAddressToBlock m.heap p) i m.heap.table with heq | heq
    · refine kfree_hasNext (h.last i hi ?_)
      rw [EntryFree, ← heq]
      exact hfree
    · exact (congrArg (· &&& blockHasNext) heq).trans (by decide)
  · obtain ⟨j, hj, hentry⟩ := h.stops
    exact ⟨j, hj, kfree_hasNext hentry⟩

/-- Whatever is freed. -/
def plainGuard : Guard where
  holds := HeapPlain
  clear _ := True
  allocate size := fun _ h => (h.allocate size).mono fun _ _ h' => ⟨h', trivial⟩
  release := fun _ _ h => (h.release _).mono fun _ _ h' => ⟨h', trivial⟩
  code _ := trivial

end SerpaeOS
