import SerpaeOS.Heap.Spec
import SerpaeOS.Lib.StepRun
import Mathlib.Tactic.IntervalCases

/-!
# Runs of the kernel heap

A client calls `heap_malloc` and `heap_free` in any order.  The state of such a run is
the heap and the list of live allocations: the non-null results of `heap_malloc` that
have not been freed, with the size asked for.
-/

namespace SerpaeOS

open BlockTable Word StepRun

/-- The heap and the allocations a client holds, as address and size. -/
structure HeapRun where
  heap : Heap
  live : List (Ptr × ℕ)

/-- A call of the client. -/
inductive HeapOp
  | malloc (size : ℕ)
  | free (ptr : Ptr)

def heapStep (r : HeapRun) : HeapOp → Option HeapRun
  | .malloc size =>
    let (heap, ptr) := heapMalloc r.heap size
    some ⟨heap, if ptr ≠ 0 then (ptr, size) :: r.live else r.live⟩
  | .free ptr => some ⟨heapFree r.heap ptr, r.live.eraseP (·.1 == ptr)⟩

/-- Sizes are between one byte and the whole heap; only live pointers are freed. -/
def HeapLegal (r : HeapRun) : HeapOp → Prop
  | .malloc size => 1 ≤ size ∧ size ≤ r.heap.table.total * heapBlockSize
  | .free ptr => ∃ size, (ptr, size) ∈ r.live

/-- The block range of an allocation. -/
def Heap.extent (heap : Heap) (a : Ptr × ℕ) : Extent :=
  ⟨heap.offset a.1 / heapBlockSize, blocksFor a.2⟩

/-- The ranges of the live allocations are disjoint and inside the table, nothing was
written outside the table, and the taken entries are those of the live ranges. -/
structure HeapSafe (r : HeapRun) : Prop where
  packed : Extent.Packed r.heap.table.total (r.live.map r.heap.extent)
  written : ∀ x ∈ r.heap.table.written, 0 ≤ x ∧ x < r.heap.table.total
  taken_iff : ∀ i < r.heap.table.total,
    heapGetEntryType (r.heap.table.entries i) = entryTaken ↔
      Extent.Covered (r.live.map r.heap.extent) i

/-- The call stays clear of the ends of the table and of the address range.  For
`heap_malloc`: there is a long enough run of free blocks and the first one does not lie at
address zero, or there is none and the last block is taken.  For `heap_free`: the pointer
is less than `2 ^ 31` bytes above the start of the heap. -/
def HeapClear (r : HeapRun) : HeapOp → Prop
  | .malloc size =>
    (∃ s, Extent.FirstFit (EntryFree r.heap.table.entries) r.heap.table.total
        ⟨s, blocksFor size⟩ ∧ heapBlockToAddress r.heap s ≠ 0) ∨
      ¬ Extent.HasRun (EntryFree r.heap.table.entries) r.heap.table.total (blocksFor size) ∧
        ∀ j, j + 1 = r.heap.table.total → ¬ EntryFree r.heap.table.entries j
  | .free ptr => r.heap.offset ptr < 2 ^ 31

/-- The invariant of a run: the table records exactly the live ranges, and every live
pointer is the address of its first block. -/
structure HeapInv (r : HeapRun) : Prop where
  records : r.heap.Records (r.live.map r.heap.extent)
  size_pos : ∀ a ∈ r.live, 1 ≤ a.2
  address : ∀ a ∈ r.live, r.heap.offset a.1 % heapBlockSize = 0

lemma HeapInv.safe {r : HeapRun} (h : HeapInv r) : HeapSafe r :=
  ⟨h.records.encodes.packed, h.records.written, fun _ hi => h.records.taken_iff hi⟩

lemma heapInv_create {ptr endPtr total : ℕ} {entries : ℤ → Entry} {heap : Heap}
    (h : heapCreate ptr endPtr ⟨entries, total, []⟩ = .ok heap) : HeapInv ⟨heap, []⟩ :=
  ⟨heapCreate_records h, by simp, by simp⟩

lemma Heap.SameFrame.extent_eq {heap heap' : Heap} (h : heap.SameFrame heap') :
    heap'.extent = heap.extent := by
  funext a
  simp only [Heap.extent, Heap.offset, h.saddr_eq]

/-- A size up to the heap size is rounded up without overflow. -/
lemma HeapInv.malloc_eq {r : HeapRun} (h : HeapInv r) {size : ℕ}
    (hsize : size ≤ r.heap.table.total * heapBlockSize) :
    heapMalloc r.heap size = heapMallocBlocks r.heap (blocksFor size) := by
  have := h.records.total_lt
  refine heapMalloc_eq _ ?_
  simp only [heapBlockSize] at *
  omega

/-! ## What one call does -/

lemma HeapInv.malloc {r : HeapRun} (h : HeapInv r) {size : ℕ} (hl : HeapLegal r (.malloc size))
    (hc : HeapClear r (.malloc size)) :
    ∃ r', heapStep r (.malloc size) = some r' ∧ HeapInv r' := by
  rw [heapStep, h.malloc_eq hl.2]
  rcases hc with ⟨s, hfit, hne⟩ | ⟨hno, hlast⟩
  · -- the first run of free blocks is recorded
    obtain ⟨heap', heq, hrec, hf⟩ := h.records.mallocBlocks (blocksFor_pos hl.1) hfit
    have hs : s < 2 ^ 20 := by
      have := hfit.inside
      have := h.records.total_lt
      have := blocksFor_pos hl.1
      simp only at *
      omega
    have hoff := r.heap.offset_blockToAddress hs
    have hoff' : ∀ p, heap'.offset p = r.heap.offset p := by
      intro p
      rw [Heap.offset, hf.saddr_eq, Heap.offset]
    rw [heq]
    refine ⟨_, rfl, ?_⟩
    simp only [if_pos hne]
    refine ⟨?_, ?_, ?_⟩
    · have hext : r.heap.extent (heapBlockToAddress r.heap s, size) = ⟨s, blocksFor size⟩ := by
        rw [Heap.extent, hoff, Nat.mul_div_cancel _ (by decide)]
      rw [hf.extent_eq, List.map_cons, hext]
      exact hrec
    · intro a ha
      rcases List.mem_cons.mp ha with rfl | ha
      · exact hl.1
      · exact h.size_pos a ha
    · intro a ha
      rw [hoff']
      rcases List.mem_cons.mp ha with rfl | ha
      · rw [hoff]
        exact Nat.mul_mod_left _ _
      · exact h.address a ha
  · -- no memory
    rw [heapMallocBlocks_full (fun _ => hno) hlast]
    exact ⟨_, rfl, by simpa using h⟩

lemma HeapInv.free {r : HeapRun} (h : HeapInv r) {ptr : Ptr} (hl : HeapLegal r (.free ptr))
    (hc : HeapClear r (.free ptr)) :
    ∃ r', heapStep r (.free ptr) = some r' ∧ HeapInv r' := by
  refine ⟨_, rfl, ?_⟩
  obtain ⟨size, hmem⟩ := hl
  obtain ⟨a, l₁, l₂, -, ha, hlive, herase⟩ :=
    List.exists_of_eraseP (p := fun a : Ptr × ℕ => a.1 == ptr) hmem (by simp)
  obtain rfl : a.1 = ptr := by simpa using ha
  have hrec := h.records
  rw [hlive, List.map_append, List.map_cons] at hrec
  have hblock : heapAddressToBlock r.heap a.1 = (r.heap.extent a).start :=
    heapAddressToBlock_of_lt hc
  have hal : a ∈ r.live := by simp [hlive]
  obtain ⟨hrec', hf⟩ := hrec.free (blocksFor_pos (h.size_pos a hal)) hblock
  have hsub : ∀ b ∈ l₁ ++ l₂, b ∈ r.live := by
    intro b hb
    rw [hlive]
    rcases List.mem_append.mp hb with hb | hb
    · simp [hb]
    · simp [hb]
  rw [herase]
  refine ⟨?_, fun b hb => h.size_pos b (hsub b hb), fun b hb => ?_⟩
  · rw [hf.extent_eq, List.map_append]
    exact hrec'
  · rw [Heap.offset, hf.saddr_eq]
    exact h.address b (hsub b hb)

lemma HeapInv.step {r : HeapRun} (h : HeapInv r) {op : HeapOp} (hl : HeapLegal r op)
    (hc : HeapClear r op) : ∃ r', heapStep r op = some r' ∧ HeapInv r' := by
  cases op with
  | malloc size => exact h.malloc hl hc
  | free ptr => exact h.free hl hc

/-- An allocation of blocks at address zero counts as failed but leaves them taken; one
that finds only a short run at the end of the table writes beyond it. -/
lemma HeapInv.not_malloc {r r' : HeapRun} (h : HeapInv r) {size : ℕ}
    (hl : HeapLegal r (.malloc size)) (hc : ¬ HeapClear r (.malloc size))
    (hstep : heapStep r (.malloc size) = some r') : ¬ HeapSafe r' := by
  have hpos := blocksFor_pos hl.1
  rw [heapStep, h.malloc_eq hl.2] at hstep
  intro hsafe
  have hres := heapGetStartBlock_result r.heap (blocksFor size)
  generalize hr : heapGetStartBlock r.heap (blocksFor size) = res at hres
  cases hres with
  | @found s hn hfit =>
    have hzero : heapBlockToAddress r.heap s = 0 := by
      by_contra hne
      exact hc (Or.inl ⟨s, hfit, hne⟩)
    obtain ⟨heap', heq, hrec, hf⟩ := h.records.mallocBlocks hn hfit
    rw [heq, hzero] at hstep
    obtain rfl := Option.some.inj hstep
    have hin := hfit.inside
    simp only at hin
    have htaken : heapGetEntryType (heap'.table.entries s) = entryTaken := by
      refine (hrec.taken_iff (by rw [hf.total_eq]; omega)).mpr ⟨_, List.mem_cons_self .., ?_⟩
      exact ⟨by simp, by simp; omega⟩
    have hcov := (hsafe.taken_iff s (by rw [hf.total_eq]; omega)).mp htaken
    rw [if_neg (by simp), hf.extent_eq] at hcov
    refine (h.records.entryFree_iff (by omega)).mp (hfit.all s ?_) hcov
    exact ⟨by simp, by simp; omega⟩
  | full hno hlast => exact hc (Or.inr ⟨hno hpos, hlast⟩)
  | @short b hno hb htail =>
    rw [heapMallocBlocks, hr] at hstep
    obtain rfl := Option.some.inj hstep
    have hw := heapMarkBlocksTaken_written r.heap b (blocksFor size)
    have hbeyond : r.heap.table.total < b + blocksFor size := by
      by_contra hle
      refine hno hpos ⟨b, by omega, fun i hi => htail i ⟨hi.1, ?_⟩⟩
      have := hi.2
      simp only at this ⊢
      omega
    have hmem := (hw.mem_written r.heap.table.total).mpr (Or.inr (by omega))
    have := hsafe.written _ hmem
    rw [hw.total_eq] at this
    omega

/-- A pointer in the upper half of the address range is freed below the table. -/
lemma HeapInv.not_free {r r' : HeapRun} (h : HeapInv r) {ptr : Ptr}
    (hl : HeapLegal r (.free ptr)) (hc : ¬ HeapClear r (.free ptr))
    (hstep : heapStep r (.free ptr) = some r') : ¬ HeapSafe r' := by
  obtain rfl := Option.some.inj hstep
  intro hsafe
  obtain ⟨size, hmem⟩ := hl
  have haddr := h.address _ hmem
  have hlt := u32_lt (ptr - r.heap.saddr)
  have hneg : heapAddressToBlock r.heap ptr < 0 := by
    refine heapAddressToBlock_of_ge (by simpa [HeapClear] using hc) ?_
    simp only [Heap.offset, heapBlockSize] at *
    omega
  have := hsafe.written _ (mem_written_heapFree hneg)
  omega

lemma HeapInv.not_step {r r' : HeapRun} (h : HeapInv r) {op : HeapOp} (hl : HeapLegal r op)
    (hc : ¬ HeapClear r op) (hstep : heapStep r op = some r') : ¬ HeapSafe r' := by
  cases op with
  | malloc size => exact h.not_malloc hl hc hstep
  | free ptr => exact h.not_free hl hc hstep

/-! ## Runs -/

/-- **The heap along a run.**  From a heap set up by `heap_create`, for every sequence of
allocations of one byte up to the heap size and frees of live pointers, every state is
safe if and only if every call stays clear of the ends of the table and of the address
range. -/
theorem heapRun_safe_iff {ptr endPtr total : ℕ} {entries : ℤ → Entry} {heap : Heap}
    (hcreate : heapCreate ptr endPtr ⟨entries, total, []⟩ = .ok heap) (ops : List HeapOp)
    (hlegal : Guarded heapStep HeapLegal ⟨heap, []⟩ ops) :
    Always heapStep HeapSafe ⟨heap, []⟩ ops ↔ Guarded heapStep HeapClear ⟨heap, []⟩ ops :=
  always_iff_guarded (fun _ h => h.safe) (fun _ _ h hl hc => h.step hl hc)
    (fun _ _ _ h hl hc hstep => h.not_step hl hc hstep) (heapInv_create hcreate) hlegal

/-- A heap of two blocks: both are allocated at once, a further request fails because the
table is full, and the allocation is freed again. -/
theorem heapRun_safe_iff_two_blocks :
    ∃ heap, heapCreate 0x1000000 0x1002000 ⟨fun _ => 0xff, 2, []⟩ = .ok heap ∧
      Always heapStep HeapSafe ⟨heap, []⟩ [.malloc 5000, .malloc 1, .free 0x1000000] := by
  have hcreate : heapCreate 0x1000000 0x1002000 ⟨fun _ => 0xff, 2, []⟩ = .ok _ := rfl
  refine ⟨_, hcreate, (heapRun_safe_iff hcreate _ ?_).mpr ?_⟩
  · refine ⟨⟨by decide, by decide⟩, fun r₁ h₁ => ?_⟩
    obtain rfl := Option.some.inj h₁
    refine ⟨⟨by decide, by decide⟩, fun r₂ h₂ => ?_⟩
    obtain rfl := Option.some.inj h₂
    exact ⟨⟨5000, by decide⟩, fun _ _ => trivial⟩
  · refine ⟨Or.inl ⟨0, ⟨by decide, fun i hi => ?_, fun s hs => by simp at hs⟩, by decide⟩,
      fun r₁ h₁ => ?_⟩
    · have hi2 : i < 2 := hi.2
      interval_cases i <;> decide
    · obtain rfl := Option.some.inj h₁
      refine ⟨Or.inr ⟨?_, fun j hj => ?_⟩, fun r₂ h₂ => ?_⟩
      · rintro ⟨s, hs, hall⟩
        have hs2 : s < 2 := hs
        refine absurd (hall s ⟨le_refl _, Nat.lt_succ_self _⟩) ?_
        interval_cases s <;> decide
      · obtain rfl : j = 1 := Nat.succ.inj hj
        decide
      · obtain rfl := Option.some.inj h₂
        exact ⟨by simp only [HeapClear]; decide, fun _ _ => trivial⟩

/-- A heap of two blocks with one of them allocated: a request for two blocks is answered
with the last block, and the entry after the table is written. -/
theorem not_heapRun_safe_short_tail :
    ∃ heap, heapCreate 0x1000000 0x1002000 ⟨fun _ => 0xff, 2, []⟩ = .ok heap ∧
      Guarded heapStep HeapLegal ⟨heap, []⟩ [.malloc 4096, .malloc 8192] ∧
      ¬ Always heapStep HeapSafe ⟨heap, []⟩ [.malloc 4096, .malloc 8192] := by
  refine ⟨_, rfl, ⟨⟨by decide, by decide⟩, fun r₁ h₁ => ?_⟩, ?_⟩
  · obtain rfl := Option.some.inj h₁
    exact ⟨⟨by decide, by decide⟩, fun _ _ => trivial⟩
  · rintro ⟨-, r₁, h₁, -, r₂, h₂, hsafe⟩
    obtain rfl := Option.some.inj h₁
    obtain rfl := Option.some.inj h₂
    exact absurd (hsafe.written 2 (by decide)) (by decide)

end SerpaeOS
