import SerpaeOS.Heap.Guard

/-!
# Blocks that stay taken

Blocks that are taken and that no allocation runs into stay taken as long as `kfree` is not
called with an address in them.
-/

namespace SerpaeOS

open BlockTable Word Prog

/-- A block marked as having a successor is followed by one that is not free. -/
structure NextTaken (heap : Heap) : Prop where
  saddr_eq : heap.saddr = heapAddress
  total_eq : heap.table.total = kernelBlocks
  next : ∀ i : ℕ, i < kernelBlocks → EntryFree heap.table.entries i →
    heap.table.entries (i - 1) &&& blockHasNext = 0

/-- The blocks of the extent are taken. -/
structure Taken (a : Extent) (m : KMemory) : Prop where
  saddr_eq : m.heap.saddr = heapAddress
  total_eq : m.heap.table.total = kernelBlocks
  pos : 0 < a.len
  inside : a.start + a.len ≤ kernelBlocks
  taken : ∀ i, a.Covers i → ¬ EntryFree m.heap.table.entries i

/-- Moreover the first one does not belong to the same allocation as the one in front of it. -/
structure Pinned (a : Extent) (m : KMemory) : Prop extends Taken a m where
  first : m.heap.table.entries (a.start - 1) &&& blockHasNext = 0

/-- The index in the table that `kfree` computes for an address. -/
def blockIndex (p : Ptr) : ℤ := (i32 (p - heapAddress)).tdiv heapBlockSize

/-- The address does not lie in the extent. -/
def Clear (a : Extent) (p : Ptr) : Prop :=
  blockIndex p < a.start ∨ (a.start + a.len : ℕ) ≤ blockIndex p

instance (a : Extent) (p : Ptr) : Decidable (Clear a p) := inferInstanceAs (Decidable (_ ∨ _))

variable {a : Extent} {b : ℕ} {m m' : KMemory} {p : Ptr} {size : ℕ}

lemma heapAddressToBlock_eq {heap : Heap} (hsaddr : heap.saddr = heapAddress) (p : Ptr) :
    heapAddressToBlock heap p = blockIndex p := by
  rw [heapAddressToBlock, hsaddr, blockIndex]

lemma blockIndex_blockAddress {s : ℕ} (hs : s < kernelBlocks) :
    blockIndex (blockAddress s) = s := by
  rw [← @heapAddressToBlock_eq bootHeap rfl]
  exact addressToBlock_eq rfl hs

lemma IsCode.blockIndex_eq (h : IsCode p) : blockIndex p = nullBlock := by
  rw [← @heapAddressToBlock_eq bootHeap rfl]
  exact h.addressToBlock rfl

/-- `NULL` and error codes are not addresses in an extent. -/
lemma IsCode.clear (h : IsCode p) : Clear a p := by
  rw [Clear, h.blockIndex_eq, nullBlock]
  omega

/-! ## Taking blocks -/

/-- Taken blocks are not among those that a request marks. -/
lemma Taken.apart {s n : ℕ} (h : Taken a m)
    (hfree : ∀ i, s ≤ i → i < s + n → i < kernelBlocks → EntryFree m.heap.table.entries i) :
    Extent.Apart ⟨s, n⟩ a := by
  rintro i ⟨⟨hle, hlt⟩, hcov⟩
  have hin := h.inside
  exact h.taken i hcov (hfree i hle hlt (by have := hcov.2; omega))

/-- Extents without a common block lie behind each other. -/
lemma apart_iff {s n : ℕ} (ha : 0 < a.len) (hn : 0 < n) :
    Extent.Apart ⟨s, n⟩ a ↔ s + n ≤ a.start ∨ a.start + a.len ≤ s := by
  constructor
  · intro h
    by_contra hno
    refine h (max s a.start) ⟨⟨le_max_left _ _, ?_⟩, le_max_right _ _, ?_⟩
    · simp only
      omega
    · omega
  · rintro h i ⟨⟨hle, hlt⟩, hle', hlt'⟩
    simp only at hle hlt
    omega

/-- As long as only `kzalloc` is called taken blocks stay taken, and are not returned. -/
lemma Taken.allocate (h : Taken a m) :
    Ends (SerpaeOS.allocate size) m fun p m' => Taken a m' ∧ Clear a p := by
  intro p m' hrun
  cases ends_allocate h.saddr_eq h.total_eq size p m' hrun with
  | full heap_eq => exact ⟨⟨heap_eq ▸ h.saddr_eq, heap_eq ▸ h.total_eq, h.pos, h.inside,
      heap_eq ▸ h.taken⟩, isCode_null.clear⟩
  | @marked _ s hs hfree hsaddr hw =>
    generalize requestBlocks size = n at hfree hw
    have hout := (apart_iff h.pos (by omega)).mp (h.apart hfree)
    refine ⟨⟨hsaddr.trans h.saddr_eq, hw.total_eq.trans h.total_eq, h.pos, h.inside,
      fun i hi => ?_⟩, ?_⟩
    · have hsame := hw.outside i (by obtain ⟨hle, hlt⟩ := hi; omega)
      rw [EntryFree, hsame]
      exact h.taken i hi
    · rw [Clear, blockIndex_blockAddress hs]
      omega

/-- Neither does `kzalloc` enlarge the allocation in front of the extent. -/
lemma Pinned.allocate (h : Pinned a m) :
    Ends (SerpaeOS.allocate size) m fun p m' => Pinned a m' ∧ Clear a p := by
  intro p m' hrun
  obtain ⟨htaken, hclear⟩ := h.toTaken.allocate p m' hrun
  refine ⟨⟨htaken, ?_⟩, hclear⟩
  cases ends_allocate h.saddr_eq h.total_eq size p m' hrun with
  | full heap_eq => exact heap_eq ▸ h.first
  | @marked _ s hs hfree _ hw =>
    generalize requestBlocks size = n at hfree hw
    have hout := (apart_iff h.pos (by omega)).mp (h.apart hfree)
    by_cases hlast : s + n = a.start ∧ 0 < n
    · -- the entry in front of the extent is that of the last block taken
      obtain ⟨hb, hn⟩ := hlast
      have hcode := hw.inside (n - 1) (by omega)
      rw [show (s : ℤ) + (n - 1 : ℕ) = a.start - 1 by omega] at hcode
      rw [hcode, blockCode_hasNext_iff]
      omega
    · rw [hw.outside _ (by omega)]
      exact h.first

/-! ## Giving blocks back -/

/-- A walk that does not start in the extent does not come to it. -/
lemma Pinned.release (h : Pinned a m) (hp : Clear a p) :
    Ends (SerpaeOS.release p) m fun _ m' => Pinned a m' := by
  intro _ m' hrun
  cases hrun
  refine ⟨⟨h.saddr_eq, (kfree_total _ _).trans h.total_eq, h.pos, h.inside, fun i hi => ?_⟩,
    kfree_hasNext h.first⟩
  have hindex : heapAddressToBlock m.heap p = blockIndex p := heapAddressToBlock_eq h.saddr_eq p
  have hsame : (kfree m.heap p).table.entries i = m.heap.table.entries i := by
    obtain ⟨hle, hlt⟩ := hi
    rw [kfree, heapFree, heapMarkBlocksFree, hindex]
    rcases hp with hp | hp
    · obtain ⟨j, hj⟩ := Int.eq_ofNat_of_zero_le
        (by omega : 0 ≤ (a.start : ℤ) - 1 - blockIndex p)
      refine markFreeLoop_above j ?_ (by omega)
      rw [show blockIndex p + (j : ℕ) = a.start - 1 by omega]
      exact h.first
    · exact markFreeLoop_below _ (by omega)
  rw [EntryFree, hsame]
  exact h.taken i hi

/-- Nothing in the extent is freed. -/
def pinnedGuard (a : Extent) : Guard where
  holds := Pinned a
  clear := Clear a
  allocate _ := fun _ h => h.allocate
  release hp := fun _ h => (h.release hp).mono fun _ _ h' => ⟨h', trivial⟩
  code := IsCode.clear

/-- The allocations that a heap records are pinned, except for one at its start. -/
lemma KernelHeap.pinned {L : List Extent} (h : KernelHeap m.heap L) (ha : a ∈ L)
    (hlen : 0 < a.len) (hstart : 0 < a.start) : Pinned a m := by
  have htotal := h.total_eq
  have hpacked := h.records.encodes.packed
  have hinside := hpacked.inside a ha
  refine ⟨⟨h.saddr_eq, htotal, hlen, by omega, fun i hi hfree => ?_⟩, ?_⟩
  · have hlt := hi.2
    exact (h.records.entryFree_iff (by omega)).mp hfree ⟨a, ha, hi⟩
  · have hcast : (a.start : ℤ) - 1 = (a.start - 1 : ℕ) := by omega
    rw [hcast]
    by_cases hfront : Extent.Covered L (a.start - 1)
    · obtain ⟨b, hb, hbi⟩ := hfront
      have hcode : m.heap.table.entries (a.start - 1 : ℕ) = _ :=
        h.records.encodes.code_of_covers hb hbi
      obtain ⟨hle, hlt⟩ := hbi
      rw [hcode, blockCode_hasNext_iff]
      -- a longer extent would cover the first block as well
      by_contra hlong
      have hsame := hpacked.eq_of_covers ha hb (i := a.start) ⟨le_rfl, by omega⟩
        ⟨by omega, by omega⟩
      rw [hsame] at hle hstart
      omega
    · have hcode : m.heap.table.entries (a.start - 1 : ℕ) = _ :=
        h.records.encodes.free_eq _ (by omega) hfront
      rw [hcode]
      rfl

/-! ## New allocations -/

/-- One block. -/
def Block (b : ℕ) : Extent := ⟨b, 1⟩

/-- The block is taken. -/
abbrev TakenBlock (b : ℕ) (m : KMemory) : Prop := Taken (Block b) m

lemma TakenBlock.not_free (h : TakenBlock b m) : ¬ EntryFree m.heap.table.entries b :=
  h.taken b ⟨le_rfl, Nat.lt_succ_self b⟩

lemma TakenBlock.lt (h : TakenBlock b m) : b < kernelBlocks := h.inside

lemma takenBlock_of (hsaddr : m.heap.saddr = heapAddress)
    (htotal : m.heap.table.total = kernelBlocks) (hlt : b < kernelBlocks)
    (h : ¬ EntryFree m.heap.table.entries b) : TakenBlock b m := by
  refine ⟨hsaddr, htotal, Nat.one_pos, hlt, fun i hi => ?_⟩
  obtain rfl : i = b := by
    obtain ⟨hle, hlt⟩ := hi
    simp only [Block] at hle hlt
    omega
  exact h

lemma covers_block {i : ℕ} : (Block b).Covers i ↔ i = b := by
  rw [Block, Extent.Covers]
  simp only
  omega

lemma clear_blockAddress {s : ℕ} (hs : s < kernelBlocks) :
    Clear (Block b) (blockAddress s) ↔ s ≠ b := by
  rw [Clear, blockIndex_blockAddress hs, Block]
  simp only
  omega

/-- The first block of a new allocation was free, and is pinned from then on. -/
lemma NextTaken.allocate (h : NextTaken m.heap) (hpos : 0 < requestBlocks size)
    (hrun : SerpaeOS.allocate size m = some (p, m')) (hp : p ≠ 0) :
    ∃ b, p = blockAddress b ∧ EntryFree m.heap.table.entries b ∧ Pinned (Block b) m' := by
  cases ends_allocate h.saddr_eq h.total_eq size p m' hrun with
  | full => exact absurd rfl hp
  | @marked _ s hs hfree hsaddr hw =>
    generalize requestBlocks size = n at hpos hfree hw
    have hs' := hfree s le_rfl (by omega) hs
    have hcode := hw.inside 0 hpos
    rw [Nat.cast_zero, add_zero] at hcode
    refine ⟨s, rfl, hs', ⟨hsaddr.trans h.saddr_eq, hw.total_eq.trans h.total_eq, Nat.one_pos, hs,
      fun i hi => ?_⟩, ?_⟩
    · rw [covers_block.mp hi, EntryFree, hcode, heapGetEntryType_blockCode]
      decide
    · simp only [Block]
      rw [hw.outside _ (by omega)]
      exact h.next s hs hs'

/-- What `kzalloc` returns is `NULL` or the first block of the new allocation. -/
lemma Taken.allocate_new (h : Taken a m) (hpos : 0 < requestBlocks size) :
    Ends (SerpaeOS.allocate size) m fun p m' => p ≠ 0 →
      ∃ c, p = blockAddress c ∧ EntryFree m.heap.table.entries c ∧ Taken (Block c) m' := by
  intro p m' hrun hp
  cases ends_allocate h.saddr_eq h.total_eq size p m' hrun with
  | full => exact absurd rfl hp
  | @marked _ s hs hfree hsaddr hw =>
    generalize requestBlocks size = n at hpos hfree hw
    have hcode := hw.inside 0 hpos
    rw [Nat.cast_zero, add_zero] at hcode
    refine ⟨s, rfl, hfree s le_rfl (by omega) hs, hsaddr.trans h.saddr_eq,
      hw.total_eq.trans h.total_eq, Nat.one_pos, hs, fun i hi => ?_⟩
    rw [covers_block.mp hi, EntryFree, hcode, heapGetEntryType_blockCode]
    decide

/-- `kzalloc` keeps the heap sound. -/
lemma NextTaken.keeps (h : NextTaken m.heap) :
    Ends (SerpaeOS.allocate size) m fun _ m' => NextTaken m'.heap := by
  intro p m' hrun
  cases ends_allocate h.saddr_eq h.total_eq size p m' hrun with
  | full heap_eq => exact heap_eq ▸ h
  | @marked _ s hs hfree hsaddr hw =>
    generalize requestBlocks size = n at hfree hw
    refine ⟨hsaddr.trans h.saddr_eq, hw.total_eq.trans h.total_eq, fun i hi hentry => ?_⟩
    have hout : i < s ∨ s + n ≤ i := by
      by_contra hin
      have hcode := hw.inside (i - s) (by omega)
      rw [show (s : ℤ) + (i - s : ℕ) = i by omega] at hcode
      rw [EntryFree, hcode, heapGetEntryType_blockCode] at hentry
      exact absurd hentry (by decide)
    have hold : EntryFree m.heap.table.entries i := by
      rwa [EntryFree, hw.outside i (by omega)] at hentry
    by_cases hlast : s + n = i ∧ 0 < n
    · -- the entry in front of the block is that of the last block taken
      have hcode := hw.inside (n - 1) (by omega)
      rw [show (s : ℤ) + (n - 1 : ℕ) = i - 1 by omega] at hcode
      rw [hcode, blockCode_hasNext_iff]
      omega
    · rw [hw.outside _ (by omega)]
      exact h.next i hi hold

end SerpaeOS
