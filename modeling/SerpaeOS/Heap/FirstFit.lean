import SerpaeOS.Heap.Kheap
import SerpaeOS.Heap.Run

/-!
# What an allocation takes

When there is a run of free blocks that is long enough, `heap_malloc` marks the first one, and
`heap_free` of the address puts the table back to what it was.  When there is none it may still
return an address: that of the free blocks at the end of the table.  A size that is rounded up
beyond the address range asks for no block at all, and is answered in the same way.
-/

namespace SerpaeOS

open BlockTable Word StepRun

/-! ## Allocating and freeing again -/

/-- The entries of the free type are those that `heap_create` and `heap_free` write. -/
def CleanTable (t : HeapTable) : Prop :=
  ∀ i : ℕ, i < t.total → EntryFree t.entries i → t.entries i = entryFree

lemma CleanTable.set_free {t : HeapTable} (h : CleanTable t) (i : ℤ) :
    CleanTable (t.set i entryFree) := by
  intro j hj hfree
  by_cases hji : (j : ℤ) = i
  · subst hji
    exact Function.update_self _ _ _
  · have heq : (t.set i entryFree).entries j = t.entries j := Function.update_of_ne hji _ _
    rw [EntryFree, heq] at hfree
    rw [heq]
    exact h j hj hfree

lemma CleanTable.markFreeLoop {k : ℕ} : ∀ {i : ℤ} {t : HeapTable}, CleanTable t →
    CleanTable (markFreeLoop k i t) := by
  induction k with
  | zero => exact fun h => h
  | succ k ih =>
    intro i t h
    rw [SerpaeOS.markFreeLoop]
    by_cases hlast : t.entries i &&& blockHasNext = 0
    · simp only [if_pos hlast]
      exact h.set_free i
    · simp only [if_neg hlast]
      exact ih (h.set_free i)

lemma CleanTable.markTaken {heap : Heap} (h : CleanTable heap.table) (s n : ℕ) :
    CleanTable (heapMarkBlocksTaken heap s n).table := by
  have hw := heapMarkBlocksTaken_written heap s n
  intro i hi hfree
  rw [hw.total_eq] at hi
  by_cases hin : s ≤ i ∧ i < s + n
  · -- a block of the allocation is not free
    have hcode := hw.inside (i - s) (by omega)
    rw [← Nat.cast_add, Nat.add_sub_cancel' hin.1] at hcode
    rw [EntryFree, hcode, heapGetEntryType_blockCode] at hfree
    exact absurd hfree (by decide)
  · have heq := hw.outside i (by omega)
    rw [EntryFree, heq] at hfree
    rw [heq]
    exact h i hi hfree

lemma cleanTable_create {ptr endPtr total : ℕ} {entries : ℤ → Entry} {heap : Heap}
    (h : heapCreate ptr endPtr ⟨entries, total, []⟩ = .ok heap) : CleanTable heap.table :=
  fun i hi _ => (heapCreate_records h).encodes.free_eq i hi (by simp [Extent.Covered])

/-- Whatever the calls of a client, the free entries stay clean. -/
lemma cleanTable_step {r : HeapRun} (h : CleanTable r.heap.table) (op : HeapOp) :
    ∃ r', heapStep r op = some r' ∧ CleanTable r'.heap.table := by
  cases op with
  | malloc size =>
    refine ⟨_, rfl, ?_⟩
    have hcases : ∀ n, CleanTable (heapMallocBlocks r.heap n).1.table := by
      intro n
      rw [heapMallocBlocks]
      cases heapGetStartBlock r.heap n with
      | none => exact h
      | some s => exact h.markTaken s n
    exact hcases _
  | free ptr => exact ⟨_, rfl, h.markFreeLoop⟩

lemma cleanTable_run {ptr endPtr total : ℕ} {entries : ℤ → Entry} {heap : Heap}
    (hcreate : heapCreate ptr endPtr ⟨entries, total, []⟩ = .ok heap) {ops : List HeapOp}
    {r : HeapRun} (hrun : ops.foldlM heapStep ⟨heap, []⟩ = some r) : CleanTable r.heap.table := by
  have halways : Always heapStep (fun r => CleanTable r.heap.table) ⟨heap, []⟩ ops :=
    always_of_guarded (L := fun _ _ => True) (C := fun _ _ => True) (fun _ h => h)
      (fun _ op h _ _ => cleanTable_step h op) (cleanTable_create hcreate) guarded_true guarded_true
  obtain ⟨r', hrun', hclean⟩ := halways.last
  obtain rfl := Option.some.inj (hrun'.symm.trans hrun)
  exact hclean

/-- The extent is put back as it was. -/
lemma Written.restores {t t' t'' : HeapTable} {s n : ℕ} {f : ℕ → Entry} (h : Written t t' s n f)
    (h' : Written t' t'' s n fun _ => entryFree) (hclean : CleanTable t)
    (hfit : Extent.FirstFit (EntryFree t.entries) t.total ⟨s, n⟩) : t''.entries = t.entries := by
  funext x
  by_cases hx : (s : ℤ) ≤ x ∧ x < s + n
  · obtain ⟨i, rfl⟩ := Int.eq_ofNat_of_zero_le (show 0 ≤ x by omega)
    have hin : s ≤ i ∧ i < s + n := by omega
    have hfree := h'.inside (i - s) (by omega)
    rw [← Nat.cast_add, Nat.add_sub_cancel' hin.1] at hfree
    rw [hfree, hclean i (hin.2.trans_le hfit.inside) (hfit.all i hin)]
  · rw [h'.outside x (by omega), h.outside x (by omega)]

/-- An allocation of at least one block: nothing is done, or the blocks from one in the table on
are marked, and those of them that lie in the table were free. -/
lemma heapMallocBlocks_cases (heap : Heap) {n : ℕ} (hn : 0 < n) :
    heapMallocBlocks heap n = (heap, 0) ∨ ∃ b < heap.table.total,
      (∀ i, b ≤ i → i < b + n → i < heap.table.total → EntryFree heap.table.entries i) ∧
      heapMallocBlocks heap n = (heapMarkBlocksTaken heap b n, heapBlockToAddress heap b) := by
  have hres := heapGetStartBlock_result heap n
  rw [heapMallocBlocks]
  generalize heapGetStartBlock heap n = res at hres
  cases hres with
  | @found s _ hfit =>
    have hin : s + n ≤ heap.table.total := hfit.inside
    exact Or.inr ⟨s, by omega, fun i hi hlt _ => hfit.all i ⟨hi, hlt⟩, rfl⟩
  | full => exact Or.inl rfl
  | @short b _ hb htail =>
    exact Or.inr ⟨b, hb, fun i hi _ hlt => htail i ⟨hi, by simp only; omega⟩, rfl⟩

/-- The freeing loop stops at the end of the table when every entry has a successor. -/
lemma markFreeLoop_all {k : ℕ} : ∀ {i : ℤ} {t : HeapTable},
    (∀ l < k, t.entries (i + l) &&& blockHasNext ≠ 0) →
      Written t (markFreeLoop k i t) i k fun _ => entryFree := by
  induction k with
  | zero => exact fun _ => Written.nil _ _ _
  | succ k ih =>
    intro i t hnext
    have hfirst := hnext 0 (Nat.succ_pos k)
    rw [Nat.cast_zero, add_zero] at hfirst
    rw [markFreeLoop]
    simp only [if_neg hfirst]
    refine Written.cons (ih fun l hl => ?_) rfl
    have hset : (t.set i entryFree).entries (i + 1 + l) = t.entries (i + (l + 1 : ℕ)) := by
      rw [show i + 1 + (l : ℤ) = i + (l + 1 : ℕ) by push_cast; omega]
      exact Function.update_of_ne (by omega) _ _
    rw [hset]
    exact hnext (l + 1) (by omega)

/-- `heap_free` follows the entries of an allocation that lies in the table. -/
lemma heapFree_markTaken_written {heap : Heap} {b n : ℕ} (hn : 0 < n)
    (hin : b + n ≤ heap.table.total) {p : Ptr}
    (hp : heapAddressToBlock (heapMarkBlocksTaken heap b n) p = b) :
    Written (heapMarkBlocksTaken heap b n).table
      (heapFree (heapMarkBlocksTaken heap b n) p).table b n fun _ => entryFree := by
  have hw := heapMarkBlocksTaken_written heap b n
  rw [heapFree, heapMarkBlocksFree, hp, hw.total_eq]
  refine markFreeLoop_written n _ 0 b _ (Nat.zero_add n) hn (by omega) fun l hl => ?_
  rw [Nat.zero_add]
  exact hw.inside l hl

/-- Blocks that were free and marked are freed again: in the table everything is as before, also
when the allocation runs over its end. -/
lemma heapFree_markTaken {heap : Heap} (hclean : CleanTable heap.table) {b n : ℕ} (hn : 0 < n)
    (hb : b < heap.table.total)
    (hfree : ∀ i, b ≤ i → i < b + n → i < heap.table.total → EntryFree heap.table.entries i)
    {p : Ptr} (hp : heapAddressToBlock (heapMarkBlocksTaken heap b n) p = b) {i : ℕ}
    (hi : i < heap.table.total) :
    (heapFree (heapMarkBlocksTaken heap b n) p).table.entries i = heap.table.entries i := by
  have hw := heapMarkBlocksTaken_written heap b n
  have hw' : ∃ m, m ≤ n ∧ (m = n ∨ b + m = heap.table.total) ∧
      Written (heapMarkBlocksTaken heap b n).table
        (heapFree (heapMarkBlocksTaken heap b n) p).table b m fun _ => entryFree := by
    rcases Nat.lt_or_ge heap.table.total (b + n) with hover | hinside
    · -- the loop ends with the table, and not with the last entry of the allocation
      have hsteps : ((heap.table.total : ℤ) - b).toNat = heap.table.total - b := by omega
      rw [heapFree, heapMarkBlocksFree, hp, hw.total_eq, hsteps]
      refine ⟨heap.table.total - b, by omega, Or.inr (by omega), markFreeLoop_all fun l hl => ?_⟩
      rw [hw.inside l (by omega), ne_eq, blockCode_hasNext_iff]
      omega
    · exact ⟨n, le_rfl, Or.inl rfl, heapFree_markTaken_written hn hinside hp⟩
  obtain ⟨m, hm, hmn, hw'⟩ := hw'
  by_cases hin : b ≤ i ∧ i < b + m
  · have hentry := hw'.inside (i - b) (by omega)
    rw [← Nat.cast_add, Nat.add_sub_cancel' hin.1] at hentry
    rw [hentry, hclean i hi (hfree i hin.1 (by omega) hi)]
  · rw [hw'.outside i (by omega), hw.outside i (by omega)]

/-- **First fit.**  In every heap of less than `2 ^ 31` bytes that calls of a client lead to from
`heap_create`, and for every number of blocks for which there is a run of free ones:
`heap_get_start_block` finds the first such run, `heap_malloc` of a size that needs this number of
blocks writes the entries of an allocation to its blocks and nothing else, and `heap_free` of the
returned address writes to these blocks only and puts the table back to what it was. -/
theorem heap_malloc_first_fit {ptr endPtr total : ℕ} {entries : ℤ → Entry} {heap₀ : Heap}
    (hcreate : heapCreate ptr endPtr ⟨entries, total, []⟩ = .ok heap₀) {ops : List HeapOp}
    {r : HeapRun} (hrun : ops.foldlM heapStep ⟨heap₀, []⟩ = some r)
    (hsmall : r.heap.table.total * heapBlockSize < 2 ^ 31) {n : ℕ} (hn : 1 ≤ n)
    (hfree : Extent.HasRun (EntryFree r.heap.table.entries) r.heap.table.total n) :
    ∃ s, heapGetStartBlock r.heap n = some s ∧
      Extent.FirstFit (EntryFree r.heap.table.entries) r.heap.table.total ⟨s, n⟩ ∧
      ∀ size, blocksFor size = n → ∃ heap',
        heapMalloc r.heap size = (heap', heapBlockToAddress r.heap s) ∧
        Written r.heap.table heap'.table s n (blockCode n) ∧
        Written heap'.table (heapFree heap' (heapBlockToAddress r.heap s)).table s n
          (fun _ => entryFree) ∧
        (heapFree heap' (heapBlockToAddress r.heap s)).table.entries = r.heap.table.entries := by
  obtain ⟨s, hfit⟩ := hfree.exists_firstFit
  have hstart := heapGetStartBlock_found hn hfit
  refine ⟨s, hstart, hfit, fun size hsize => ?_⟩
  have hin : s + n ≤ r.heap.table.total := hfit.inside
  have hle : size ≤ 2 ^ 32 - heapBlockSize := by
    simp only [blocksFor, heapBlockSize] at *
    omega
  have hmalloc : heapMalloc r.heap size =
      (heapMarkBlocksTaken r.heap s n, heapBlockToAddress r.heap s) := by
    rw [heapMalloc_eq _ hle, hsize, heapMallocBlocks, hstart]
  have hw := heapMarkBlocksTaken_written r.heap s n
  -- the block number of the address
  have hbytes : s * heapBlockSize < 2 ^ 31 :=
    (Nat.mul_le_mul_right _ (by omega)).trans_lt hsmall
  have hs : s < 2 ^ 20 := by
    rw [heapBlockSize] at hbytes
    omega
  have hoffset : (heapMarkBlocksTaken r.heap s n).offset (heapBlockToAddress r.heap s) =
      s * heapBlockSize := r.heap.offset_blockToAddress hs
  have hblock : heapAddressToBlock (heapMarkBlocksTaken r.heap s n)
      (heapBlockToAddress r.heap s) = s := by
    rw [heapAddressToBlock_of_lt (hoffset.trans_lt hbytes), hoffset,
      Nat.mul_div_cancel _ (by decide)]
  have hw' := heapFree_markTaken_written hn hin hblock
  exact ⟨_, hmalloc, hw, hw', hw.restores hw' (cleanTable_run hcreate hrun) hfit⟩

/-- A heap of three blocks as `heap_create` leaves it. -/
def threeBlocks : Heap :=
  ⟨⟨fun i => if 0 ≤ i ∧ i < (3 : ℕ) then entryFree else 0xff, 3, [0, 1, 2]⟩, 0x1000000⟩

lemma threeBlocks_create :
    heapCreate 0x1000000 0x1003000 ⟨fun _ => 0xff, 3, []⟩ = .ok threeBlocks := rfl

/-- The first block is allocated; the other two are allocated together and freed again. -/
theorem heap_malloc_first_fit_behind :
    ∃ r, [HeapOp.malloc 1].foldlM heapStep ⟨threeBlocks, []⟩ = some r ∧
      ∃ heap' p, heapMalloc r.heap 5000 = (heap', p) ∧
        (heapFree heap' p).table.entries = r.heap.table.entries := by
  have hrun : [HeapOp.malloc 1].foldlM heapStep ⟨threeBlocks, []⟩ =
      some ⟨heapMarkBlocksTaken threeBlocks 0 1, [(0x1000000, 1)]⟩ := rfl
  have hfree :
      Extent.HasRun (EntryFree (heapMarkBlocksTaken threeBlocks 0 1).table.entries) 3 2 := by
    refine ⟨1, le_rfl, fun i hi => ?_⟩
    have hlow : 1 ≤ i := hi.1
    have hhigh : i < 3 := hi.2
    interval_cases i
    · decide
    · decide
  obtain ⟨s, -, -, hsize⟩ := heap_malloc_first_fit threeBlocks_create hrun (by decide)
    (show 1 ≤ 2 by decide) hfree
  obtain ⟨heap', hmalloc, -, -, hrestores⟩ := hsize 5000 (by decide)
  exact ⟨_, hrun, heap', _, hmalloc, hrestores⟩

/-! ## Requests that cannot be met -/

/-- The last block of the table is taken, or there is no block. -/
def LastTaken (heap : Heap) : Prop :=
  ∀ j, j + 1 = heap.table.total → ¬ EntryFree heap.table.entries j

/-- The free blocks at the end of the table begin with block `b`. -/
structure FreeTail (heap : Heap) (b : ℕ) : Prop where
  lt_total : b < heap.table.total
  free : ∀ i, b ≤ i → i < heap.table.total → EntryFree heap.table.entries i
  taken : ∀ j, j + 1 = b → ¬ EntryFree heap.table.entries j

lemma FreeTail.not_lastTaken {heap : Heap} {b : ℕ} (h : FreeTail heap b) : ¬ LastTaken heap := by
  have hlt := h.lt_total
  exact fun hlast => hlast (heap.table.total - 1) (by omega) (h.free _ (by omega) (by omega))

lemma FreeTail.le {heap : Heap} {b b' : ℕ} (h : FreeTail heap b) (h' : FreeTail heap b') :
    b ≤ b' := by
  have hlt := h.lt_total
  by_contra hgt
  exact h.taken (b - 1) (by omega) (h'.free (b - 1) (by omega) (by omega))

/-- The scan for no blocks runs to the end of the table. -/
lemma ScanState.scan_zero {entries : ℤ → Entry} : ∀ {k i bc : ℕ} {bs : Option ℕ},
    ScanState entries 0 i bc bs →
      ∃ bc', ScanState entries 0 (i + k) bc' (startBlockLoop entries 0 k i bc bs) := by
  intro k
  induction k with
  | zero => exact fun h => ⟨_, h⟩
  | succ k ih =>
    intro i bc bs h
    rw [startBlockLoop, Nat.add_comm k 1, ← Nat.add_assoc]
    by_cases hi : EntryFree entries i
    · -- a free block is never the last one of a run of none
      have htype : heapGetEntryType (entries i) = entryFree := hi
      rw [if_neg (not_not.mpr htype)]
      simp only [if_neg (Nat.succ_ne_zero bc)]
      exact ih (h.free hi (Nat.succ_ne_zero bc))
    · have htype : heapGetEntryType (entries i) ≠ entryFree := hi
      rw [if_pos htype]
      exact ih (h.taken hi)

/-- A request for no blocks is answered with the free blocks at the end. -/
lemma heapMallocBlocks_zero (heap : Heap) :
    (LastTaken heap ∧ heapMallocBlocks heap 0 = (heap, 0)) ∨
      ∃ b, FreeTail heap b ∧ heapMallocBlocks heap 0 = (heap, heapBlockToAddress heap b) := by
  obtain ⟨bc, hstate⟩ := (scanState_init heap.table.entries 0).scan_zero (k := heap.table.total)
  rw [Nat.zero_add, ← heapGetStartBlock] at hstate
  rw [heapMallocBlocks]
  cases hstart : heapGetStartBlock heap 0 with
  | none => exact Or.inl ⟨(hstate.none_case hstart).2, rfl⟩
  | some b =>
    obtain ⟨hsum, hpos, hall, htaken⟩ := hstate.some_case b hstart
    exact Or.inr ⟨b, ⟨by omega, fun i hi hlt => hall i ⟨hi, by simp only; omega⟩, htaken⟩, rfl⟩

/-- A size near `2 ^ 32` is rounded up to no block. -/
lemma heapMalloc_wraps (heap : Heap) {size : ℕ} (hwraps : 2 ^ 32 - heapBlockSize < size)
    (hlt : size < 2 ^ 32) : heapMalloc heap size = heapMallocBlocks heap 0 := by
  have hblocks : heapAlignValueToUpper size / heapBlockSize = 0 := by
    have hne : ¬ size % heapBlockSize = 0 := by
      simp only [heapBlockSize] at *
      omega
    rw [heapAlignValueToUpper, if_neg hne]
    simp only [heapBlockSize] at *
    omega
  rw [heapMalloc, hblocks]

/-- An address stands for enough blocks that were free and are now taken, and a request for which
there is no run of free blocks returns no memory and changes nothing. -/
structure HonestMalloc (heap : Heap) (size : ℕ) : Prop where
  takes : (heapMalloc heap size).2 ≠ 0 → ∃ s n, blocksFor size ≤ n ∧ s + n ≤ heap.table.total ∧
    heapBlockToAddress heap s = (heapMalloc heap size).2 ∧ ∀ i, s ≤ i → i < s + n →
      EntryFree heap.table.entries i ∧
        heapGetEntryType ((heapMalloc heap size).1.table.entries i) = entryTaken
  refuses : ¬ Extent.HasRun (EntryFree heap.table.entries) heap.table.total (blocksFor size) →
    heapMalloc heap size = (heap, 0)

/-- A request that is rounded up correctly. -/
lemma honestMalloc_fits_iff (heap : Heap) {size : ℕ} (hpos : 1 ≤ size)
    (hfits : size ≤ 2 ^ 32 - heapBlockSize) :
    HonestMalloc heap size ↔
      Extent.HasRun (EntryFree heap.table.entries) heap.table.total (blocksFor size) ∨
        LastTaken heap := by
  have hn := blocksFor_pos hpos
  have heq := heapMalloc_eq heap hfits
  by_cases hrun : Extent.HasRun (EntryFree heap.table.entries) heap.table.total (blocksFor size)
  · -- the first run is taken
    refine iff_of_true ⟨fun _ => ?_, fun hno => absurd hrun hno⟩ (Or.inl hrun)
    obtain ⟨s, hfit⟩ := hrun.exists_firstFit
    have hw := heapMarkBlocksTaken_written heap s (blocksFor size)
    have hmalloc : heapMalloc heap size =
        (heapMarkBlocksTaken heap s (blocksFor size), heapBlockToAddress heap s) := by
      rw [heq, heapMallocBlocks, heapGetStartBlock_found hn hfit]
    rw [hmalloc]
    refine ⟨s, _, le_rfl, hfit.inside, rfl, fun i hi hi' => ⟨hfit.all i ⟨hi, hi'⟩, ?_⟩⟩
    have hcode := hw.inside (i - s) (by omega)
    rw [← Nat.cast_add, Nat.add_sub_cancel' hi] at hcode
    rw [hcode, heapGetEntryType_blockCode]
  by_cases hlast : LastTaken heap
  · have hmalloc := heq.trans (heapMallocBlocks_full (fun _ => hrun) hlast)
    refine iff_of_true ⟨fun hne => ?_, fun _ => hmalloc⟩ (Or.inr hlast)
    rw [hmalloc] at hne
    exact absurd rfl hne
  · -- the free blocks at the end are marked, and others behind the table
    refine iff_of_false (fun hhonest => ?_) (not_or.mpr ⟨hrun, hlast⟩)
    obtain ⟨j, hj, hfree⟩ : ∃ j, j + 1 = heap.table.total ∧ EntryFree heap.table.entries j := by
      simpa only [LastTaken, not_forall, not_not, exists_prop] using hlast
    obtain ⟨b, hb, hall, hshort⟩ := heapMallocBlocks_short (fun _ => hrun) ⟨j, hj, hfree⟩
    have hw := heapMarkBlocksTaken_written heap b (blocksFor size)
    have hsame : heapMarkBlocksTaken heap b (blocksFor size) = heap :=
      congrArg Prod.fst (hshort.symm.trans (heq.symm.trans (hhonest.refuses hrun)))
    have hcode := hw.inside 0 hn
    rw [hsame] at hcode
    have hbfree : EntryFree heap.table.entries b := hall b ⟨le_rfl, by simp only; omega⟩
    rw [Nat.cast_zero, add_zero] at hcode
    rw [EntryFree, hcode, heapGetEntryType_blockCode] at hbfree
    exact absurd hbfree (by decide)

/-- A request that is rounded up to no block. -/
lemma honestMalloc_wraps_iff (heap : Heap) {size : ℕ} (hwraps : 2 ^ 32 - heapBlockSize < size)
    (hlt : size < 2 ^ 32) :
    HonestMalloc heap size ↔
      LastTaken heap ∨ ∃ b, FreeTail heap b ∧ heapBlockToAddress heap b = 0 := by
  have heq := heapMalloc_wraps heap hwraps hlt
  rcases heapMallocBlocks_zero heap with ⟨hlast, hnone⟩ | ⟨b, htail, hsome⟩
  · have hmalloc := heq.trans hnone
    refine iff_of_true ⟨fun hne => ?_, fun _ => hmalloc⟩ (Or.inl hlast)
    rw [hmalloc] at hne
    exact absurd rfl hne
  have hmalloc := heq.trans hsome
  by_cases hzero : heapBlockToAddress heap b = 0
  · rw [hzero] at hmalloc
    refine iff_of_true ⟨fun hne => ?_, fun _ => hmalloc⟩ (Or.inr ⟨b, htail, hzero⟩)
    rw [hmalloc] at hne
    exact absurd rfl hne
  · -- an address without any block
    refine iff_of_false (fun hhonest => ?_) ?_
    · have hpos : 0 < blocksFor size := blocksFor_pos (by
        simp only [heapBlockSize] at hwraps
        omega)
      obtain ⟨s, n, hn, -, -, hall⟩ := hhonest.takes (by rw [hmalloc]; exact hzero)
      obtain ⟨hfree, htaken⟩ := hall s le_rfl (by omega)
      rw [hmalloc] at htaken
      rw [EntryFree, htaken] at hfree
      exact absurd hfree (by decide)
    · rintro (hlast | ⟨b', htail', hzero'⟩)
      · exact htail.not_lastTaken hlast
      · exact hzero (Nat.le_antisymm (htail.le htail') (htail'.le htail) ▸ hzero')

/-- **What `heap_malloc` promises.**  For every heap and every size of 32 bits from one byte on,
`heap_malloc` takes the blocks that it returns, and refuses what it cannot meet, if and only if
the size is rounded up within the address range and there is a run of free blocks, or the last
block of the table is taken, or the size is rounded up to no block and the free blocks at the end
of the table begin at address zero. -/
theorem heap_malloc_honest_iff (heap : Heap) {size : ℕ} (hpos : 1 ≤ size) (hlt : size < 2 ^ 32) :
    HonestMalloc heap size ↔
      (size ≤ 2 ^ 32 - heapBlockSize ∧
        Extent.HasRun (EntryFree heap.table.entries) heap.table.total (blocksFor size)) ∨
      LastTaken heap ∨
      (2 ^ 32 - heapBlockSize < size ∧ ∃ b, FreeTail heap b ∧ heapBlockToAddress heap b = 0) := by
  rcases Nat.lt_or_ge (2 ^ 32 - heapBlockSize) size with hwraps | hfits
  · have hnot : ¬ size ≤ 2 ^ 32 - heapBlockSize := Nat.not_le.mpr hwraps
    rw [honestMalloc_wraps_iff heap hwraps hlt]
    simp only [hnot, hwraps, false_and, true_and, false_or]
  · have hnot : ¬ 2 ^ 32 - heapBlockSize < size := Nat.not_lt.mpr hfits
    have hfits' : size ≤ 2 ^ 32 - heapBlockSize := hfits
    rw [honestMalloc_fits_iff heap hpos hfits]
    simp only [hnot, hfits', false_and, true_and, or_false]

/-- One block of a fresh kernel heap. -/
theorem heap_malloc_honest_iff_boot : HonestMalloc bootHeap 4096 := by
  refine (heap_malloc_honest_iff bootHeap (by decide) (by decide)).mpr (Or.inl ⟨by decide, ?_⟩)
  exact ⟨0, by decide, fun i _ => entryFree_bootHeap i⟩

/-- Nearly `2 ^ 32` bytes: the address of the first block is returned, and it stays free. -/
theorem not_heap_malloc_honest_wraps : ¬ HonestMalloc bootHeap 0xFFFFFFFF := by
  intro hhonest
  have hmalloc : heapMalloc bootHeap 0xFFFFFFFF = (bootHeap, heapAddress) := by
    rw [← kzalloc_bootHeap_zero, heapMalloc_wraps bootHeap (by decide) (by decide), kzalloc,
      kmalloc, heapMalloc_eq _ (by decide)]
    rfl
  obtain ⟨s, n, hn, -, -, hall⟩ := hhonest.takes (by rw [hmalloc]; decide)
  have hpos : 0 < blocksFor 0xFFFFFFFF := by decide
  have htaken := (hall s le_rfl (by omega)).2
  rw [hmalloc] at htaken
  exact absurd ((entryFree_bootHeap s).symm.trans htaken) (by decide)

end SerpaeOS
