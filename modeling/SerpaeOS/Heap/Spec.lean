import SerpaeOS.Heap.Table
import SerpaeOS.Lib.Extents

/-!
# Specifications of the heap functions

What the scan for a start block finds, what the two marking loops write, and what
`heap_malloc` and `heap_free` do to a table that records a family of extents.
-/

namespace SerpaeOS

open BlockTable Word

/-! ## The scan -/

/-- The entry of the block is of the free type. -/
def EntryFree (entries : ℤ → Entry) (i : ℕ) : Prop := heapGetEntryType (entries i) = entryFree

instance (entries : ℤ → Entry) (i : ℕ) : Decidable (EntryFree entries i) :=
  inferInstanceAs (Decidable (_ = _))

/-- What the scan knows when it comes to entry `i`: the current run `[b, i)` of free
entries, which begins the table or follows a taken entry, and that no run of `n` free
entries ends before `i`. -/
structure ScanState (entries : ℤ → Entry) (n i bc : ℕ) (bs : Option ℕ) : Prop where
  short : 0 < n → ∀ s, s + n ≤ i → ¬ (⟨s, n⟩ : Extent).All (EntryFree entries)
  none_case : bs = none → bc = 0 ∧ ∀ j, j + 1 = i → ¬ EntryFree entries j
  some_case : ∀ b, bs = some b → b + bc = i ∧ 0 < bc ∧
    (⟨b, bc⟩ : Extent).All (EntryFree entries) ∧ ∀ j, j + 1 = b → ¬ EntryFree entries j

/-- The possible results of the scan over `total` entries for a run of `n`. -/
inductive ScanResult (entries : ℤ → Entry) (total n : ℕ) : Option ℕ → Prop
  /-- The first run of `n` free entries. -/
  | found {s : ℕ} (hn : 0 < n) (h : Extent.FirstFit (EntryFree entries) total ⟨s, n⟩) :
      ScanResult entries total n (some s)
  /-- No run is long enough, and the last entry is taken. -/
  | full (hno : 0 < n → ¬ Extent.HasRun (EntryFree entries) total n)
      (hlast : ∀ j, j + 1 = total → ¬ EntryFree entries j) :
      ScanResult entries total n none
  /-- No run is long enough, but the free entries at the end of the table are returned
  all the same. -/
  | short {b : ℕ} (hno : 0 < n → ¬ Extent.HasRun (EntryFree entries) total n) (hb : b < total)
      (htail : (⟨b, total - b⟩ : Extent).All (EntryFree entries)) :
      ScanResult entries total n (some b)

lemma scanState_init (entries : ℤ → Entry) (n : ℕ) : ScanState entries n 0 0 none := by
  refine ⟨fun hn s hs => by omega, fun _ => ⟨rfl, fun j hj => by omega⟩, fun b hb => by simp at hb⟩

/-- The scan passes a taken entry. -/
lemma ScanState.taken {entries : ℤ → Entry} {n i bc : ℕ} {bs : Option ℕ}
    (h : ScanState entries n i bc bs) (hi : ¬ EntryFree entries i) :
    ScanState entries n (i + 1) 0 none := by
  refine ⟨fun hn s hs hall => ?_, fun _ => ⟨rfl, fun j hj => ?_⟩, fun b hb => by simp at hb⟩
  · by_cases hlt : s + n ≤ i
    · exact h.short hn s hlt hall
    · exact hi (hall i ⟨by simp only; omega, by simp only; omega⟩)
  · obtain rfl : j = i := by omega
    exact hi

/-- The run that ends with the free entry `i`, and where it begins. -/
lemma ScanState.run {entries : ℤ → Entry} {n i bc : ℕ} {bs : Option ℕ}
    (h : ScanState entries n i bc bs) (hi : EntryFree entries i) :
    bs.getD i + bc = i ∧ (⟨bs.getD i, bc + 1⟩ : Extent).All (EntryFree entries) ∧
      ∀ j, j + 1 = bs.getD i → ¬ EntryFree entries j := by
  cases bs with
  | none =>
    obtain ⟨rfl, hprev⟩ := h.none_case rfl
    refine ⟨rfl, fun x hx => ?_, hprev⟩
    obtain rfl : x = i := by
      have := hx.1
      have := hx.2
      simp only [Option.getD_none] at *
      omega
    exact hi
  | some b =>
    obtain ⟨hb, -, hall, hprev⟩ := h.some_case b rfl
    refine ⟨hb, fun x hx => ?_, hprev⟩
    have h1 := hx.1
    have h2 := hx.2
    simp only [Option.getD_some] at h1 h2
    by_cases hxi : x = i
    · exact hxi ▸ hi
    · exact hall x ⟨h1, by simp only; omega⟩

/-- The scan passes a free entry that does not complete a run. -/
lemma ScanState.free {entries : ℤ → Entry} {n i bc : ℕ} {bs : Option ℕ}
    (h : ScanState entries n i bc bs) (hi : EntryFree entries i) (hbc : bc + 1 ≠ n) :
    ScanState entries n (i + 1) (bc + 1) (some (bs.getD i)) := by
  obtain ⟨hb, hall, hprev⟩ := h.run hi
  refine ⟨fun hn s hs hrun => ?_, fun hnone => by simp at hnone, fun b hb' => ?_⟩
  · by_cases hlt : s + n ≤ i
    · exact h.short hn s hlt hrun
    · rcases Nat.lt_or_ge n (bc + 1) with hlen | hlen
      · -- a run of `n` would already have ended before `i`
        refine h.short hn (bs.getD i) (by omega) fun x hx => hall x ⟨hx.1, ?_⟩
        have := hx.2
        simp only at this ⊢
        omega
      · -- the run would reach back over the taken entry before the current run
        refine hprev (bs.getD i - 1) (by omega) (hrun _ ⟨?_, ?_⟩)
        · simp only
          omega
        · simp only
          omega
  · obtain rfl : bs.getD i = b := by simpa using hb'
    exact ⟨by omega, by omega, hall, hprev⟩

lemma ScanState.scanResult {entries : ℤ → Entry} {n total : ℕ} :
    ∀ {k i bc : ℕ} {bs : Option ℕ}, ScanState entries n i bc bs → i + k = total →
      ScanResult entries total n (startBlockLoop entries n k i bc bs) := by
  intro k
  induction k with
  | zero =>
    intro i bc bs h hik
    obtain rfl : i = total := by omega
    have hno : 0 < n → ¬ Extent.HasRun (EntryFree entries) i n :=
      fun hn ⟨s, hs, hall⟩ => h.short hn s hs hall
    cases bs with
    | none => exact .full hno (h.none_case rfl).2
    | some b =>
      obtain ⟨hb, hpos, hall, -⟩ := h.some_case b rfl
      refine .short hno (by omega) ?_
      obtain rfl : bc = i - b := by omega
      exact hall
  | succ k ih =>
    intro i bc bs h hik
    rw [startBlockLoop]
    by_cases hi : EntryFree entries i
    · have htype : heapGetEntryType (entries i) = entryFree := hi
      rw [if_neg (not_not.mpr htype)]
      by_cases hbc : bc + 1 = n
      · obtain ⟨hb, hall, -⟩ := h.run hi
        rw [if_pos hbc]
        subst hbc
        refine .found (by omega) ⟨by simp only; omega, hall, fun s hs hrun => ?_⟩
        refine h.short (by omega) s ?_ hrun
        simp only at hs
        omega
      · rw [if_neg hbc]
        exact ih (h.free hi hbc) (by omega)
    · have htype : heapGetEntryType (entries i) ≠ entryFree := hi
      rw [if_pos htype]
      exact ih (h.taken hi) (by omega)

/-- A request for no blocks is answered with the start of the free entries at the end. -/
lemma startBlockLoop_zero {entries : ℤ → Entry} {b : ℕ} :
    ∀ (k i bc : ℕ), (∀ j, i ≤ j → EntryFree entries j) →
      startBlockLoop entries 0 k i bc (some b) = some b := by
  intro k
  induction k with
  | zero => exact fun i bc _ => rfl
  | succ k ih =>
    intro i bc hfree
    have htype : heapGetEntryType (entries i) = entryFree := hfree i le_rfl
    rw [startBlockLoop, if_neg (not_not.mpr htype)]
    simp only [Option.getD_some, if_neg (Nat.succ_ne_zero bc)]
    exact ih (i + 1) (bc + 1) fun j hj => hfree j (by omega)

/-- What `heap_get_start_block` finds. -/
theorem heapGetStartBlock_result (heap : Heap) (n : ℕ) :
    ScanResult heap.table.entries heap.table.total n (heapGetStartBlock heap n) :=
  (scanState_init heap.table.entries n).scanResult (by omega)

lemma heapGetStartBlock_found {heap : Heap} {n s : ℕ} (hn : 0 < n)
    (h : Extent.FirstFit (EntryFree heap.table.entries) heap.table.total ⟨s, n⟩) :
    heapGetStartBlock heap n = some s := by
  have hres := heapGetStartBlock_result heap n
  generalize hr : heapGetStartBlock heap n = r at hres
  cases hres with
  | found _ h' => rw [h.unique h']
  | full hno _ => exact absurd ⟨s, h.inside, h.all⟩ (hno hn)
  | short hno _ _ => exact absurd ⟨s, h.inside, h.all⟩ (hno hn)

lemma heapGetStartBlock_full {heap : Heap} {n : ℕ}
    (hno : 0 < n → ¬ Extent.HasRun (EntryFree heap.table.entries) heap.table.total n)
    (hlast : ∀ j, j + 1 = heap.table.total → ¬ EntryFree heap.table.entries j) :
    heapGetStartBlock heap n = none := by
  have hres := heapGetStartBlock_result heap n
  generalize hr : heapGetStartBlock heap n = r at hres
  cases hres with
  | found hn h' => exact absurd ⟨_, h'.inside, h'.all⟩ (hno hn)
  | full _ _ => rfl
  | short _ hb htail =>
    refine absurd (htail (heap.table.total - 1) ⟨?_, ?_⟩) (hlast _ (by omega))
    · simp only
      omega
    · simp only
      omega

/-! ## Marking -/

/-- The entry of block `j` in an allocation of `n` blocks. -/
def blockCode (n j : ℕ) : Entry :=
  entryTaken ||| (if j = 0 then blockIsFirst else 0) ||| (if j + 1 < n then blockHasNext else 0)

lemma heapGetEntryType_blockCode (n j : ℕ) : heapGetEntryType (blockCode n j) = entryTaken := by
  unfold blockCode
  split <;> split <;> rfl

lemma blockCode_ne_free (n j : ℕ) : blockCode n j ≠ entryFree := by
  unfold blockCode
  split <;> split <;> decide

lemma blockCode_hasNext_iff (n j : ℕ) : blockCode n j &&& blockHasNext = 0 ↔ n ≤ j + 1 := by
  unfold blockCode
  by_cases hj : j + 1 < n
  · rw [if_pos hj]
    constructor
    · intro h
      split at h <;> exact absurd h (by decide)
    · intro h
      omega
  · rw [if_neg hj]
    refine ⟨fun _ => by omega, fun _ => ?_⟩
    split <;> rfl

/-- The table after the assignments of `f` to the entries `[i, i + n)`. -/
structure Written (t t' : HeapTable) (i : ℤ) (n : ℕ) (f : ℕ → Entry) : Prop where
  total_eq : t'.total = t.total
  inside : ∀ j < n, t'.entries (i + j) = f j
  outside : ∀ x, x < i ∨ i + n ≤ x → t'.entries x = t.entries x
  mem_written : ∀ x, x ∈ t'.written ↔ x ∈ t.written ∨ i ≤ x ∧ x < i + n

lemma Written.nil (t : HeapTable) (i : ℤ) (f : ℕ → Entry) : Written t t i 0 f :=
  ⟨rfl, fun j hj => by omega, fun _ _ => rfl, fun x => by simp⟩

lemma Written.cons {t t' : HeapTable} {i : ℤ} {n : ℕ} {f : ℕ → Entry} {e : Entry}
    (h : Written (t.set i e) t' (i + 1) n fun j => f (j + 1)) (he : f 0 = e) :
    Written t t' i (n + 1) f := by
  refine ⟨h.total_eq, ?_, ?_, ?_⟩
  · intro j hj
    cases j with
    | zero =>
      rw [h.outside _ (Or.inl (by simp)), he]
      simp [HeapTable.set]
    | succ j =>
      have := h.inside j (by omega)
      rwa [show (i + ((j + 1 : ℕ) : ℤ)) = i + 1 + j by push_cast; omega]
  · intro x hx
    push_cast at hx
    rw [h.outside x (by omega)]
    exact Function.update_of_ne (by omega) _ _
  · intro x
    rw [h.mem_written x]
    simp only [HeapTable.set, List.mem_append, List.mem_singleton]
    push_cast
    constructor
    · rintro ((hx | rfl) | hx)
      · exact Or.inl hx
      · exact Or.inr (by omega)
      · exact Or.inr (by omega)
    · rintro (hx | hx)
      · exact Or.inl (Or.inl hx)
      · rcases eq_or_lt_of_le hx.1 with rfl | hlt
        · exact Or.inl (Or.inr rfl)
        · exact Or.inr (by omega)

/-- The marking loop from block `j` of an allocation of `n` blocks on. -/
lemma markTakenLoop_written {n : ℕ} :
    ∀ (k j : ℕ) (i : ℤ) (t : HeapTable), j + k = n →
      Written t (markTakenLoop (i + k - 1) k i (blockCode n j) t) i k
        fun m => blockCode n (j + m) := by
  intro k
  induction k with
  | zero => exact fun j i t _ => Written.nil t i _
  | succ k ih =>
    intro j i t hjk
    rw [markTakenLoop]
    refine Written.cons (e := blockCode n j) ?_ rfl
    cases k with
    | zero => exact Written.nil _ _ _
    | succ k =>
      -- the entry prepared for the next block is the code of block `j + 1`
      have hentry : (if i ≠ i + ((k + 1 + 1 : ℕ) : ℤ) - 1 - 1 then entryTaken ||| blockHasNext
          else entryTaken) = blockCode n (j + 1) := by
        unfold blockCode
        by_cases hk : k = 0
        · subst hk
          rw [if_neg (by push_cast; omega), if_neg (by omega), if_neg (by omega)]
          rfl
        · rw [if_pos (by push_cast; omega), if_neg (by omega), if_pos (by omega)]
          rfl
      have hlast : i + ((k + 1 + 1 : ℕ) : ℤ) - 1 = i + 1 + ((k + 1 : ℕ) : ℤ) - 1 := by
        push_cast
        omega
      have := ih (j + 1) (i + 1) (t.set i (blockCode n j)) (by omega)
      simp only [hentry]
      rw [hlast]
      refine ⟨this.total_eq, fun m hm => ?_, this.outside, this.mem_written⟩
      rw [this.inside m hm]
      congr 1
      omega

/-- What `heap_mark_blocks_taken` writes. -/
lemma heapMarkBlocksTaken_written (heap : Heap) (s n : ℕ) :
    Written heap.table (heapMarkBlocksTaken heap s n).table s n (blockCode n) := by
  rcases Nat.eq_zero_or_pos n with rfl | hn
  · exact Written.nil _ _ _
  · have hentry : (if n > 1 then entryTaken ||| blockIsFirst ||| blockHasNext
        else entryTaken ||| blockIsFirst) = blockCode n 0 := by
      unfold blockCode
      by_cases h1 : n > 1
      · rw [if_pos h1, if_pos rfl, if_pos (by omega)]
      · rw [if_neg h1, if_pos rfl, if_neg (by omega)]
        rfl
    have := markTakenLoop_written (n := n) n 0 s heap.table (by omega)
    simp only [Nat.zero_add] at this
    rw [heapMarkBlocksTaken]
    simp only [hentry]
    exact this

/-- The freeing loop from block `j` of an allocation of `n` blocks on. -/
lemma markFreeLoop_written {n : ℕ} :
    ∀ (m k j : ℕ) (i : ℤ) (t : HeapTable), j + m = n → 0 < m → m ≤ k →
      (∀ l < m, t.entries (i + l) = blockCode n (j + l)) →
      Written t (markFreeLoop k i t) i m fun _ => entryFree := by
  intro m
  induction m with
  | zero => exact fun k j i t _ h => absurd h (by omega)
  | succ m ih =>
    intro k j i t hjm _ hk hcode
    obtain ⟨k, rfl⟩ := Nat.exists_eq_add_of_le' (Nat.lt_of_lt_of_le (Nat.succ_pos m) hk)
    rw [markFreeLoop]
    refine Written.cons (e := entryFree) ?_ rfl
    have hi : t.entries i = blockCode n j := by simpa using hcode 0 (by omega)
    simp only [hi, blockCode_hasNext_iff]
    by_cases hm : m = 0
    · subst hm
      rw [if_pos (by omega)]
      exact Written.nil _ _ _
    · rw [if_neg (by omega)]
      refine ih k (j + 1) (i + 1) _ (by omega) (by omega) (by omega) fun l hl => ?_
      have := hcode (l + 1) (by omega)
      have hne : i + 1 + (l : ℤ) ≠ i := by omega
      simp only [HeapTable.set, Function.update_of_ne hne]
      rw [show i + 1 + (l : ℤ) = i + ((l + 1 : ℕ) : ℤ) by push_cast; omega, this]
      congr 1
      omega

lemma total_markFreeLoop (k : ℕ) : ∀ (i : ℤ) (t : HeapTable),
    (markFreeLoop k i t).total = t.total := by
  induction k with
  | zero => exact fun _ _ => rfl
  | succ k ih =>
    intro i t
    rw [markFreeLoop]
    split
    · rfl
    · exact ih _ _

/-- What was written before stays in the record. -/
lemma written_subset_markFreeLoop (k : ℕ) : ∀ (i : ℤ) (t : HeapTable), ∀ x ∈ t.written,
    x ∈ (markFreeLoop k i t).written := by
  induction k with
  | zero => exact fun i t x hx => hx
  | succ k ih =>
    intro i t x hx
    rw [markFreeLoop]
    have hset : x ∈ (t.set i entryFree).written := by simp [HeapTable.set, hx]
    by_cases he : t.entries i &&& blockHasNext = 0
    · simp only [if_pos he]
      exact hset
    · simp only [if_neg he]
      exact ih _ _ _ hset

/-- Freeing from an index on always writes that entry. -/
lemma mem_written_markFreeLoop (k : ℕ) (i : ℤ) (t : HeapTable) :
    i ∈ (markFreeLoop (k + 1) i t).written := by
  rw [markFreeLoop]
  have hset : i ∈ (t.set i entryFree).written := by simp [HeapTable.set]
  by_cases he : t.entries i &&& blockHasNext = 0
  · simp only [if_pos he]
    exact hset
  · simp only [if_neg he]
    exact written_subset_markFreeLoop _ _ _ _ hset

/-! ## Heaps that record a family of allocations -/

/-- The entries of the table, by block number. -/
def Heap.block (heap : Heap) (i : ℕ) : Entry := heap.table.entries i

/-- The table records the extents of the family as allocations, all other blocks are free,
and nothing was written outside the table. -/
structure Heap.Records (heap : Heap) (L : List Extent) : Prop where
  encodes : Encodes blockCode entryFree heap.table.total heap.block L
  written : ∀ x ∈ heap.table.written, 0 ≤ x ∧ x < heap.table.total
  total_lt : heap.table.total < 2 ^ 20

/-- The two heaps are at the same place, and only entries of the table differ. -/
structure Heap.SameFrame (heap heap' : Heap) : Prop where
  saddr_eq : heap'.saddr = heap.saddr
  total_eq : heap'.table.total = heap.table.total
  entries_eq : ∀ x : ℤ, x < 0 ∨ heap.table.total ≤ x →
    heap'.table.entries x = heap.table.entries x

lemma Heap.SameFrame.refl (heap : Heap) : heap.SameFrame heap := ⟨rfl, rfl, fun _ _ => rfl⟩

lemma Heap.SameFrame.trans {heap₁ heap₂ heap₃ : Heap} (h : heap₁.SameFrame heap₂)
    (h' : heap₂.SameFrame heap₃) : heap₁.SameFrame heap₃ := by
  refine ⟨h'.saddr_eq.trans h.saddr_eq, h'.total_eq.trans h.total_eq, fun x hx => ?_⟩
  rw [h'.entries_eq x (by rw [h.total_eq]; exact hx), h.entries_eq x hx]

/-- A heap is determined by its frame and the family it records, up to the record of
written indices. -/
lemma Heap.SameFrame.entries_eq_of_records {heap heap' : Heap} {L L' : List Extent}
    (hf : heap.SameFrame heap') (h : heap.Records L) (h' : heap'.Records L')
    (hmem : ∀ a, a ∈ L ↔ a ∈ L') : heap'.table.entries = heap.table.entries := by
  funext x
  by_cases hx : 0 ≤ x ∧ x < heap.table.total
  · obtain ⟨i, rfl⟩ := Int.eq_ofNat_of_zero_le hx.1
    have he := h'.encodes
    rw [hf.total_eq] at he
    exact he.table_eq h.encodes (fun a => (hmem a).symm) i (by omega)
  · exact hf.entries_eq x (by omega)

/-- The table records exactly the extents of the family. -/
def Heap.Lists (heap : Heap) (L : List Extent) : Prop :=
  Encodes blockCode entryFree heap.table.total heap.block L

section Lists

variable {heap : Heap} {L L₁ L₂ : List Extent}

lemma Heap.Lists.entryFree_iff (h : heap.Lists L) {i : ℕ} (hi : i < heap.table.total) :
    EntryFree heap.table.entries i ↔ ¬ Extent.Covered L i := by
  constructor
  · rintro hfree ⟨a, ha, hai⟩
    have hcode : heap.table.entries i = _ := h.code_of_covers ha hai
    rw [EntryFree, hcode, heapGetEntryType_blockCode] at hfree
    exact absurd hfree (by decide)
  · intro hcov
    have hcode : heap.table.entries i = _ := h.free_eq i hi hcov
    rw [EntryFree, hcode]
    rfl

lemma Heap.Lists.taken_iff (h : heap.Lists L) {i : ℕ} (hi : i < heap.table.total) :
    heapGetEntryType (heap.table.entries i) = entryTaken ↔ Extent.Covered L i := by
  constructor
  · intro htaken
    by_contra hcov
    have hfree := (h.entryFree_iff hi).mpr hcov
    rw [EntryFree, htaken] at hfree
    exact absurd hfree (by decide)
  · rintro ⟨a, ha, hai⟩
    have hcode : heap.table.entries i = _ := h.code_of_covers ha hai
    rw [hcode, heapGetEntryType_blockCode]

/-- Marking an extent of free blocks records it. -/
lemma Heap.Lists.mark (h : heap.Lists L) {s n : ℕ} (hin : s + n ≤ heap.table.total)
    (hfree : (⟨s, n⟩ : Extent).All (EntryFree heap.table.entries)) :
    (heapMarkBlocksTaken heap s n).Lists (⟨s, n⟩ :: L) := by
  have hw := heapMarkBlocksTaken_written heap s n
  rw [Heap.Lists, hw.total_eq]
  refine Encodes.insert h hin (fun i hi => ?_) (fun j hj => ?_) fun i _ hi => ?_
  · have hlt : i < heap.table.total := Nat.lt_of_lt_of_le hi.2 hin
    exact (h.entryFree_iff hlt).mp (hfree i hi)
  · have := hw.inside j hj
    rwa [← Nat.cast_add] at this
  · refine hw.outside i ?_
    by_contra hc
    exact hi ⟨by simp only; omega, by simp only; omega⟩

end Lists

lemma Heap.Records.entryFree_iff {heap : Heap} {L : List Extent} (h : heap.Records L) {i : ℕ}
    (hi : i < heap.table.total) :
    EntryFree heap.table.entries i ↔ ¬ Extent.Covered L i :=
  Heap.Lists.entryFree_iff h.encodes hi

lemma Heap.Records.taken_iff {heap : Heap} {L : List Extent} (h : heap.Records L) {i : ℕ}
    (hi : i < heap.table.total) :
    heapGetEntryType (heap.table.entries i) = entryTaken ↔ Extent.Covered L i :=
  Heap.Lists.taken_iff h.encodes hi

/-- `ceil (size / 4096)`. -/
def blocksFor (size : ℕ) : ℕ := (size + heapBlockSize - 1) / heapBlockSize

lemma heapMalloc_eq (heap : Heap) {size : ℕ} (hsize : size ≤ 2 ^ 32 - heapBlockSize) :
    heapMalloc heap size = heapMallocBlocks heap (blocksFor size) := by
  have hblocks : heapAlignValueToUpper size / heapBlockSize = blocksFor size := by
    rw [heapAlignValueToUpper, blocksFor]
    by_cases hs : size % heapBlockSize = 0
    · rw [if_pos hs]
      simp only [heapBlockSize] at *
      omega
    · rw [if_neg hs]
      simp only [heapBlockSize] at *
      omega
  rw [heapMalloc, hblocks]

lemma blocksFor_pos {size : ℕ} (h : 0 < size) : 0 < blocksFor size := by
  simp only [blocksFor, heapBlockSize]
  omega

/-- Marking an extent of free blocks records it. -/
lemma Heap.Records.mark {heap : Heap} {L : List Extent} (h : heap.Records L) {s n : ℕ}
    (hin : s + n ≤ heap.table.total)
    (hfree : (⟨s, n⟩ : Extent).All (EntryFree heap.table.entries)) :
    (heapMarkBlocksTaken heap s n).Records (⟨s, n⟩ :: L) ∧
      heap.SameFrame (heapMarkBlocksTaken heap s n) := by
  have hw := heapMarkBlocksTaken_written heap s n
  refine ⟨⟨Heap.Lists.mark h.encodes hin hfree, ?_, ?_⟩, rfl, hw.total_eq,
    fun x hx => hw.outside x (by omega)⟩
  · intro x hx
    rw [hw.total_eq]
    rcases (hw.mem_written x).mp hx with hx | hx
    · exact h.written x hx
    · omega
  · rw [hw.total_eq]
    exact h.total_lt

/-- `heap_malloc_blocks` when a run of blocks is free. -/
lemma Heap.Records.mallocBlocks {heap : Heap} {L : List Extent} (h : heap.Records L) {s n : ℕ}
    (hn : 0 < n)
    (hfit : Extent.FirstFit (EntryFree heap.table.entries) heap.table.total ⟨s, n⟩) :
    ∃ heap', heapMallocBlocks heap n = (heap', heapBlockToAddress heap s) ∧
      heap'.Records (⟨s, n⟩ :: L) ∧ heap.SameFrame heap' := by
  refine ⟨heapMarkBlocksTaken heap s n, ?_, h.mark hfit.inside hfit.all⟩
  rw [heapMallocBlocks, heapGetStartBlock_found hn hfit]

/-- `heap_malloc_blocks` when it returns no memory. -/
lemma heapMallocBlocks_full {heap : Heap} {n : ℕ}
    (hno : 0 < n → ¬ Extent.HasRun (EntryFree heap.table.entries) heap.table.total n)
    (hlast : ∀ j, j + 1 = heap.table.total → ¬ EntryFree heap.table.entries j) :
    heapMallocBlocks heap n = (heap, 0) := by
  rw [heapMallocBlocks, heapGetStartBlock_full hno hlast]

/-- `heap_malloc_blocks` when no run is long enough but the last block is free: the free
blocks at the end are taken for a run that goes on beyond the table. -/
lemma heapMallocBlocks_short {heap : Heap} {n : ℕ}
    (hno : 0 < n → ¬ Extent.HasRun (EntryFree heap.table.entries) heap.table.total n)
    (hlast : ∃ j, j + 1 = heap.table.total ∧ EntryFree heap.table.entries j) :
    ∃ b < heap.table.total, (⟨b, heap.table.total - b⟩ : Extent).All
        (EntryFree heap.table.entries) ∧
      heapMallocBlocks heap n = (heapMarkBlocksTaken heap b n, heapBlockToAddress heap b) := by
  have hres := heapGetStartBlock_result heap n
  generalize hr : heapGetStartBlock heap n = r at hres
  cases hres with
  | found hn h' => exact absurd ⟨_, h'.inside, h'.all⟩ (hno hn)
  | full _ hl =>
    obtain ⟨j, hj, hfree⟩ := hlast
    exact absurd hfree (hl j hj)
  | @short b _ hb htail => exact ⟨b, hb, htail, by rw [heapMallocBlocks, hr]⟩

/-- The distance of an address from the start of the heap, as an unsigned word. -/
def Heap.offset (heap : Heap) (p : Ptr) : ℕ := u32 (p - heap.saddr)

lemma Heap.offset_blockToAddress (heap : Heap) {s : ℕ} (hs : s < 2 ^ 20) :
    heap.offset (heapBlockToAddress heap s) = s * heapBlockSize := by
  simp only [Heap.offset, heapBlockToAddress, heapBlockSize, u32]
  omega

/-- In the lower half of the address range `heap_address_to_block` is the block number. -/
lemma heapAddressToBlock_of_lt {heap : Heap} {p : Ptr} (h : heap.offset p < 2 ^ 31) :
    heapAddressToBlock heap p = ((heap.offset p / heapBlockSize : ℕ) : ℤ) := by
  have hi : i32 (p - heap.saddr) = heap.offset p := by
    simp only [Heap.offset, u32, i32] at *
    rw [Int.bmod_def]
    omega
  rw [heapAddressToBlock, hi]
  rfl

/-- In the upper half it is negative. -/
lemma heapAddressToBlock_of_ge {heap : Heap} {p : Ptr} (h : 2 ^ 31 ≤ heap.offset p)
    (h4 : heap.offset p ≤ 2 ^ 32 - heapBlockSize) : heapAddressToBlock heap p < 0 := by
  have hi : i32 (p - heap.saddr) = heap.offset p - 2 ^ 32 := by
    simp only [Heap.offset, u32, i32] at *
    rw [Int.bmod_def]
    omega
  have hneg : (heap.offset p - 2 ^ 32 : ℤ) = -((2 ^ 32 - heap.offset p : ℕ) : ℤ) := by
    simp only [heapBlockSize] at h4
    omega
  rw [heapAddressToBlock, hi, hneg, Int.neg_tdiv, Int.tdiv_eq_ediv_of_nonneg (by omega)]
  simp only [heapBlockSize] at *
  omega

/-- What `heap_free` of the first block of a recorded extent writes. -/
lemma Heap.Lists.free_written {heap : Heap} {L₁ L₂ : List Extent} {a : Extent} {p : Ptr}
    (h : heap.Lists (L₁ ++ a :: L₂)) (hlen : 0 < a.len)
    (hp : heapAddressToBlock heap p = a.start) :
    Written heap.table (heapFree heap p).table a.start a.len fun _ => entryFree := by
  have hin := h.packed.inside a (by simp)
  rw [heapFree, heapMarkBlocksFree, hp]
  refine markFreeLoop_written a.len _ 0 a.start _ (Nat.zero_add _) hlen (by omega) ?_
  intro l hl
  rw [Nat.zero_add, ← Nat.cast_add]
  exact h.code_eq a (by simp) l hl

/-- `heap_free` of the first block of a recorded extent erases its record. -/
lemma Heap.Lists.free {heap : Heap} {L₁ L₂ : List Extent} {a : Extent} {p : Ptr}
    (h : heap.Lists (L₁ ++ a :: L₂)) (hlen : 0 < a.len)
    (hp : heapAddressToBlock heap p = a.start) : (heapFree heap p).Lists (L₁ ++ L₂) := by
  have hw := h.free_written hlen hp
  rw [Heap.Lists, hw.total_eq]
  refine Encodes.erase h (fun i hi => ?_) fun i _ hi => ?_
  · have h1 := hi.1
    have h2 := hi.2
    have := hw.inside (i - a.start) (by omega)
    rwa [← Nat.cast_add, Nat.add_sub_cancel' h1] at this
  · refine hw.outside i ?_
    by_contra hc
    exact hi ⟨by omega, by omega⟩

lemma Heap.Records.free {heap : Heap} {L₁ L₂ : List Extent} {a : Extent} {p : Ptr}
    (h : heap.Records (L₁ ++ a :: L₂)) (hlen : 0 < a.len)
    (hp : heapAddressToBlock heap p = a.start) :
    (heapFree heap p).Records (L₁ ++ L₂) ∧ heap.SameFrame (heapFree heap p) := by
  have hin := h.encodes.packed.inside a (by simp)
  have hw := Heap.Lists.free_written h.encodes hlen hp
  refine ⟨⟨Heap.Lists.free h.encodes hlen hp, ?_, ?_⟩, rfl, hw.total_eq,
    fun x hx => hw.outside x (by omega)⟩
  · intro x hx
    rw [hw.total_eq]
    rcases (hw.mem_written x).mp hx with hx | hx
    · exact h.written x hx
    · omega
  · rw [hw.total_eq]
    exact h.total_lt

/-- `heap_free` of an address below the heap writes outside the table. -/
lemma mem_written_heapFree {heap : Heap} {p : Ptr} (h : heapAddressToBlock heap p < 0) :
    heapAddressToBlock heap p ∈ (heapFree heap p).table.written := by
  rw [heapFree, heapMarkBlocksFree]
  obtain ⟨k, hk⟩ : ∃ k, (heap.table.total - heapAddressToBlock heap p).toNat = k + 1 :=
    ⟨(heap.table.total - heapAddressToBlock heap p).toNat - 1, by omega⟩
  rw [hk]
  exact mem_written_markFreeLoop k _ _

lemma heapCreate_frame {ptr endPtr : ℕ} {table : HeapTable} {heap : Heap}
    (h : heapCreate ptr endPtr table = .ok heap) :
    heap.saddr = ptr ∧ heap.table.total = table.total := by
  unfold heapCreate at h
  split at h
  · cases h
  · simp only at h
    split at h
    · cases h
    · simp only [Except.ok.injEq] at h
      subst h
      exact ⟨rfl, rfl⟩

/-- A heap fresh from `heap_create` records no allocation. -/
lemma heapCreate_records {ptr endPtr total : ℕ} {entries : ℤ → Entry} {heap : Heap}
    (h : heapCreate ptr endPtr ⟨entries, total, []⟩ = .ok heap) : heap.Records [] := by
  unfold heapCreate at h
  split at h
  · cases h
  · simp only at h
    split at h
    · cases h
    · rename_i hval
      simp only [Except.ok.injEq] at h
      subst h
      have htotal : total = u32 (endPtr - ptr) / heapBlockSize := by
        unfold heapValidateTable at hval
        by_contra hne
        simp [hne, einvarg] at hval
      have hlt := u32_lt (endPtr - ptr)
      refine ⟨⟨Extent.packed_nil _, by simp, fun i hi _ => ?_⟩, ?_, ?_⟩
      · have hi' : i < total := hi
        simp [Heap.block, hi']
      · intro x hx
        simp only [List.nil_append, List.mem_map, List.mem_range] at hx
        obtain ⟨j, hj, rfl⟩ := hx
        simp only [Int.ofNat_eq_natCast]
        omega
      · simp only [heapBlockSize] at *
        omega

end SerpaeOS
