import SerpaeOS.Heap.Pinned
import SerpaeOS.Lib.Bytes

/-!
# Structures that new allocations do not lie over

A structure in blocks that stay taken is not overlapped by a new allocation.  An allocation stays
taken as long as `kfree` is only called for blocks that were free behind it: a walk of `kfree`
that starts there does not leave these blocks, as a free block has no successor.
-/

namespace SerpaeOS

open BlockTable Bytes Word Prog

/-- Blocks outside the set are taken, and the successors of blocks in the set are in the set. -/
structure Confined (F : ℕ → Prop) (m : KMemory) : Prop where
  saddr_eq : m.heap.saddr = heapAddress
  total_eq : m.heap.table.total = kernelBlocks
  stops : StopsBefore m.heap.table.entries
  taken : ∀ i < kernelBlocks, ¬ F i → ¬ EntryFree m.heap.table.entries i
  next : ∀ i : ℕ, F i → m.heap.table.entries i &&& blockHasNext ≠ 0 → i + 1 < kernelBlocks →
    F (i + 1)

/-- The blocks that are free. -/
def blocksFree (m : KMemory) (i : ℕ) : Prop := EntryFree m.heap.table.entries i

/-- The structure begins in the extent, and ends there or behind the heap. -/
structure Houses (a : Extent) (q n : ℕ) : Prop where
  start_le : blockAddress a.start ≤ q
  lt_end : q < blockAddress (a.start + a.len)
  fits : q + n ≤ blockAddress (a.start + a.len) ∨ kernelBlocks ≤ a.start + a.len

/-- As long as the guard holds, the structure lies in blocks that are taken. -/
def Guard.Houses (G : Guard) (q n : ℕ) : Prop :=
  ∃ a, SerpaeOS.Houses a q n ∧ ∀ m, G.holds m → Taken a m

variable {F : ℕ → Prop} {a : Extent} {m m' : KMemory} {p q n size : ℕ}

/-! ## Frees in a set of blocks -/

lemma Confined.free_mem (h : Confined F m) {i : ℕ} (hi : i < kernelBlocks)
    (hfree : EntryFree m.heap.table.entries i) : F i := by
  by_contra hF
  exact h.taken i hi hF hfree

lemma Confined.allocate (h : Confined F m) (size : ℕ) :
    Ends (SerpaeOS.allocate size) m fun p m' =>
      Confined F m' ∧ (IsCode p ∨ ∃ b : ℕ, blockIndex p = b ∧ F b) := by
  intro p m' hrun
  cases ends_allocate h.saddr_eq h.total_eq size p m' hrun with
  | full heap_eq =>
    exact ⟨⟨heap_eq ▸ h.saddr_eq, heap_eq ▸ h.total_eq, heap_eq ▸ h.stops, heap_eq ▸ h.taken,
      heap_eq ▸ h.next⟩, Or.inl isCode_null⟩
  | @marked _ s hs hfree hsaddr hw =>
    generalize requestBlocks size = n at hfree hw
    have hmem : ∀ i, s ≤ i → i < s + max n 1 → i < kernelBlocks → F i := fun i hle hlt hi =>
      h.free_mem hi (hfree i hle hlt hi)
    refine ⟨⟨hsaddr.trans h.saddr_eq, hw.total_eq.trans h.total_eq, ?_, fun i hi hF => ?_,
      fun i hF hnext hi => ?_⟩, Or.inr ⟨s, blockIndex_blockAddress hs, hmem s le_rfl (by omega) hs⟩⟩
    · obtain ⟨j, hj, hentry⟩ := h.stops
      refine ⟨j, hj, ?_⟩
      rw [hw.outside _ (Or.inl (by simp only [nullBlock]; omega))]
      exact hentry
    · have hout : ¬ (s ≤ i ∧ i < s + n) := fun hin => hF (hmem i hin.1 (by omega) hi)
      rw [EntryFree, hw.outside i (by omega)]
      exact h.taken i hi hF
    · by_cases hin : s ≤ i ∧ i < s + n
      · have hcode := hw.inside (i - s) (by omega)
        rw [show (s : ℤ) + (i - s : ℕ) = i by omega] at hcode
        rw [hcode, ne_eq, blockCode_hasNext_iff] at hnext
        exact hmem (i + 1) (by omega) (by omega) hi
      · rw [hw.outside i (by omega)] at hnext
        exact h.next i hF hnext hi

/-- A walk that starts in the set does not leave it. -/
lemma markFreeLoop_confined {N : ℕ} (k : ℕ) : ∀ (i : ℕ) (t : HeapTable), F i → i + k ≤ N →
    (∀ j : ℕ, F j → t.entries j &&& blockHasNext ≠ 0 → j + 1 < N → F (j + 1)) →
    ∀ x : ℤ, (∀ j : ℕ, F j → x ≠ j) → (markFreeLoop k i t).entries x = t.entries x := by
  induction k with
  | zero => exact fun _ _ _ _ _ _ _ => rfl
  | succ k ih =>
    intro i t hi hN hnext x hx
    have hset : (t.set i entryFree).entries x = t.entries x :=
      Function.update_of_ne (hx i hi) _ _
    rw [markFreeLoop]
    split_ifs with hlast
    · exact hset
    rcases k with _ | k
    · exact hset
    refine (ih (i + 1) _ (hnext i hi hlast (by omega)) (by omega) (fun j hj hentry => ?_) x
      hx).trans hset
    by_cases hji : j = i
    · subst hji
      have hfree : (t.set j entryFree).entries j = entryFree := Function.update_self _ _ _
      exact absurd (congrArg (· &&& blockHasNext) hfree) hentry
    · have hsame : (t.set i entryFree).entries j = t.entries j :=
        Function.update_of_ne (by omega) _ _
      exact hnext j hj (hsame ▸ hentry)

lemma Confined.release (h : Confined F m) (hp : IsCode p ∨ ∃ b : ℕ, blockIndex p = b ∧ F b) :
    Ends (SerpaeOS.release p) m fun _ m' => Confined F m' := by
  intro _ m' hrun
  cases hrun
  have htotal : (kfree m.heap p).table.total = kernelBlocks := (kfree_total _ _).trans h.total_eq
  rcases hp with hp | ⟨b, hb, hF⟩
  · obtain ⟨hsame, hstops⟩ := hp.free h.saddr_eq h.stops
    refine ⟨h.saddr_eq, htotal, hstops, fun i hi hF => ?_, fun i hF hnext hi => ?_⟩
    · rw [EntryFree, hsame i]
      exact h.taken i hi hF
    · rw [hsame i] at hnext
      exact h.next i hF hnext hi
  · have hfree : (kfree m.heap p).table = markFreeLoop (m.heap.table.total - b) b m.heap.table := by
      rw [kfree, heapFree, heapMarkBlocksFree, heapAddressToBlock_eq h.saddr_eq, hb,
        Int.toNat_sub]
    have hbound : b + (m.heap.table.total - b) ≤ kernelBlocks ∨ kernelBlocks < b := by
      rw [h.total_eq]
      omega
    have hsame : ∀ x : ℤ, (∀ j : ℕ, F j → x ≠ j) →
        (kfree m.heap p).table.entries x = m.heap.table.entries x := by
      intro x hx
      rw [hfree]
      rcases hbound with hle | hlt
      · exact markFreeLoop_confined _ b _ hF hle h.next x hx
      · rw [h.total_eq, Nat.sub_eq_zero_of_le hlt.le]
        rfl
    refine ⟨h.saddr_eq, htotal, ?_, fun i hi hnot => ?_, fun i hi hnext hlt => ?_⟩
    · obtain ⟨j, hj, hentry⟩ := h.stops
      refine ⟨j, hj, ?_⟩
      rw [hsame _ fun i _ => by simp only [nullBlock]; omega]
      exact hentry
    · rw [EntryFree, hsame i fun j hj heq => hnot (by rwa [Nat.cast_inj.mp heq])]
      exact h.taken i hi hnot
    · refine h.next i hi (fun hzero => hnext ?_) hlt
      exact kfree_hasNext hzero

/-- Only blocks of the set are freed. -/
def confinedGuard (F : ℕ → Prop) : Guard where
  holds := Confined F
  clear p := IsCode p ∨ ∃ b : ℕ, blockIndex p = b ∧ F b
  allocate size := fun _ h => h.allocate size
  release hp := fun _ h => (h.release hp).mono fun _ _ h' => ⟨h', trivial⟩
  code := Or.inl

/-- In a plain heap free blocks have no successor. -/
lemma HeapPlain.confined (h : HeapPlain m) : Confined (blocksFree m) m := by
  refine ⟨h.saddr_eq, h.total_eq, h.stops, fun _ _ hfree => hfree, fun i hfree hnext hi => ?_⟩
  exact absurd (h.last i (by omega) hfree) hnext

/-! ## Structures -/

lemma Houses.pinned (h : Houses a q n) : (pinnedGuard a).Houses q n :=
  ⟨a, h, fun _ h => h.toTaken⟩

/-- The address of the structure is one of the extent. -/
lemma Houses.not_clear (h : Houses a q n) (hin : a.start + a.len ≤ kernelBlocks) : ¬ Clear a q := by
  obtain ⟨hstart, hend, -⟩ := h
  obtain ⟨d, rfl⟩ := Nat.exists_eq_add_of_le hstart
  have hd : (d : ℤ) < a.len * 4096 := by
    simp only [blockAddress, heapBlockSize] at hend
    omega
  have hsub : i32 ((blockAddress a.start + d : ℕ) - heapAddress) = (a.start * 4096 + d : ℕ) := by
    simp only [kernelBlocks, blockAddress, heapAddress, heapBlockSize, i32, Int.bmod_def] at *
    omega
  rw [Clear, blockIndex, hsub, Int.tdiv_eq_ediv_of_nonneg (Int.natCast_nonneg _)]
  simp only [heapBlockSize]
  omega

/-- A new allocation does not lie over a structure in blocks that are taken. -/
lemma Taken.allocate_off (h : Taken a m) (hq : Houses a q n)
    (hsize : size ≤ requestBlocks size * heapBlockSize) (hsmall : size ≤ heapAddress) :
    Ends (SerpaeOS.allocate size) m fun p _ => ¬ Overlap p size q n := by
  intro p m' hrun
  obtain ⟨hstart, -, hend⟩ := hq
  cases ends_allocate h.saddr_eq h.total_eq size p m' hrun with
  | full =>
    rintro ⟨-, hlt⟩
    simp only [blockAddress] at hstart
    omega
  | @marked _ s hs hfree _ _ =>
    generalize requestBlocks size = k at hfree hsize
    have hout := (apart_iff h.pos (by omega)).mp (h.apart hfree)
    rintro ⟨hlt, hlt'⟩
    rcases hout with hout | hout
    · have hle : blockAddress s + size ≤ blockAddress a.start := by
        simp only [blockAddress, heapBlockSize] at *
        omega
      omega
    · rcases hend with hend | hend
      · have hle : blockAddress (a.start + a.len) ≤ blockAddress s := by
          simp only [blockAddress, heapBlockSize]
          omega
        omega
      · omega

lemma Guard.Houses.allocate_off {G : Guard} (h : G.Houses q n) (hm : G.holds m)
    (hsize : size ≤ requestBlocks size * heapBlockSize) (hsmall : size ≤ heapAddress) :
    Ends (SerpaeOS.allocate size) m fun p _ => ¬ Overlap p size q n := by
  obtain ⟨a, hq, ha⟩ := h
  exact (ha m hm).allocate_off hq hsize hsmall

/-- A new allocation lies in blocks that are no longer free. -/
lemma HeapPlain.allocate_houses (h : HeapPlain m) (hpos : 0 < requestBlocks size)
    (hsize : size ≤ requestBlocks size * heapBlockSize) :
    Ends (SerpaeOS.allocate size) m fun p m' => p ≠ 0 →
      (confinedGuard (blocksFree m')).Houses p size := by
  intro p m' hrun hp
  cases ends_allocate h.saddr_eq h.total_eq size p m' hrun with
  | full => exact absurd rfl hp
  | @marked _ s hs _ hsaddr hw =>
    generalize requestBlocks size = k at hpos hsize hw
    refine ⟨⟨s, min k (kernelBlocks - s)⟩, ⟨le_rfl, ?_, ?_⟩, fun m'' hm'' => ?_⟩
    · simp only [blockAddress, heapBlockSize]
      omega
    · rcases le_total k (kernelBlocks - s) with hle | hle
      · left
        simp only [blockAddress, heapBlockSize, min_eq_left hle] at *
        omega
      · right
        simp only [min_eq_right hle]
        omega
    · refine ⟨hm''.saddr_eq, hm''.total_eq, ?_, ?_, fun i hi => ?_⟩
      · simp only
        omega
      · simp only
        omega
      obtain ⟨hle, hlt⟩ := hi
      simp only at hle hlt
      refine hm''.taken i (by omega) ?_
      have hcode := hw.inside (i - s) (by omega)
      rw [show (s : ℤ) + (i - s : ℕ) = i by omega] at hcode
      rw [blocksFree, EntryFree, hcode, heapGetEntryType_blockCode]
      decide

end SerpaeOS
