import SerpaeOS.Heap.Accounts

/-!
# Ledgers

A ledger is a way to keep account of the allocations that `kzalloc` and `kfree` keep up.
`Accounts` is one that knows all allocations.  `Holds` is a weaker one: there may be other
allocations, and `kfree` of `NULL` and of error codes, which writes in front of the table,
leaves it as it is.
-/

namespace SerpaeOS

open BlockTable Word Prog

/-- The account `A` of the allocations of a memory, with a run of free blocks, is kept up by
`kzalloc` and `kfree`. -/
structure Ledger (A : KMemory → List Extent → ℕ → Prop) : Prop where
  mono : ∀ {m : KMemory} {L : List Extent} {n k : ℕ}, A m L n → k ≤ n → A m L k
  perm : ∀ {m : KMemory} {L L' : List Extent} {n : ℕ}, A m L n → L.Perm L' → A m L' n
  allocate : ∀ {m : KMemory} {L : List Extent} {n : ℕ}, A m L n → ∀ size, 0 < size →
    blocksFor size ≤ n → Runs (SerpaeOS.allocate size) m fun p m' => IsBlock p ∧
      A m' (extentAt p (blocksFor size) :: L) (n - blocksFor size)
  release : ∀ {m : KMemory} {L : List Extent} {n k : ℕ} {p : Ptr}, A m (extentAt p k :: L) n →
    IsBlock p → 0 < k → Runs (SerpaeOS.release p) m fun _ m' => A m' L n

variable {A : KMemory → List Extent → ℕ → Prop} {m₀ m : KMemory} {X : List Ptr}
  {L L₁ L₂ : List Extent} {n k : ℕ} {p q : Ptr}

lemma accounts_ledger : Ledger (Accounts m₀ X) :=
  ⟨Accounts.mono, Accounts.perm, Accounts.allocate, Accounts.release_head⟩

/-- `kfree` of an allocation in the middle of the account. -/
lemma Ledger.release_middle (hA : Ledger A) (h : A m (L₁ ++ extentAt p k :: L₂) n)
    (hp : IsBlock p) (hk : 0 < k) :
    Runs (SerpaeOS.release p) m fun _ m' => A m' (L₁ ++ L₂) n :=
  hA.release (hA.perm h List.perm_middle) hp hk

/-! ## Freeing what is not a block -/

/-- The index in the table that `kfree` computes for `NULL` and for an error code. -/
def nullBlock : ℤ := -4096

/-- The walk of `kfree` from that index on ends in front of the table. -/
def StopsBefore (entries : ℤ → Entry) : Prop :=
  ∃ j : ℕ, j < 4096 ∧ entries (nullBlock + j) &&& blockHasNext = 0

/-- `NULL` or an error code. -/
def IsCode (p : Ptr) : Prop := ∃ e : ℤ, -8 ≤ e ∧ e ≤ 0 ∧ p = u32 e

lemma isCode_null : IsCode 0 := ⟨0, by decide, le_rfl, rfl⟩

lemma IsCode.addressToBlock {heap : Heap} (h : IsCode p) (hsaddr : heap.saddr = heapAddress) :
    heapAddressToBlock heap p = nullBlock := by
  obtain ⟨e, he, he', rfl⟩ := h
  have hi : i32 ((u32 e : ℕ) - (heapAddress : ℕ)) = -((heapAddress - e).toNat : ℤ) := by
    simp only [i32, u32, heapAddress]
    rw [Int.bmod_def]
    omega
  rw [heapAddressToBlock, hsaddr, hi, Int.neg_tdiv, Int.tdiv_eq_ediv_of_nonneg (by omega)]
  simp only [nullBlock, heapAddress, heapBlockSize]
  omega

/-- A walk does not write in front of its start. -/
lemma markFreeLoop_below (k : ℕ) : ∀ {i x : ℤ} {t : HeapTable}, x < i →
    (markFreeLoop k i t).entries x = t.entries x := by
  induction k with
  | zero => exact fun _ => rfl
  | succ k ih =>
    intro i x t hx
    have hset : (t.set i entryFree).entries x = t.entries x := Function.update_of_ne hx.ne _ _
    rw [markFreeLoop]
    split
    · exact hset
    · exact (ih (by omega)).trans hset

/-- A walk does not write behind the first entry without a successor. -/
lemma markFreeLoop_above (j : ℕ) : ∀ {k : ℕ} {i x : ℤ} {t : HeapTable},
    t.entries (i + j) &&& blockHasNext = 0 → i + j < x →
      (markFreeLoop k i t).entries x = t.entries x := by
  induction j with
  | zero =>
    intro k i x t hstop hx
    cases k with
    | zero => rfl
    | succ k =>
      rw [Nat.cast_zero, add_zero] at hstop hx
      rw [markFreeLoop]
      simp only [hstop, if_true]
      exact Function.update_of_ne hx.ne' _ _
  | succ j ih =>
    intro k i x t hstop hx
    cases k with
    | zero => rfl
    | succ k =>
      have hset : (t.set i entryFree).entries x = t.entries x :=
        Function.update_of_ne (by omega) _ _
      have hnext : (t.set i entryFree).entries (i + 1 + j) = t.entries (i + (j + 1 : ℕ)) := by
        rw [show i + 1 + (j : ℤ) = i + (j + 1 : ℕ) by push_cast; omega]
        exact Function.update_of_ne (by omega) _ _
      rw [markFreeLoop]
      split
      · exact hset
      · exact (ih (by rw [hnext]; exact hstop) (by push_cast at hx; omega)).trans hset

lemma markFreeLoop_self (k : ℕ) (i : ℤ) (t : HeapTable) :
    (markFreeLoop (k + 1) i t).entries i = entryFree := by
  have hset : (t.set i entryFree).entries i = entryFree := Function.update_self _ _ _
  rw [markFreeLoop]
  split
  · exact hset
  · exact (markFreeLoop_below k (by omega)).trans hset

/-- `kfree` of `NULL` or an error code leaves the table as it is. -/
lemma IsCode.free {heap : Heap} (h : IsCode p) (hsaddr : heap.saddr = heapAddress)
    (hstop : StopsBefore heap.table.entries) :
    (∀ i : ℕ, (kfree heap p).table.entries i = heap.table.entries i) ∧
      StopsBefore (kfree heap p).table.entries := by
  obtain ⟨j, hj, hentry⟩ := hstop
  have hsteps : ∃ k, (heap.table.total - nullBlock).toNat = k + 1 :=
    ⟨heap.table.total + 4095, by simp only [nullBlock]; omega⟩
  obtain ⟨k, hk⟩ := hsteps
  have hfree : (kfree heap p).table = markFreeLoop (k + 1) nullBlock heap.table := by
    rw [← hk, kfree, heapFree, h.addressToBlock hsaddr]
    rfl
  rw [hfree]
  refine ⟨fun i => markFreeLoop_above j hentry ?_, 0, by decide, ?_⟩
  · simp only [nullBlock]
    omega
  · rw [Nat.cast_zero, add_zero, markFreeLoop_self]
    rfl

/-! ## The allocations that are held -/

/-- The blocks of the allocations `L` are recorded in the table of the kernel heap, maybe with
others, and a run of `n` blocks is free. -/
structure Holds (m : KMemory) (L : List Extent) (n : ℕ) : Prop where
  saddr_eq : m.heap.saddr = heapAddress
  total_eq : m.heap.table.total = kernelBlocks
  lists : ∃ K, m.heap.Lists (L ++ K) ∧ Roomy (L ++ K) n
  stops : StopsBefore m.heap.table.entries

namespace Holds

lemma mono (h : Holds m L n) (hle : k ≤ n) : Holds m L k := by
  obtain ⟨K, hlists, hroomy⟩ := h.lists
  exact ⟨h.saddr_eq, h.total_eq, ⟨K, hlists, hroomy.mono hle⟩, h.stops⟩

lemma perm {L' : List Extent} (h : Holds m L n) (hperm : L.Perm L') : Holds m L' n := by
  obtain ⟨K, hlists, hroomy⟩ := h.lists
  exact ⟨h.saddr_eq, h.total_eq, ⟨K, hlists.perm (hperm.append_right K),
    hroomy.subset (hperm.append_right K).symm.subset⟩, h.stops⟩

/-- Allocations may be forgotten. -/
lemma drop (h : Holds m (L₁ ++ L) n) : Holds m L n := by
  obtain ⟨K, hlists, hroomy⟩ := h.lists
  have hperm : (L₁ ++ L ++ K).Perm (L ++ (L₁ ++ K)) := by
    rw [← List.append_assoc]
    exact List.perm_append_comm.append_right K
  exact ⟨h.saddr_eq, h.total_eq, ⟨L₁ ++ K, hlists.perm hperm, hroomy.subset hperm.symm.subset⟩,
    h.stops⟩

lemma tail {a : Extent} (h : Holds m (a :: L) n) : Holds m L n := by
  have h' : Holds m ([a] ++ L) n := h
  exact h'.drop

lemma le (h : Holds m L n) : n ≤ kernelBlocks := by
  obtain ⟨K, -, hroomy⟩ := h.lists
  exact hroomy.le

lemma allocate (h : Holds m L n) (size : ℕ) (hpos : 0 < size) (hroom : blocksFor size ≤ n) :
    Runs (SerpaeOS.allocate size) m fun p m' => IsBlock p ∧
      Holds m' (extentAt p (blocksFor size) :: L) (n - blocksFor size) := by
  obtain ⟨K, hlists, hroomy⟩ := h.lists
  have hblocks := blocksFor_pos hpos
  obtain ⟨s, heq, hfit, hroomy'⟩ := hlists.mallocBlocks h.total_eq hroomy hblocks hroom
  have hin := hfit.inside
  simp only at hin
  have hw := heapMarkBlocksTaken_written m.heap s (blocksFor size)
  have haddr : heapBlockToAddress m.heap s = blockAddress s :=
    blockToAddress_eq h.saddr_eq (by omega)
  refine ⟨blockAddress s, ⟨heapMarkBlocksTaken m.heap s (blocksFor size),
    blockAddress s :: m.returned, m.freed⟩, ?_, isBlock_blockAddress s, ?_⟩
  · rw [SerpaeOS.allocate, hroomy.kzalloc_eq hroom, heq, haddr]
  · rw [extentAt_blockAddress]
    refine ⟨h.saddr_eq, hw.total_eq.trans h.total_eq, ⟨K, hlists.mark ?_ hfit.all, hroomy'⟩, ?_⟩
    · rw [h.total_eq]
      exact hin
    · obtain ⟨j, hj, hentry⟩ := h.stops
      refine ⟨j, hj, ?_⟩
      rw [hw.outside _ (Or.inl (by simp only [nullBlock]; omega))]
      exact hentry

lemma release (h : Holds m (extentAt p k :: L) n) (hp : IsBlock p) (hk : 0 < k) :
    Runs (SerpaeOS.release p) m fun _ m' => Holds m' L n := by
  obtain ⟨K, hlists, hroomy⟩ := h.lists
  have hcons : m.heap.Lists ([] ++ extentAt p k :: (L ++ K)) := hlists
  have hin := hlists.packed.inside (extentAt p k) List.mem_cons_self
  rw [h.total_eq] at hin
  have hblock : heapAddressToBlock m.heap p = (extentAt p k).start := by
    have hlt : (extentAt p k).start < kernelBlocks :=
      (Nat.lt_add_of_pos_right hk).trans_le hin
    rw [← addressToBlock_eq h.saddr_eq hlt]
    exact congrArg _ hp
  have hw := hcons.free_written hk hblock
  refine ⟨(), ⟨kfree m.heap p, m.returned, p :: m.freed⟩, rfl, h.saddr_eq,
    hw.total_eq.trans h.total_eq, ⟨K, hcons.free hk hblock, hroomy.subset ?_⟩, ?_⟩
  · exact List.subset_cons_self _ _
  · obtain ⟨j, hj, hentry⟩ := h.stops
    refine ⟨j, hj, ?_⟩
    rw [← hentry]
    refine congrArg (· &&& blockHasNext) (hw.outside _ (Or.inl ?_))
    simp only [nullBlock]
    omega

/-- `kfree` of `NULL` or an error code frees nothing. -/
lemma release_code (h : Holds m L n) (hp : IsCode p) :
    Runs (SerpaeOS.release p) m fun _ m' => Holds m' L n := by
  obtain ⟨K, hlists, hroomy⟩ := h.lists
  obtain ⟨hsame, hstops⟩ := hp.free h.saddr_eq h.stops
  have htotal : (kfree m.heap p).table.total = m.heap.table.total := total_markFreeLoop _ _ _
  refine ⟨(), ⟨kfree m.heap p, m.returned, p :: m.freed⟩, rfl, h.saddr_eq,
    htotal.trans h.total_eq, ⟨K, ?_, hroomy⟩, hstops⟩
  have hblock : (kfree m.heap p).block = m.heap.block := funext hsame
  rw [Heap.Lists, htotal, hblock]
  exact hlists

end Holds

lemma holds_ledger : Ledger Holds :=
  ⟨Holds.mono, Holds.perm, Holds.allocate, Holds.release⟩

end SerpaeOS
