import SerpaeOS.Heap.Kheap

/-!
# Freeing a list of blocks

`heap_free` walks from the block of its pointer on and frees every entry up to the first one
without a successor.  The walk may start in the middle of an allocation, and at a block that
another walk has freed.  After any number of walks, in whatever order, exactly the blocks are
free that were, and those that lie in an allocation behind the start of a walk.
-/

namespace SerpaeOS

open BlockTable Word

/-- The walk frees the entries up to the first one without a successor. -/
lemma markFreeLoop_walk (j : ℕ) : ∀ {k : ℕ} {i : ℤ} {t : HeapTable}, j < k →
    (∀ l < j, t.entries (i + l) &&& blockHasNext ≠ 0) → t.entries (i + j) &&& blockHasNext = 0 →
      Written t (markFreeLoop k i t) i (j + 1) fun _ => entryFree := by
  induction j with
  | zero =>
    intro k i t hk _ hstop
    obtain ⟨k, rfl⟩ := Nat.exists_eq_add_of_le' hk
    rw [Nat.cast_zero, add_zero] at hstop
    rw [markFreeLoop]
    simp only [hstop, if_true]
    exact Written.cons (Written.nil _ _ _) rfl
  | succ j ih =>
    intro k i t hk hnext hstop
    obtain ⟨k, rfl⟩ := Nat.exists_eq_add_of_le' (Nat.zero_lt_of_lt hk)
    have hfirst := hnext 0 (Nat.succ_pos j)
    rw [Nat.cast_zero, add_zero] at hfirst
    have hset : ∀ l : ℕ, (t.set i entryFree).entries (i + 1 + l) = t.entries (i + (l + 1 : ℕ)) := by
      intro l
      rw [show i + 1 + (l : ℤ) = i + (l + 1 : ℕ) by push_cast; omega]
      exact Function.update_of_ne (by omega) _ _
    rw [markFreeLoop]
    simp only [if_neg hfirst]
    refine Written.cons (ih (by omega) (fun l hl => ?_) ?_) rfl
    · rw [hset]
      exact hnext (l + 1) (by omega)
    · rw [hset]
      exact hstop

/-- A walk only writes from its start on, and in front of the end of the table. -/
lemma of_mem_written_markFreeLoop (k : ℕ) : ∀ {i x : ℤ} {t : HeapTable},
    x ∈ (markFreeLoop k i t).written → x ∈ t.written ∨ i ≤ x ∧ x < i + k := by
  induction k with
  | zero => exact fun h => Or.inl h
  | succ k ih =>
    intro i x t h
    have hset : x ∈ (t.set i entryFree).written → x ∈ t.written ∨ i ≤ x ∧ x < i + (k + 1 : ℕ) := by
      intro hx
      rcases List.mem_append.mp hx with hx | hx
      · exact Or.inl hx
      · rw [List.mem_singleton.mp hx]
        exact Or.inr ⟨le_rfl, by push_cast; omega⟩
    rw [markFreeLoop] at h
    split at h
    · exact hset h
    · rcases ih h with hx | hx
      · exact hset hx
      · exact Or.inr ⟨by omega, by push_cast; omega⟩

/-! ## Walks in a table of allocations -/

variable {heap heap' : Heap} {L : List Extent} {ss : List ℕ} {s b : ℕ} {a : Extent}

/-- The block lies behind one of the blocks `ss` in the same allocation. -/
def Swept (L : List Extent) (ss : List ℕ) (b : ℕ) : Prop :=
  ∃ s ∈ ss, ∃ a ∈ L, a.Covers s ∧ a.Covers b ∧ s ≤ b

/-- The heap with the allocations `L` after walks from the blocks `ss`. -/
structure SweptHeap (heap : Heap) (L : List Extent) (ss : List ℕ) (heap' : Heap) : Prop where
  saddr_eq : heap'.saddr = heap.saddr
  total_eq : heap'.table.total = heap.table.total
  freed : ∀ b < heap.table.total, Swept L ss b → heap'.block b = entryFree
  kept : ∀ b < heap.table.total, ¬ Swept L ss b → heap'.block b = heap.block b

lemma sweptHeap_nil (heap : Heap) (L : List Extent) : SweptHeap heap L [] heap :=
  ⟨rfl, rfl, fun _ _ ⟨_, hs, _⟩ => absurd hs List.not_mem_nil, fun _ _ _ => rfl⟩

/-- Behind a freed block the whole allocation is free. -/
lemma Swept.of_le (h : Swept L ss s) {total : ℕ} (hpacked : Extent.Packed total L) (ha : a ∈ L)
    (has : a.Covers s) (hab : a.Covers b) (hle : s ≤ b) : Swept L ss b := by
  obtain ⟨s', hs', c, hc, hcs', hcs, hle'⟩ := h
  obtain rfl := hpacked.eq_of_covers ha hc has hcs
  exact ⟨s', hs', a, ha, hcs', hab, hle'.trans hle⟩

lemma swept_cons : Swept L (s :: ss) b ↔
    (∃ a ∈ L, a.Covers s ∧ a.Covers b ∧ s ≤ b) ∨ Swept L ss b := by
  simp only [Swept, List.mem_cons, or_and_right, exists_or, exists_eq_left]

/-- The order of the walks does not matter. -/
lemma SweptHeap.congr (h : SweptHeap heap L ss heap') {ss' : List ℕ}
    (hmem : ∀ s, s ∈ ss ↔ s ∈ ss') : SweptHeap heap L ss' heap' := by
  have hswept : ∀ b, Swept L ss b ↔ Swept L ss' b := fun b =>
    exists_congr fun s => and_congr_left' (hmem s)
  exact ⟨h.saddr_eq, h.total_eq, fun b hb hs => h.freed b hb ((hswept b).mpr hs),
    fun b hb hs => h.kept b hb (mt (hswept b).mp hs)⟩

/-- An entry of an allocation has a successor unless it was freed or is the last one. -/
lemma SweptHeap.hasNext_iff (h : SweptHeap heap L ss heap') (hlists : heap.Lists L) (ha : a ∈ L)
    (hab : a.Covers b) : heap'.block b &&& blockHasNext = 0 ↔
      Swept L ss b ∨ b + 1 = a.start + a.len := by
  have hlt : b < heap.table.total := hab.2.trans_le (hlists.packed.inside a ha)
  obtain ⟨hstart, hend⟩ := hab
  by_cases hswept : Swept L ss b
  · rw [h.freed b hlt hswept]
    exact iff_of_true rfl (Or.inl hswept)
  · rw [h.kept b hlt hswept, hlists.code_of_covers ha ⟨hstart, hend⟩, blockCode_hasNext_iff,
      or_iff_right hswept]
    omega

/-- The walk from a block of an allocation frees the rest of the allocation. -/
lemma SweptHeap.walk (h : SweptHeap heap L ss heap') (hlists : heap.Lists L) (ha : a ∈ L)
    (has : a.Covers s) {p : Ptr} (hp : heapAddressToBlock heap' p = s) :
    SweptHeap heap L (s :: ss) (kfree heap' p) := by
  have hin := hlists.packed.inside a ha
  -- the first entry without a successor
  have hex : ∃ j, heap'.block (s + j) &&& blockHasNext = 0 := by
    have hle : s ≤ a.start + a.len - 1 := by
      have := has.2
      omega
    obtain ⟨j, hj⟩ := Nat.exists_eq_add_of_le hle
    have hlast : a.Covers (s + j) := ⟨has.1.trans (Nat.le_add_right s j), by have := has.2; omega⟩
    exact ⟨j, (h.hasNext_iff hlists ha hlast).mpr (Or.inr (by have := has.2; omega))⟩
  obtain ⟨j, hstop, hnext⟩ : ∃ j, heap'.block (s + j) &&& blockHasNext = 0 ∧
      ∀ l < j, heap'.block (s + l) &&& blockHasNext ≠ 0 :=
    ⟨Nat.find hex, Nat.find_spec hex, fun l hl => Nat.find_min hex hl⟩
  have hcovers : ∀ l ≤ j, a.Covers (s + l) := by
    intro l
    induction l with
    | zero => exact fun _ => has
    | succ l ih =>
      intro hl
      have hl' := ih (Nat.le_of_succ_le hl)
      have hmore := mt (h.hasNext_iff hlists ha hl').mpr (hnext l hl)
      rw [not_or] at hmore
      exact ⟨hl'.1.trans (by omega), by have := hl'.2; omega⟩
  have hj := (hcovers j le_rfl).2
  have hw : Written heap'.table (kfree heap' p).table s (j + 1) fun _ => entryFree := by
    rw [kfree, heapFree, heapMarkBlocksFree, hp]
    refine markFreeLoop_walk j (by rw [h.total_eq]; omega) (fun l hl => ?_) ?_
    · exact hnext l hl
    · exact hstop
  have hblock : ∀ b, (kfree heap' p).block b = if s ≤ b ∧ b ≤ s + j then entryFree
      else heap'.block b := by
    intro b
    by_cases hb : s ≤ b ∧ b ≤ s + j
    · obtain ⟨l, rfl⟩ := Nat.exists_eq_add_of_le hb.1
      rw [if_pos hb]
      exact hw.inside l (by omega)
    · rw [if_neg hb]
      exact hw.outside b (by omega)
  refine ⟨h.saddr_eq, hw.total_eq.trans h.total_eq, fun b hb hswept => ?_, fun b hb hswept => ?_⟩
  · rw [hblock]
    by_cases hin : s ≤ b ∧ b ≤ s + j
    · rw [if_pos hin]
    · rw [if_neg hin]
      refine h.freed b hb ?_
      rcases swept_cons.mp hswept with ⟨c, hc, hcs, hcb, hle⟩ | hswept
      · -- the walk has stopped at a block that was free
        obtain rfl := hlists.packed.eq_of_covers ha hc has hcs
        rcases (h.hasNext_iff hlists ha (hcovers j le_rfl)).mp hstop with hfreed | hlast
        · exact hfreed.of_le hlists.packed ha (hcovers j le_rfl) hcb (by omega)
        · exact absurd hcb.2 (by omega)
      · exact hswept
  · rw [swept_cons, not_or] at hswept
    have hout : ¬ (s ≤ b ∧ b ≤ s + j) := by
      intro hin
      obtain ⟨l, rfl⟩ := Nat.exists_eq_add_of_le hin.1
      exact hswept.1 ⟨a, ha, has, hcovers l (by omega), hin.1⟩
    rw [hblock, if_neg hout]
    exact h.kept b hb hswept.2

/-- The walk from a block of no allocation changes nothing. -/
lemma SweptHeap.walk_free (h : SweptHeap heap L ss heap') (hlists : heap.Lists L)
    (hs : s < heap.table.total) (hfree : ¬ Extent.Covered L s) {p : Ptr}
    (hp : heapAddressToBlock heap' p = s) : SweptHeap heap L (s :: ss) (kfree heap' p) := by
  have hnone : ∀ b, ¬ ∃ a ∈ L, a.Covers s ∧ a.Covers b ∧ s ≤ b :=
    fun b ⟨a, ha, has, _⟩ => hfree ⟨a, ha, has⟩
  have hentry : heap'.block s = entryFree := by
    have hnot : ¬ Swept L ss s := fun ⟨_, _, a, ha, _, has, _⟩ => hfree ⟨a, ha, has⟩
    rw [h.kept s hs hnot]
    exact hlists.free_eq s hs hfree
  have hw : Written heap'.table (kfree heap' p).table s (0 + 1) fun _ => entryFree := by
    rw [kfree, heapFree, heapMarkBlocksFree, hp]
    refine markFreeLoop_walk 0 (by rw [h.total_eq]; omega) (fun l hl => absurd hl l.not_lt_zero) ?_
    rw [Nat.cast_zero, add_zero]
    exact congrArg (· &&& blockHasNext) hentry
  have hblock : (kfree heap' p).block = heap'.block := by
    funext b
    by_cases hb : b = s
    · rw [hb, hentry]
      exact hw.inside 0 Nat.one_pos
    · exact hw.outside b (by omega)
  refine ⟨h.saddr_eq, hw.total_eq.trans h.total_eq, fun b hb hswept => ?_, fun b hb hswept => ?_⟩
  · rw [hblock]
    exact h.freed b hb ((swept_cons.mp hswept).resolve_left (hnone b))
  · rw [hblock]
    exact h.kept b hb fun hswept' => hswept (swept_cons.mpr (Or.inr hswept'))

/-! ## Freeing the kernel's blocks -/

/-- A call of `kfree` for each of the pointers. -/
def kfreeAll (heap : Heap) (ps : List Ptr) : Heap := ps.foldl kfree heap

/-- Freeing a list of blocks of the kernel heap. -/
lemma SweptHeap.kfreeAll (hsaddr : heap.saddr = heapAddress)
    (htotal : heap.table.total = kernelBlocks) (hlists : heap.Lists L) (blocks : List ℕ)
    (hblocks : ∀ s ∈ blocks, s < kernelBlocks) :
    ∀ {ss : List ℕ} {heap' : Heap}, SweptHeap heap L ss heap' →
      SweptHeap heap L (blocks.reverse ++ ss)
        (SerpaeOS.kfreeAll heap' (blocks.map blockAddress)) := by
  induction blocks with
  | nil => exact fun h => h
  | cons s blocks ih =>
    intro ss heap' h
    have hs := hblocks s List.mem_cons_self
    have hp := addressToBlock_eq (h.saddr_eq.trans hsaddr) hs
    have hstep : SweptHeap heap L (s :: ss) (kfree heap' (blockAddress s)) := by
      by_cases hcov : Extent.Covered L s
      · obtain ⟨a, ha, has⟩ := hcov
        exact h.walk hlists ha has hp
      · exact h.walk_free hlists (htotal ▸ hs) hcov hp
    rw [List.reverse_cons, List.append_assoc]
    exact ih (fun s' hs' => hblocks s' (List.mem_cons_of_mem s hs')) hstep

/-- Only entries of the table are written if no pointer lies in front of the heap. -/
lemma kfreeAll_written (ps : List Ptr) : ∀ {heap : Heap},
    (∀ p ∈ ps, 0 ≤ heapAddressToBlock heap p) →
      (∀ x ∈ heap.table.written, 0 ≤ x ∧ x < heap.table.total) →
      ∀ x ∈ (kfreeAll heap ps).table.written, 0 ≤ x ∧ x < heap.table.total := by
  induction ps with
  | nil => exact fun _ h => h
  | cons p ps ih =>
    intro heap hps hwritten
    have hp := hps p List.mem_cons_self
    have htotal : (kfree heap p).table.total = heap.table.total := total_markFreeLoop _ _ _
    have hstep : ∀ x ∈ (kfree heap p).table.written, 0 ≤ x ∧ x < (kfree heap p).table.total := by
      intro x hx
      rw [htotal]
      rcases of_mem_written_markFreeLoop _ hx with hx | hx
      · exact hwritten x hx
      · omega
    rw [← htotal]
    exact ih (fun q hq => hps q (List.mem_cons_of_mem p hq)) hstep

/-- What was written before stays in the record. -/
lemma written_subset_kfreeAll (ps : List Ptr) : ∀ {heap : Heap}, ∀ x ∈ heap.table.written,
    x ∈ (kfreeAll heap ps).table.written := by
  induction ps with
  | nil => exact fun _ h => h
  | cons p ps ih => exact fun x hx => ih x (written_subset_markFreeLoop _ _ _ x hx)

/-- A pointer in front of the heap makes `kfree` write in front of the table. -/
lemma exists_written_kfreeAll (ps : List Ptr) : ∀ {heap : Heap} {p : Ptr}, p ∈ ps →
    heapAddressToBlock heap p < 0 →
      heapAddressToBlock heap p ∈ (kfreeAll heap ps).table.written := by
  induction ps with
  | nil => exact fun hp => absurd hp List.not_mem_nil
  | cons q ps ih =>
    intro heap p hp hneg
    rcases List.mem_cons.mp hp with rfl | hp
    · exact written_subset_kfreeAll ps _ (mem_written_heapFree hneg)
    · exact @ih (kfree heap q) p hp hneg

end SerpaeOS
