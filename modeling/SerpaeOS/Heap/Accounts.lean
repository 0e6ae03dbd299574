import SerpaeOS.Heap.Kheap
import SerpaeOS.Lib.Prog

/-!
# Accounts of kernel memory

A function of the kernel takes blocks of memory and gives them back.  Its memory is the
kernel heap, together with a record of the pointers that `kzalloc` has returned and of those
that `kfree` was applied to.  `Accounts` says which allocations there are; the rules for
`kzalloc` and `kfree` keep the account.
-/

namespace SerpaeOS

open BlockTable Prog

/-- The kernel heap, with the pointers returned and freed so far. -/
structure KMemory where
  heap : Heap
  returned : List Ptr
  freed : List Ptr

/-- A program of the kernel over its memory; it is stuck where the code would use a `NULL`
pointer or memory that has been freed. -/
abbrev KProg := StateT KMemory Option

/-- A call of `kzalloc`. -/
def allocate (size : ℕ) : KProg Ptr := fun m =>
  let r := kzalloc m.heap size
  some (r.2, { m with heap := r.1, returned := r.2 :: m.returned })

/-- A call of `kfree`. -/
def release (p : Ptr) : KProg Unit := fun m =>
  some ((), { m with heap := kfree m.heap p, freed := p :: m.freed })

/-! ## Room -/

/-- There is a run of `n` blocks outside of the allocations. -/
def Roomy (L : List Extent) (n : ℕ) : Prop :=
  Extent.HasRun (fun i => ¬ Extent.Covered L i) kernelBlocks n

lemma Roomy.mono {L : List Extent} {n m : ℕ} (h : Roomy L n) (hle : m ≤ n) : Roomy L m := by
  obtain ⟨s, hin, hall⟩ := h
  refine ⟨s, by omega, fun i hi => hall i ⟨hi.1, ?_⟩⟩
  have := hi.2
  simp only at this ⊢
  omega

lemma Roomy.le {L : List Extent} {n : ℕ} (h : Roomy L n) : n ≤ kernelBlocks := by
  obtain ⟨s, hin, -⟩ := h
  omega

/-- Fewer allocations leave more room. -/
lemma Roomy.subset {L L' : List Extent} {n : ℕ} (h : Roomy L n) (hsub : L' ⊆ L) :
    Roomy L' n := by
  obtain ⟨s, hin, hall⟩ := h
  refine ⟨s, hin, fun i hi hcov => hall i hi ?_⟩
  obtain ⟨a, ha, hai⟩ := hcov
  exact ⟨a, hsub ha, hai⟩

/-- The first run of free blocks takes at most its own length from another one. -/
lemma Roomy.cons {L : List Extent} {s n m : ℕ} (h : Roomy L m) (hle : n ≤ m)
    (hfit : Extent.FirstFit (fun i => ¬ Extent.Covered L i) kernelBlocks ⟨s, n⟩) :
    Roomy (⟨s, n⟩ :: L) (m - n) := by
  obtain ⟨a, hin, hall⟩ := h
  -- the first run does not start behind the other one
  have hsa : s ≤ a := by
    by_contra hlt
    refine hfit.first a (by simp only; omega) fun i hi => hall i ⟨hi.1, ?_⟩
    have := hi.2
    simp only at this ⊢
    omega
  refine ⟨max a (s + n), by omega, fun i hi hcov => ?_⟩
  have h1 := hi.1
  have h2 := hi.2
  simp only at h1 h2
  obtain ⟨b, hb, hbi⟩ := hcov
  rcases List.mem_cons.mp hb with rfl | hb
  · have := hbi.2
    simp only at this
    omega
  · refine hall i ⟨?_, ?_⟩ ⟨b, hb, hbi⟩
    · simp only
      omega
    · simp only
      omega

/-! ## Accounts -/

/-- The allocation of `n` blocks at an address. -/
def extentAt (p : Ptr) (n : ℕ) : Extent := ⟨(p - heapAddress) / heapBlockSize, n⟩

/-- The address of a block. -/
def IsBlock (p : Ptr) : Prop := p = blockAddress ((p - heapAddress) / heapBlockSize)

lemma extentAt_blockAddress (s n : ℕ) : extentAt (blockAddress s) n = ⟨s, n⟩ := by
  rw [extentAt, blockAddress, Nat.add_sub_cancel_left, Nat.mul_div_cancel _ (by decide)]

lemma isBlock_blockAddress (s : ℕ) : IsBlock (blockAddress s) := by
  have hs : (blockAddress s - heapAddress) / heapBlockSize = s := by
    rw [blockAddress, Nat.add_sub_cancel_left, Nat.mul_div_cancel _ (by decide)]
  rw [IsBlock, hs]

lemma IsBlock.ne_zero {p : ℕ} (h : IsBlock p) : p ≠ 0 := by
  rw [h]
  exact blockAddress_ne_zero _

/-- Since the memory was `m₀`, only the table of the heap has changed; it records the
allocations and leaves a run of `n` blocks; `kfree` was applied to pointers that `kzalloc`
had returned, and to those in `X`. -/
structure Accounts (m₀ : KMemory) (X : List Ptr) (m : KMemory) (L : List Extent) (n : ℕ) :
    Prop where
  kernelHeap : KernelHeap m.heap L
  frame : m₀.heap.SameFrame m.heap
  roomy : Roomy L n
  known : ∀ e ∈ L, blockAddress e.start ∈ m.returned
  freed_ok : ∃ F, m.freed = F ++ m₀.freed ∧ ∀ p ∈ F, p ∈ m.returned ∨ p ∈ X

variable {m₀ m : KMemory} {X : List Ptr} {L L₁ L₂ : List Extent} {n : ℕ}

/-- The account of a memory at the beginning. -/
lemma accounts_refl (hheap : KernelHeap m.heap L) (hroomy : Roomy L n)
    (hknown : ∀ e ∈ L, blockAddress e.start ∈ m.returned) : Accounts m X m L n :=
  ⟨hheap, Heap.SameFrame.refl _, hroomy, hknown, [], rfl, fun _ hp => absurd hp (by simp)⟩

lemma Accounts.mono {n' : ℕ} (h : Accounts m₀ X m L n) (hle : n' ≤ n) : Accounts m₀ X m L n' :=
  ⟨h.kernelHeap, h.frame, h.roomy.mono hle, h.known, h.freed_ok⟩

lemma Accounts.weaken {Y : List Ptr} (h : Accounts m₀ X m L n) (hsub : X ⊆ Y) :
    Accounts m₀ Y m L n := by
  obtain ⟨F, hF, hmem⟩ := h.freed_ok
  exact ⟨h.kernelHeap, h.frame, h.roomy, h.known, F, hF,
    fun p hp => (hmem p hp).imp_right fun hX => hsub hX⟩

/-- The order of the allocations in an account does not matter. -/
lemma Accounts.perm {L' : List Extent} (h : Accounts m₀ X m L n) (hperm : L.Perm L') :
    Accounts m₀ X m L' n := by
  have hrec := h.kernelHeap.records
  exact ⟨⟨h.kernelHeap.saddr_eq, h.kernelHeap.total_eq, hrec.encodes.perm hperm, hrec.written,
    hrec.total_lt⟩, h.frame, h.roomy.subset hperm.symm.subset,
    fun e he => h.known e (hperm.symm.subset he), h.freed_ok⟩

/-- With enough room `heap_malloc_blocks` takes the first run of free blocks. -/
lemma Heap.Lists.mallocBlocks {heap : Heap} (h : heap.Lists L)
    (htotal : heap.table.total = kernelBlocks)
    (hroomy : Roomy L n) {k : ℕ} (hpos : 0 < k) (hk : k ≤ n) :
    ∃ s, heapMallocBlocks heap k = (heapMarkBlocksTaken heap s k, heapBlockToAddress heap s) ∧
      Extent.FirstFit (EntryFree heap.table.entries) kernelBlocks ⟨s, k⟩ ∧
      Roomy (⟨s, k⟩ :: L) (n - k) := by
  have hfree : ∀ i < kernelBlocks, EntryFree heap.table.entries i ↔ ¬ Extent.Covered L i :=
    fun i hi => h.entryFree_iff (by rw [htotal]; exact hi)
  have hrun : Extent.HasRun (EntryFree heap.table.entries) kernelBlocks k := by
    obtain ⟨a, hin, hall⟩ := hroomy.mono hk
    refine ⟨a, hin, fun i hi => (hfree i ?_).mpr (hall i hi)⟩
    have := hi.2
    simp only at this
    omega
  have hres := heapGetStartBlock_result heap k
  rw [htotal] at hres
  generalize hr : heapGetStartBlock heap k = res at hres
  cases hres with
  | @found s hn hfit =>
    have hin := hfit.inside
    simp only at hin
    refine ⟨s, by rw [heapMallocBlocks, hr], hfit, hroomy.cons hk ⟨hfit.inside, ?_, ?_⟩⟩
    · refine fun i hi => (hfree i ?_).mp (hfit.all i hi)
      have := hi.2
      simp only at this
      omega
    · refine fun a ha hall => hfit.first a ha fun i hi => (hfree i ?_).mpr (hall i hi)
      have := hi.2
      simp only at this ha
      omega
  | full hno _ => exact absurd hrun (hno hpos)
  | short hno _ _ => exact absurd hrun (hno hpos)

/-- A size with enough room for it is rounded up without overflow. -/
lemma Roomy.kzalloc_eq {heap : Heap} (h : Roomy L n) {size : ℕ} (hroom : blocksFor size ≤ n) :
    kzalloc heap size = heapMallocBlocks heap (blocksFor size) := by
  refine heapMalloc_eq heap ?_
  have hle := h.le
  simp only [blocksFor, kernelBlocks, heapBlockSize] at *
  omega

/-- `kzalloc` with enough room takes a new extent. -/
lemma Accounts.allocate (h : Accounts m₀ X m L n) (size : ℕ) (hpos : 0 < size)
    (hroom : blocksFor size ≤ n) :
    Runs (SerpaeOS.allocate size) m fun p m' => IsBlock p ∧
      Accounts m₀ X m' (extentAt p (blocksFor size) :: L) (n - blocksFor size) := by
  have henc := h.kernelHeap.records.encodes
  obtain ⟨s, heq, hfit, hroomy⟩ := Heap.Lists.mallocBlocks henc h.kernelHeap.total_eq h.roomy
    (blocksFor_pos hpos) hroom
  have hin := hfit.inside
  simp only at hin
  have haddr : heapBlockToAddress m.heap s = blockAddress s := h.kernelHeap.blockToAddress
    (by have := blocksFor_pos hpos; omega)
  obtain ⟨hrec, hf⟩ := h.kernelHeap.records.mark (by rw [h.kernelHeap.total_eq]; exact hin) hfit.all
  refine ⟨blockAddress s, ⟨heapMarkBlocksTaken m.heap s (blocksFor size),
    blockAddress s :: m.returned, m.freed⟩, ?_, isBlock_blockAddress s, ?_⟩
  · rw [SerpaeOS.allocate, h.roomy.kzalloc_eq hroom, heq, haddr]
  · rw [extentAt_blockAddress]
    refine ⟨⟨hf.saddr_eq.trans h.kernelHeap.saddr_eq, hf.total_eq.trans h.kernelHeap.total_eq,
      hrec⟩, h.frame.trans hf, hroomy, ?_, ?_⟩
    · intro e he
      rcases List.mem_cons.mp he with rfl | he
      · exact List.mem_cons_self
      · exact List.mem_cons_of_mem _ (h.known e he)
    · obtain ⟨F, hF, hmem⟩ := h.freed_ok
      refine ⟨F, hF, fun p hp => ?_⟩
      rcases hmem p hp with hp | hp
      · exact Or.inl (List.mem_cons_of_mem _ hp)
      · exact Or.inr hp

/-- `kfree` of an allocation. -/
lemma Accounts.release {p : Ptr} {k : ℕ} (h : Accounts m₀ X m (L₁ ++ extentAt p k :: L₂) n)
    (hp : IsBlock p) (hk : 0 < k) :
    Runs (SerpaeOS.release p) m fun _ m' => Accounts m₀ X m' (L₁ ++ L₂) n := by
  have hfree := h.kernelHeap.kfree hk
  rw [← hp] at hfree
  obtain ⟨hheap, hf⟩ := hfree
  have hsub : L₁ ++ L₂ ⊆ L₁ ++ extentAt p k :: L₂ :=
    (List.Sublist.append_left (List.sublist_cons_self _ _) L₁).subset
  have hmem : p ∈ m.returned := by
    have := h.known (extentAt p k) (by simp)
    rwa [extentAt, ← hp] at this
  obtain ⟨F, hF, hok⟩ := h.freed_ok
  refine ⟨(), ⟨kfree m.heap p, m.returned, p :: m.freed⟩, rfl, hheap, h.frame.trans hf,
    h.roomy.subset hsub, fun e he => h.known e (hsub he), p :: F, by rw [hF, List.cons_append],
    fun q hq => ?_⟩
  rcases List.mem_cons.mp hq with rfl | hq
  · exact Or.inl hmem
  · exact hok q hq

/-- `kfree` of the last allocation. -/
lemma Accounts.release_head {p : Ptr} {k : ℕ} (h : Accounts m₀ X m (extentAt p k :: L) n)
    (hp : IsBlock p) (hk : 0 < k) :
    Runs (SerpaeOS.release p) m fun _ m' => Accounts m₀ X m' L n := by
  have h' : Accounts m₀ X m ([] ++ extentAt p k :: L) n := h
  exact h'.release hp hk

/-- `kfree` of a pointer into the first block of an allocation. -/
lemma Accounts.release_inside {p q k : ℕ}
    (h : Accounts m₀ X m (L₁ ++ extentAt p k :: L₂) n) (hp : IsBlock p) (hk : 0 < k)
    (hq : q ∈ X) (hpq : p ≤ q) (hlt : q < p + heapBlockSize) :
    Runs (SerpaeOS.release q) m fun _ m' => Accounts m₀ X m' (L₁ ++ L₂) n := by
  have hin := h.kernelHeap.records.encodes.packed.inside (extentAt p k) (by simp)
  rw [h.kernelHeap.total_eq] at hin
  simp only [extentAt] at hin
  generalize hs : (p - heapAddress) / heapBlockSize = s at hin
  have hps : p = blockAddress s := by rw [← hs]; exact hp
  have hfree := h.kernelHeap.kfree hk
  rw [hs] at hfree
  -- the pointer leads to the same block
  have hoff : m.heap.offset q = s * heapBlockSize + (q - p) := by
    have hcast : (q : ℤ) - (heapAddress : ℕ) = ((s * heapBlockSize + (q - p) : ℕ) : ℤ) := by
      rw [hps] at hpq ⊢
      simp only [blockAddress, heapAddress, heapBlockSize] at hpq ⊢
      omega
    rw [Heap.offset, h.kernelHeap.saddr_eq, hcast, Word.u32_of_lt]
    simp only [kernelBlocks, heapBlockSize] at *
    omega
  have hblock : heapAddressToBlock m.heap q = heapAddressToBlock m.heap (blockAddress s) := by
    rw [h.kernelHeap.addressToBlock (by omega), heapAddressToBlock_of_lt, hoff]
    · simp only [heapBlockSize] at hlt ⊢
      omega
    · rw [hoff]
      simp only [kernelBlocks, heapBlockSize] at *
      omega
  have heq : kfree m.heap q = kfree m.heap (blockAddress s) := by
    rw [kfree, kfree, heapFree, heapFree, hblock]
  obtain ⟨hheap, hf⟩ := hfree
  have hsub : L₁ ++ L₂ ⊆ L₁ ++ extentAt p k :: L₂ :=
    (List.Sublist.append_left (List.sublist_cons_self _ _) L₁).subset
  obtain ⟨F, hF, hok⟩ := h.freed_ok
  refine ⟨(), ⟨kfree m.heap q, m.returned, q :: m.freed⟩, rfl, ?_, ?_, h.roomy.subset hsub,
    fun e he => h.known e (hsub he), q :: F, by rw [hF, List.cons_append], fun x hx => ?_⟩
  · rw [heq]
    exact hheap
  · rw [heq]
    exact h.frame.trans hf
  · rcases List.mem_cons.mp hx with rfl | hx
    · exact Or.inr hq
    · exact hok x hx

/-! ## Comparing two memories -/

/-- An allocation does not meet the others. -/
lemma Accounts.not_covered {a : Extent} (h : Accounts m₀ X m (L₁ ++ a :: L₂) n)
    (hpos : 0 < a.len) : ¬ Extent.Covered (L₁ ++ L₂) a.start := by
  rintro ⟨e, he, hcov⟩
  refine h.kernelHeap.records.encodes.packed.apart_of_mem_append he a.start ⟨⟨le_rfl, ?_⟩, hcov⟩
  omega

/-- The block at the address is in none of the allocations. -/
def FreshBlock (L : List Extent) (p : Ptr) : Prop := ¬ Extent.Covered L (extentAt p 1).start

lemma FreshBlock.subset {p : Ptr} (h : FreshBlock L p) (hsub : L₁ ⊆ L) : FreshBlock L₁ p := by
  rintro ⟨e, he, hcov⟩
  exact h ⟨e, hsub he, hcov⟩

lemma Accounts.freshBlock {p : Ptr} (h : Accounts m₀ X m (L₁ ++ extentAt p 1 :: L₂) n) :
    FreshBlock (L₁ ++ L₂) p :=
  h.not_covered (Nat.one_pos : 0 < (extentAt p 1).len)

/-- With the same allocations the table is the same. -/
lemma Accounts.entries_eq {L₀ : List Extent} (h : Accounts m₀ X m L n)
    (h₀ : KernelHeap m₀.heap L₀) (hmem : ∀ a, a ∈ L₀ ↔ a ∈ L) :
    m.heap.table.entries = m₀.heap.table.entries :=
  h.frame.entries_eq_of_records h₀.records h.kernelHeap.records hmem

/-- When the tables are the same, the same blocks are taken. -/
lemma Accounts.covered_iff {L₀ : List Extent} (h : Accounts m₀ X m L n)
    (h₀ : KernelHeap m₀.heap L₀) (heq : m.heap.table.entries = m₀.heap.table.entries) {i : ℕ}
    (hi : i < kernelBlocks) : Extent.Covered L i ↔ Extent.Covered L₀ i := by
  rw [← h.kernelHeap.records.taken_iff (by rw [h.kernelHeap.total_eq]; exact hi), heq,
    h₀.records.taken_iff (by rw [h₀.total_eq]; exact hi)]

/-- A block that is taken only once of the two times shows in the table. -/
lemma Accounts.entries_ne {L₀ : List Extent} (h : Accounts m₀ X m L n)
    (h₀ : KernelHeap m₀.heap L₀) {a : Extent} (ha : a ∈ L) (hpos : 0 < a.len)
    (hcov : ¬ Extent.Covered L₀ a.start) : m.heap.table.entries ≠ m₀.heap.table.entries := by
  intro heq
  have hin := h.kernelHeap.records.encodes.packed.inside a ha
  rw [h.kernelHeap.total_eq] at hin
  refine hcov ((h.covered_iff h₀ heq (by omega)).mp ⟨a, ha, le_rfl, ?_⟩)
  omega

lemma Accounts.entries_ne_of_freed {L₀ : List Extent} (h : Accounts m₀ X m L n)
    (h₀ : KernelHeap m₀.heap L₀) {a : Extent} (ha : a ∈ L₀) (hpos : 0 < a.len)
    (hcov : ¬ Extent.Covered L a.start) : m.heap.table.entries ≠ m₀.heap.table.entries := by
  intro heq
  have hin := h₀.records.encodes.packed.inside a ha
  rw [h₀.total_eq] at hin
  refine hcov ((h.covered_iff h₀ heq (by omega)).mpr ⟨a, ha, le_rfl, ?_⟩)
  omega

/-! ## The record of pointers -/

/-- The heap of the memory is where the kernel heap is, and its record goes on from that of
`m₀` with pointers below `2 ^ 31`. -/
structure Recorded (m₀ m : KMemory) : Prop where
  saddr_eq : m.heap.saddr = heapAddress
  total_eq : m.heap.table.total = kernelBlocks
  returned_lt : ∀ p ∈ m.returned, p < 2 ^ 31
  freed_eq : ∃ F, m.freed = F ++ m₀.freed

/-- `kzalloc` returns `NULL` or the address of a block, also when there is no room. -/
lemma kzalloc_lt {heap : Heap} (hsaddr : heap.saddr = heapAddress)
    (htotal : heap.table.total = kernelBlocks) (size : ℕ) : (kzalloc heap size).2 < 2 ^ 31 ∧
      (kzalloc heap size).1.saddr = heapAddress ∧
      (kzalloc heap size).1.table.total = kernelBlocks := by
  have haddr : ∀ s < kernelBlocks, heapBlockToAddress heap s < 2 ^ 31 := by
    intro s hs
    have hlt : heapAddress + s * heapBlockSize < 2 ^ 31 := by
      simp only [kernelBlocks, heapAddress, heapBlockSize] at hs ⊢
      omega
    rw [heapBlockToAddress, hsaddr]
    exact (Nat.mod_le _ _).trans_lt hlt
  rw [kzalloc, kmalloc, heapMalloc]
  generalize heapAlignValueToUpper size / heapBlockSize = blocks
  have hres := heapGetStartBlock_result heap blocks
  rw [heapMallocBlocks]
  generalize heapGetStartBlock heap blocks = r at hres
  cases hres with
  | @found s hn hfit =>
    have hin := hfit.inside
    simp only [htotal] at hin
    exact ⟨haddr s (by omega), hsaddr,
      (heapMarkBlocksTaken_written heap s blocks).total_eq.trans htotal⟩
  | full => exact ⟨Nat.two_pow_pos 31, hsaddr, htotal⟩
  | @short s _ hs _ =>
    exact ⟨haddr s (by omega), hsaddr,
      (heapMarkBlocksTaken_written heap s blocks).total_eq.trans htotal⟩

/-- Some block of the heap is free. -/
def HasFreeBlock (heap : Heap) : Prop :=
  ∃ i < heap.table.total, EntryFree heap.table.entries i

/-- A request for one block is answered exactly if some block is free. -/
lemma kzalloc_ne_zero_iff {heap : Heap} (hsaddr : heap.saddr = heapAddress)
    (htotal : heap.table.total = kernelBlocks) {size : ℕ} (hpos : 0 < size)
    (hsize : size ≤ heapBlockSize) : (kzalloc heap size).2 ≠ 0 ↔ HasFreeBlock heap := by
  have hone : blocksFor size = 1 := by
    simp only [blocksFor, heapBlockSize] at *
    omega
  have hrun : Extent.HasRun (EntryFree heap.table.entries) heap.table.total 1 ↔
      HasFreeBlock heap := by
    constructor
    · rintro ⟨s, hin, hall⟩
      exact ⟨s, by omega, hall s ⟨le_rfl, Nat.lt_succ_self s⟩⟩
    · rintro ⟨i, hi, hfree⟩
      refine ⟨i, hi, fun j hj => ?_⟩
      obtain rfl : j = i := Nat.le_antisymm (Nat.lt_succ_iff.mp hj.2) hj.1
      exact hfree
  have haddr : ∀ s < kernelBlocks, heapBlockToAddress heap s ≠ 0 := by
    intro s hs
    rw [heapBlockToAddress, hsaddr, Nat.mod_eq_of_lt]
    · exact blockAddress_ne_zero s
    · simp only [kernelBlocks, heapAddress, heapBlockSize] at hs ⊢
      omega
  have heq : kzalloc heap size = heapMallocBlocks heap 1 := by
    rw [← hone]
    refine heapMalloc_eq heap ?_
    simp only [heapBlockSize] at *
    omega
  have hres := heapGetStartBlock_result heap 1
  rw [heq, heapMallocBlocks, ← hrun]
  generalize heapGetStartBlock heap 1 = r at hres
  cases hres with
  | @found s hn hfit =>
    have hin := hfit.inside
    simp only [htotal] at hin
    exact iff_of_true (haddr s (by omega)) ⟨s, hfit.inside, hfit.all⟩
  | full hno => exact iff_of_false (fun h => h rfl) (hno Nat.one_pos)
  | @short b hno hb htail =>
    refine absurd (hrun.mpr ⟨b, hb, htail b ⟨le_rfl, ?_⟩⟩) (hno Nat.one_pos)
    simp only
    omega

lemma keeps_allocate (size : ℕ) : Keeps (Recorded m₀) (allocate size) := by
  intro m a m' hm h
  obtain ⟨hlt, hsaddr, htotal⟩ := kzalloc_lt hm.saddr_eq hm.total_eq size
  cases h
  refine ⟨hsaddr, htotal, fun p hp => ?_, hm.freed_eq⟩
  rcases List.mem_cons.mp hp with rfl | hp
  · exact hlt
  · exact hm.returned_lt p hp

lemma keeps_release (p : Ptr) : Keeps (Recorded m₀) (release p) := by
  intro m a m' hm h
  cases h
  obtain ⟨F, hF⟩ := hm.freed_eq
  refine ⟨hm.saddr_eq, ?_, hm.returned_lt, p :: F, ?_⟩
  · exact (total_markFreeLoop _ _ _).trans hm.total_eq
  · rw [hF, List.cons_append]

end SerpaeOS
