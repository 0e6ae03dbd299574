import SerpaeOS.Heap.OneBlock
import SerpaeOS.Memory.PageTables

/-!
# Directories made and given back

`paging_new_4gb` takes a block of the heap for each table, for the directory and for the chunk.
`paging_free_4gb` finds the tables by the addresses in the directory, under the flags, and gives all
blocks back, whatever was mapped in between.
-/

namespace SerpaeOS

open BlockTable Word StepRun

namespace PagingMemory

variable {m m' : PagingMemory} {heap₀ : Heap} {chunk : ℕ}

/-! ## Blocks -/

lemma blockAddress_add_ne {s t i j : ℕ} (hst : s ≠ t) (hi : i < 4096) (hj : j < 4096) :
    blockAddress s + i ≠ blockAddress t + j := by
  simp only [blockAddress, heapBlockSize]
  omega

lemma entryAddress_blockAddress {s : ℕ} (hs : s < kernelBlocks) (flags : UInt8) :
    entryAddress (blockAddress s ||| flags.toNat ||| pagingIsWriteable) = blockAddress s := by
  have hflags : flags.toNat ||| pagingIsWriteable < 4096 :=
    lt_of_lt_of_le (Nat.or_lt_two_pow (n := 8) flags.toNat_lt (by decide)) (by decide)
  have hlt := blockAddress_add_le hs
  rw [Nat.or_assoc]
  exact entryAddress_or (blockAddress_mod s) (by omega) hflags

/-- A request of at most a page in a heap with free blocks left. -/
lemma kzalloc_marked {blocks : List ℕ} {size : ℕ} (hheap : KernelTable heap₀)
    (h : Marked heap₀ m.heap blocks) (hroom : blocks.length < (freeBlocks heap₀).card)
    (hpos : 1 ≤ size) (hle : size ≤ 4096) : ∃ s m', m.kzalloc size = (m', blockAddress s) ∧
      Marked heap₀ m'.heap (blocks ++ [s]) ∧ m'.allocated = m.allocated ++ [blockAddress s] ∧
      m'.freed = m.freed ∧
      ∀ a, (∀ i < 4096, a ≠ blockAddress s + i) → m'.word a = m.word a := by
  obtain ⟨s, heap', hk, hmarked⟩ := h.kzalloc hheap hroom hpos hle
  refine ⟨s, (m.kzalloc size).1, ?_, ?_, ?_, ?_, fun a ha => ?_⟩
  all_goals simp only [kzalloc, hk, if_neg (blockAddress_ne_zero s)]
  · exact hmarked
  · refine if_neg fun ⟨hle', hlt⟩ => ha (a - blockAddress s) ?_ ?_
    · exact lt_of_lt_of_le (Nat.sub_lt_left_of_lt_add hle' hlt) hle
    · exact (Nat.add_sub_of_le hle').symm

/-- The word of a directory for the table in a block. -/
def directoryWord (flags : UInt8) (s : ℕ) : ℕ :=
  blockAddress s ||| flags.toNat ||| pagingIsWriteable

lemma fillTable_of_ne (flags : ℕ) (offset : ℤ) (entry : ℕ) : ∀ (k b : ℕ) (word : ℕ → ℕ) {a : ℕ},
    (∀ j, b ≤ j → j < b + k → a ≠ entry + 4 * j) →
      fillTable flags offset entry k b word a = word a := by
  intro k
  induction k with
  | zero => exact fun _ _ _ _ => rfl
  | succ k ih =>
    intro b word a ha
    rw [fillTable, ih (b + 1) _ fun j hj hlt => ha j (by omega) (by omega),
      Function.update_of_ne (ha b le_rfl (by omega))]

lemma fillTable_word (flags : ℕ) (offset : ℤ) (entry : ℕ) : ∀ (k b : ℕ) (word : ℕ → ℕ) {j : ℕ},
    b ≤ j → j < b + k → fillTable flags offset entry k b word (entry + 4 * j) =
      u32 (offset + (j * pagingPageSize : ℕ)) ||| flags := by
  intro k
  induction k with
  | zero => exact fun b _ j hj hlt => by omega
  | succ k ih =>
    intro b word j hj hlt
    rw [fillTable]
    rcases eq_or_lt_of_le hj with rfl | hj'
    · rw [fillTable_of_ne _ _ _ k _ _ fun i hi _ => by omega, Function.update_self]
    · exact ih (b + 1) _ hj' (by omega)

/-- What the loop over the tables leaves behind: the tables `T` in blocks of their own, their
addresses in the directory from word `i` on, and nothing else is written. -/
structure HasTables (heap₀ : Heap) (flags : UInt8) (dir i : ℕ) (m m' : PagingMemory)
    (before T : List ℕ) : Prop where
  marked : Marked heap₀ m'.heap (before ++ T)
  allocated_eq : m'.allocated = m.allocated ++ T.map blockAddress
  freed_eq : m'.freed = m.freed
  directory : ∀ j (hj : j < T.length),
    m'.word (blockAddress dir + 4 * (i + j)) = directoryWord flags T[j]
  table : ∀ j (hj : j < T.length), ∀ b < 1024, m'.word (blockAddress T[j] + 4 * b) =
    u32 (pagingNewOffset (i + j) + (b * pagingPageSize : ℕ)) ||| flags.toNat
  word_eq : ∀ a, (∀ s ∈ T, ∀ x < 4096, a ≠ blockAddress s + x) →
    (∀ j < T.length, a ≠ blockAddress dir + 4 * (i + j)) → m'.word a = m.word a

/-- One table: a block is taken and filled, and its address goes to the directory. -/
lemma newTables_succ {flags : UInt8} {dir i k : ℕ} {before : List ℕ} (hheap : KernelTable heap₀)
    (h : Marked heap₀ m.heap before) (hdir : dir ∈ before)
    (hroom : before.length < (freeBlocks heap₀).card) (hi : i < 1024) :
    ∃ (s : ℕ) (m' : PagingMemory),
      newTables flags.toNat (blockAddress dir) (k + 1) i (pagingNewOffset i) m =
        newTables flags.toNat (blockAddress dir) k (i + 1) (pagingNewOffset (i + 1)) m' ∧
      HasTables heap₀ flags dir i m m' before [s] := by
  obtain ⟨s, m₁, hk, hm₁, hallocated, hfreed, hword⟩ := @kzalloc_marked m heap₀ before
    (4 * pagingTotalEntriesPerTable) hheap h hroom (by decide) (by decide)
  have hsdir : s ≠ dir := by
    rintro rfl
    exact (List.nodup_append.mp hm₁.nodup).2.2 s hdir s (List.mem_singleton_self s) rfl
  have hne : ∀ b < 1024, blockAddress s + 4 * b ≠ blockAddress dir + 4 * i :=
    fun b hb => blockAddress_add_ne hsdir (by omega) (by omega)
  obtain ⟨word, hword'⟩ : ∃ word, word = fillTable flags.toNat (pagingNewOffset i)
    (blockAddress s) pagingTotalEntriesPerTable 0 m₁.word := ⟨_, rfl⟩
  refine ⟨s, set { m₁ with word := word } (blockAddress dir + 4 * i) (directoryWord flags s), ?_,
    hm₁, hallocated, hfreed, fun j hj => ?_, fun j hj b hb => ?_, fun a ha hadir => ?_⟩
  · rw [newTables, hk, hword']
    rfl
  · obtain rfl := Nat.lt_one_iff.mp hj
    rw [set_word, Nat.add_zero, Function.update_self, List.getElem_singleton]
  · obtain rfl := Nat.lt_one_iff.mp hj
    have hfill : word (blockAddress s + 4 * b) =
        u32 (pagingNewOffset i + (b * pagingPageSize : ℕ)) ||| flags.toNat := by
      rw [hword', fillTable_word _ _ _ _ _ _ (Nat.zero_le b)]
      rw [pagingTotalEntriesPerTable]
      omega
    rw [set_word, List.getElem_singleton, Nat.add_zero, Function.update_of_ne (hne b hb)]
    exact hfill
  · have has := ha s (List.mem_singleton_self s)
    have hadir₀ := hadir 0 Nat.one_pos
    rw [Nat.add_zero] at hadir₀
    rw [set_word, Function.update_of_ne hadir₀]
    simp only
    rw [hword', fillTable_of_ne _ _ _ _ _ _ fun j _ hj => has (4 * j) ?_]
    · exact hword a has
    · rw [pagingTotalEntriesPerTable] at hj
      omega

namespace HasTables

variable {flags : UInt8} {dir i s : ℕ} {before T : List ℕ} {m₁ m₂ : PagingMemory}

lemma nil (h : Marked heap₀ m.heap before) : HasTables heap₀ flags dir i m m before [] := by
  refine ⟨?_, ?_, rfl, fun j hj => absurd hj (Nat.not_lt_zero j),
    fun j hj => absurd hj (Nat.not_lt_zero j), fun _ _ _ => rfl⟩
  · rwa [List.append_nil]
  · rw [List.map_nil, List.append_nil]

/-- One table, and then the others. -/
lemma cons (hi : i + 1 + T.length ≤ 1024) (hdir : dir ∈ before)
    (hs : HasTables heap₀ flags dir i m m₁ before [s])
    (hT : HasTables heap₀ flags dir (i + 1) m₁ m₂ (before ++ [s]) T) :
    HasTables heap₀ flags dir i m m₂ before (s :: T) := by
  have hmarked := hT.marked
  rw [List.append_assoc, List.singleton_append] at hmarked
  obtain ⟨-, hnodup, hapart⟩ := List.nodup_append.mp hmarked.nodup
  refine ⟨hmarked, ?_, hT.freed_eq.trans hs.freed_eq, fun j hj => ?_, fun j hj b hb => ?_,
    fun a ha hadir => ?_⟩
  · rw [hT.allocated_eq, hs.allocated_eq, List.append_assoc]
    rfl
  · cases j with
    | zero =>
      -- the word of the first table is not written again
      rw [hT.word_eq _ (fun t ht x hx => ?_) fun j _ => by omega]
      · exact hs.directory 0 Nat.one_pos
      · refine blockAddress_add_ne ?_ (by omega) hx
        exact hapart dir hdir t (List.mem_cons_of_mem _ ht)
    | succ j =>
      have := hT.directory j (Nat.lt_of_succ_lt_succ hj)
      rwa [Nat.add_assoc, Nat.add_comm 1 j] at this
  · cases j with
    | zero =>
      rw [hT.word_eq _ (fun t ht x hx => ?_) fun j hj => ?_]
      · exact hs.table 0 Nat.one_pos b hb
      · refine blockAddress_add_ne (fun hst => ?_) (by omega) hx
        rw [List.getElem_cons_zero] at hst
        exact (List.nodup_cons.mp hnodup).1 (hst ▸ ht)
      · refine blockAddress_add_ne (fun hst => ?_) (by omega) (by omega)
        exact hapart dir hdir s List.mem_cons_self hst.symm
    | succ j =>
      have := hT.table j (Nat.lt_of_succ_lt_succ hj) b hb
      rwa [Nat.add_assoc, Nat.add_comm 1 j] at this
  · rw [hT.word_eq a (fun t ht => ha t (List.mem_cons_of_mem _ ht)) fun j hj => ?_,
      hs.word_eq a (fun t ht => ha t ?_) fun j hj => hadir j ?_]
    · rw [List.mem_singleton.mp ht]
      exact List.mem_cons_self
    · rw [List.length_cons]
      exact lt_of_lt_of_le hj (Nat.le_add_left 1 T.length)
    · have := hadir (j + 1) (Nat.succ_lt_succ hj)
      rwa [← Nat.add_assoc, Nat.add_right_comm] at this

end HasTables

lemma newTables_hasTables {flags : UInt8} {dir : ℕ} (hheap : KernelTable heap₀) : ∀ (k : ℕ) {i : ℕ}
    {m : PagingMemory} {before : List ℕ}, Marked heap₀ m.heap before → dir ∈ before →
      before.length + k ≤ (freeBlocks heap₀).card → i + k ≤ 1024 →
      ∃ T : List ℕ, T.length = k ∧ HasTables heap₀ flags dir i m
        (newTables flags.toNat (blockAddress dir) k i (pagingNewOffset i) m) before T := by
  intro k
  induction k with
  | zero => exact fun hm _ _ _ => ⟨[], rfl, HasTables.nil hm⟩
  | succ k ih =>
    intro i m before hm hdir hroom hi
    obtain ⟨s, m₁, heq, hs⟩ := @newTables_succ m heap₀ flags dir i k before hheap hm hdir
      (by omega) (by omega)
    obtain ⟨T, hlen, hT⟩ := ih hs.marked (List.mem_append_left _ hdir)
      (by rw [List.length_append, List.length_singleton]; omega) (show i + 1 + k ≤ 1024 by omega)
    rw [heq]
    exact ⟨s :: T, by rw [List.length_cons, hlen], hs.cons (by omega) hdir hT⟩

/-- A chunk that `paging_new_4gb` has made of free blocks: the one of the directory, the ones of
the tables and the one of the chunk itself, and the words that lead from each to the next. -/
structure NewChunk (flags : UInt8) (m m' : PagingMemory) (dir sc : ℕ) (T : List ℕ) : Prop where
  marked : Marked m.heap m'.heap (dir :: (T ++ [sc]))
  length_eq : T.length = 1024
  allocated_eq : m'.allocated =
    m.allocated ++ blockAddress dir :: (T.map blockAddress ++ [blockAddress sc])
  freed_eq : m'.freed = m.freed
  chunk : m'.word (blockAddress sc) = blockAddress dir
  directory : ∀ j (hj : j < T.length),
    m'.word (blockAddress dir + 4 * j) = directoryWord flags T[j]
  table : ∀ j (hj : j < T.length), ∀ b < 1024, m'.word (blockAddress T[j] + 4 * b) =
    u32 (pagingNewOffset j + (b * pagingPageSize : ℕ)) ||| flags.toNat
  word_eq : ∀ a, (∀ s ∈ dir :: (T ++ [sc]), ∀ x < 4096, a ≠ blockAddress s + x) →
    m'.word a = m.word a

lemma pagingNew4gb_newChunk (flags : UInt8) (hheap : KernelTable m.heap)
    (hroom : 1026 ≤ (freeBlocks m.heap).card) : ∃ (m' : PagingMemory) (dir sc : ℕ) (T : List ℕ),
      m.pagingNew4gb flags = (m', blockAddress sc) ∧ NewChunk flags m m' dir sc T := by
  obtain ⟨dir, m₁, hk₁, hm₁, hallocated₁, hfreed₁, hword₁⟩ := @kzalloc_marked m m.heap []
    (4 * pagingTotalEntriesPerTable) hheap (Marked.refl m.heap) (show 0 < _ by omega) (by decide)
    (by decide)
  obtain ⟨T, hlen, hT⟩ := @newTables_hasTables m.heap flags dir hheap pagingTotalEntriesPerTable 0
    m₁ [dir] hm₁ (List.mem_singleton_self dir)
    (by rw [List.length_singleton, pagingTotalEntriesPerTable]; omega) (by decide)
  obtain ⟨m₂, hm₂⟩ : ∃ m₂, newTables flags.toNat (blockAddress dir) pagingTotalEntriesPerTable 0 0
    m₁ = m₂ := ⟨_, rfl⟩
  rw [pagingNewOffset, hm₂] at hT
  obtain ⟨sc, m₃, hk₃, hm₃, hallocated₃, hfreed₃, hword₃⟩ := @kzalloc_marked m₂ m.heap _ 4 hheap
    hT.marked (by
      rw [List.length_append, hlen, List.length_singleton, pagingTotalEntriesPerTable]
      omega) (by decide) (by decide)
  have hmarked := hm₃
  rw [List.append_assoc, List.singleton_append] at hmarked
  obtain ⟨hdir, hnodup⟩ := List.nodup_cons.mp hmarked.nodup
  have hsc : ∀ s ∈ dir :: T, s ≠ sc := by
    intro s hs
    rcases List.mem_cons.mp hs with rfl | hs
    · exact fun hc => hdir (List.mem_append_right _ (List.mem_singleton.mpr hc))
    · exact (List.nodup_append.mp hnodup).2.2 s hs sc (List.mem_singleton_self sc)
  -- the words of the directory and of the tables are not those of the chunk
  have hkeep : ∀ s ∈ dir :: T, ∀ j < 1024,
      (m₃.set (blockAddress sc) (blockAddress dir)).word (blockAddress s + 4 * j) =
        m₂.word (blockAddress s + 4 * j) := by
    intro s hs j hj
    have hne : ∀ x < 4096, blockAddress s + 4 * j ≠ blockAddress sc + x :=
      fun x hx => blockAddress_add_ne (hsc s hs) (by omega) hx
    have hne₀ := hne 0 (by decide)
    rw [Nat.add_zero] at hne₀
    rw [set_word, Function.update_of_ne hne₀, hword₃ _ hne]
  refine ⟨m₃.set (blockAddress sc) (blockAddress dir), dir, sc, T, ?_, hmarked, hlen, ?_,
    hfreed₃.trans (hT.freed_eq.trans hfreed₁), ?_, fun j hj => ?_, fun j hj b hb => ?_,
    fun a ha => ?_⟩
  · rw [pagingNew4gb, hk₁]
    simp only
    rw [hm₂, hk₃]
  · rw [set_allocated, hallocated₃, hT.allocated_eq, hallocated₁]
    simp only [List.append_assoc, List.cons_append, List.nil_append]
  · rw [set_word, Function.update_self]
  · rw [hkeep dir List.mem_cons_self j (by rw [hlen, pagingTotalEntriesPerTable] at hj; omega)]
    have := hT.directory j hj
    rwa [Nat.zero_add] at this
  · rw [hkeep T[j] (List.mem_cons_of_mem _ (List.getElem_mem hj)) b hb]
    have := hT.table j hj b hb
    rwa [Nat.zero_add] at this
  · have hdir' := ha dir List.mem_cons_self
    have hsc' := ha sc (List.mem_cons_of_mem _ (List.mem_append_right _ List.mem_cons_self))
    have hsc₀ := hsc' 0 (by decide)
    rw [Nat.add_zero] at hsc₀
    rw [set_word, Function.update_of_ne hsc₀, hword₃ a hsc', hT.word_eq a ?_ ?_, hword₁ a hdir']
    · exact fun t ht => ha t (List.mem_cons_of_mem _ (List.mem_append_left _ ht))
    · intro j hj
      rw [hlen, pagingTotalEntriesPerTable] at hj
      rw [Nat.zero_add]
      exact hdir' (4 * j) (by omega)

/-! ## Giving the tables back -/

/-- The loop over the directory frees the tables in their order. -/
lemma freeTables_marked {flags : UInt8} {dir sc : ℕ} (hheap : KernelTable heap₀) :
    ∀ (T : List ℕ) {i : ℕ} {m : PagingMemory}, Marked heap₀ m.heap (dir :: (T ++ [sc])) →
      m.word chunk = blockAddress dir → (∀ j (hj : j < T.length),
        m.word (blockAddress dir + 4 * (i + j)) = directoryWord flags T[j]) →
      ∃ m', freeTables chunk T.length i m = m' ∧ Marked heap₀ m'.heap [dir, sc] ∧
        m'.word = m.word ∧ m'.freed = m.freed ++ T.map blockAddress := by
  intro T
  induction T with
  | nil =>
    intro i m hm _ _
    exact ⟨m, rfl, hm, rfl, (List.append_nil _).symm⟩
  | cons s T ih =>
    intro i m hm hchunk hdir
    have hentry : entryAddress (m.word (m.word chunk + 4 * i)) = blockAddress s := by
      have hword := hdir 0 (Nat.succ_pos _)
      rw [Nat.add_zero, List.getElem_cons_zero] at hword
      rw [hchunk, hword]
      exact entryAddress_blockAddress (hm.lt_kernelBlocks hheap (by simp)) flags
    have hfree : Marked heap₀ (m.kfree (blockAddress s)).heap (dir :: (T ++ [sc])) :=
      Marked.kfree hheap (show Marked heap₀ m.heap ([dir] ++ s :: (T ++ [sc])) from hm)
    have hrest : ∀ j (hj : j < T.length),
        m.word (blockAddress dir + 4 * (i + 1 + j)) = directoryWord flags T[j] := by
      intro j hj
      have := hdir (j + 1) (Nat.succ_lt_succ hj)
      rwa [← Nat.add_assoc, Nat.add_right_comm] at this
    obtain ⟨m', hm', hmarked, hword, hfreed⟩ := ih hfree hchunk hrest
    refine ⟨m', ?_, hmarked, hword, ?_⟩
    · rw [List.length_cons, freeTables, hentry]
      exact hm'
    · rw [hfreed, List.map_cons, kfree]
      simp only [List.append_assoc, List.singleton_append]

/-- The chunk is given back whole: the blocks of the tables, of the directory and of the chunk, each
of them once and no other, and the table of the heap is as before. -/
structure GivenBack (heap : Heap) (made freed : PagingMemory) (chunk : ℕ) : Prop where
  saddr_eq : freed.heap.saddr = heap.saddr
  total_eq : freed.heap.table.total = heap.table.total
  entries_eq : freed.heap.table.entries = heap.table.entries
  pointers : ∃ (directory : ℕ) (tables : List ℕ), tables.length = 1024 ∧
    made.allocated = directory :: (tables ++ [chunk]) ∧
    freed.freed = tables ++ [directory, chunk] ∧ freed.freed.Nodup

/-- A call of `paging_map_to`. -/
structure MapCall where
  chunk : UInt32
  virt : UInt32
  phys : UInt32
  physEnd : UInt32
  flags : UInt32

def mapStep (m : PagingMemory) (call : MapCall) : Option PagingMemory :=
  some (m.pagingMapTo call.chunk.toNat call.virt.toNat call.phys.toNat call.physEnd.toNat
    call.flags.toNat).2

/-- The call is for the chunk, or for another one whose tables are somewhere else than the
directories of the two. -/
def MapsApart (chunk : ℕ) (m : PagingMemory) (call : MapCall) : Prop :=
  call.chunk.toNat = chunk ∨
    TablesApart m call.chunk.toNat call.chunk.toNat ∧ TablesApart m call.chunk.toNat chunk

/-- What mapping keeps of a chunk. -/
structure KeepsChunk (made : PagingMemory) (chunk : ℕ) (m : PagingMemory) : Prop where
  heap_eq : m.heap = made.heap
  allocated_eq : m.allocated = made.allocated
  freed_eq : m.freed = made.freed
  word_eq : ∀ a ∈ leadingWords made chunk, m.word a = made.word a

lemma KeepsChunk.step {call : MapCall} {made : PagingMemory} (h : KeepsChunk made chunk m)
    (hmade : TablesApart made chunk chunk) (hcall : MapsApart chunk m call) :
    ∃ m', mapStep m call = some m' ∧ KeepsChunk made chunk m' := by
  obtain ⟨hlead, htable⟩ := tableWords_congr h.word_eq
  have hapart : TablesApart m call.chunk.toNat call.chunk.toNat ∧
      TablesApart m call.chunk.toNat chunk := by
    rcases hcall with hcall | hcall
    · rw [hcall, TablesApart, hlead, htable]
      exact ⟨hmade, hmade⟩
    · exact hcall
  have hmaps := pagingMapTo_mapsOnly m call.virt.toNat_lt call.phys.toNat call.physEnd.toNat
    call.flags.toNat hapart.1
  refine ⟨_, rfl, hmaps.heap_eq.trans h.heap_eq, hmaps.allocated_eq.trans h.allocated_eq,
    hmaps.freed_eq.trans h.freed_eq, fun a ha => ?_⟩
  rw [hmaps.word_eq a fun hc => hapart.2 a hc (by rwa [hlead]), h.word_eq a ha]

namespace NewChunk

variable {flags : UInt8} {dir sc : ℕ} {T : List ℕ}

lemma entryAddress_eq (hheap : KernelTable m.heap) (h : NewChunk flags m m' dir sc T) {i : ℕ}
    (hi : i < T.length) :
    entryAddress (m'.word (m'.word (blockAddress sc) + 4 * i)) = blockAddress T[i] := by
  rw [h.chunk, h.directory i hi]
  refine entryAddress_blockAddress (h.marked.lt_kernelBlocks hheap ?_) flags
  exact List.mem_cons_of_mem _ (List.mem_append_left _ (List.getElem_mem hi))

/-- The tables of a new chunk are blocks apart from its directory. -/
lemma apart (hheap : KernelTable m.heap) (h : NewChunk flags m m' dir sc T) :
    TablesApart m' (blockAddress sc) (blockAddress sc) := by
  rintro a ⟨i, hi, j, hj, rfl⟩ hlead
  obtain ⟨hdir, hnodup⟩ := List.nodup_cons.mp h.marked.nodup
  rw [← h.length_eq] at hi
  rw [h.entryAddress_eq hheap hi] at hlead
  rcases hlead with hlead | ⟨k, hk, hlead⟩
  · refine blockAddress_add_ne (fun hc => ?_) (show 4 * j < 4096 by omega)
      (show 0 < 4096 by decide) hlead
    exact (List.nodup_append.mp hnodup).2.2 T[i] (List.getElem_mem hi) sc
      (List.mem_singleton_self sc) hc
  · rw [h.chunk] at hlead
    refine blockAddress_add_ne (fun hc => hdir ?_) (by omega) (by omega) hlead
    exact List.mem_append_left _ (hc ▸ List.getElem_mem hi)

/-- The directory and the tables of a new chunk are those of `paging_new_4gb` over functions. -/
theorem represents (hheap : KernelTable m.heap) (h : NewChunk flags m m' dir sc T) :
    ∃ t : TableAddresses,
      Represents m' (blockAddress sc) (SerpaeOS.pagingNew4gb flags t) := by
  have hlt : ∀ i, T.getD i 0 < kernelBlocks := by
    intro i
    by_cases hi : i < T.length
    · rw [List.getD_eq_getElem _ _ hi]
      refine h.marked.lt_kernelBlocks hheap ?_
      exact List.mem_cons_of_mem _ (List.mem_append_left _ (List.getElem_mem hi))
    · rw [List.getD_eq_default _ _ (not_lt.mp hi)]
      decide
  have hnodup : T.Nodup :=
    (List.nodup_append.mp (List.nodup_cons.mp h.marked.nodup).2).1
  obtain ⟨t, ht⟩ : ∃ t : TableAddresses, t.entry = fun i => blockAddress (T.getD i 0) := by
    refine ⟨⟨fun i => blockAddress (T.getD i 0), fun _ => blockAddress_mod _, fun i => ?_,
      fun i hi j hj hij => ?_⟩, rfl⟩
    · have := blockAddress_add_le (hlt i)
      omega
    · rw [← h.length_eq] at hi hj
      have hget := blockAddress_injective hij
      rw [List.getD_eq_getElem _ _ hi, List.getD_eq_getElem _ _ hj] at hget
      exact (hnodup.getElem_inj_iff).mp hget
  have hdirectory : ∀ i, (SerpaeOS.pagingNew4gb flags t).directoryEntry i =
      directoryWord flags (T.getD i 0) := by
    intro i
    rw [directoryWord, ← congrFun ht i]
    rfl
  refine ⟨t, fun i hi => ?_, fun i hi j hj => ?_, h.apart hheap⟩
  · rw [← h.length_eq] at hi
    rw [h.chunk, h.directory i hi, hdirectory, List.getD_eq_getElem _ 0 hi]
  · have hentry : entryAddress ((SerpaeOS.pagingNew4gb flags t).directoryEntry i) = t.entry i := by
      rw [hdirectory, ht]
      exact entryAddress_blockAddress (hlt i) flags
    rw [hentry, pagingNew4gb_table flags t hi hj, congrFun ht i]
    rw [← h.length_eq] at hi
    simp only [List.getD_eq_getElem _ 0 hi]
    exact h.table i hi j hj

/-- What `paging_free_4gb` gives back, with the words in place that lead to the tables. -/
lemma givenBack {m₁ m₂ : PagingMemory} (hheap : KernelTable m.heap)
    (hnone : m.allocated = [] ∧ m.freed = []) (h : NewChunk flags m m₁ dir sc T)
    (hkeep : KeepsChunk m₁ (blockAddress sc) m₂) :
    GivenBack m.heap m₁ (m₂.pagingFree4gb (blockAddress sc)) (blockAddress sc) := by
  have hmarked : Marked m.heap m₂.heap (dir :: (T ++ [sc])) := by
    rw [hkeep.heap_eq]
    exact h.marked
  have hchunk : m₂.word (blockAddress sc) = blockAddress dir :=
    (hkeep.word_eq _ (Or.inl rfl)).trans h.chunk
  have hdir : ∀ j (hj : j < T.length),
      m₂.word (blockAddress dir + 4 * (0 + j)) = directoryWord flags T[j] := by
    intro j hj
    rw [Nat.zero_add, ← h.chunk, hkeep.word_eq _ (Or.inr ⟨j, by rwa [h.length_eq] at hj, rfl⟩),
      h.chunk]
    exact h.directory j hj
  obtain ⟨m₃, hfree, hmarked₃, hword₃, hfreed₃⟩ := freeTables_marked hheap T hmarked hchunk hdir
  rw [h.length_eq] at hfree
  have hback : m₂.pagingFree4gb (blockAddress sc) =
      (m₃.kfree (blockAddress dir)).kfree (blockAddress sc) := by
    rw [pagingFree4gb, hfree, hword₃, hchunk]
  have hmarked₄ : Marked m.heap (m₃.kfree (blockAddress dir)).heap [sc] :=
    Marked.kfree hheap (show Marked m.heap m₃.heap ([] ++ dir :: [sc]) from hmarked₃)
  have hmarked₅ : Marked m.heap (m₂.pagingFree4gb (blockAddress sc)).heap [] := by
    rw [hback]
    exact Marked.kfree hheap (show Marked m.heap _ ([] ++ sc :: []) from hmarked₄)
  have hfreed : (m₂.pagingFree4gb (blockAddress sc)).freed = (T ++ [dir, sc]).map blockAddress := by
    rw [hback, kfree, kfree]
    simp only [hfreed₃, hkeep.freed_eq, h.freed_eq, hnone.2, List.nil_append, List.append_assoc,
      List.singleton_append, List.map_append, List.map_cons, List.map_nil]
  have hnodup : (T ++ [dir, sc]).Nodup := List.nodup_middle.mpr h.marked.nodup
  refine ⟨hmarked₅.saddr_eq, hmarked₅.total_eq, hmarked₅.entries_eq, blockAddress dir,
    T.map blockAddress, by rw [List.length_map, h.length_eq], ?_, ?_, ?_⟩
  · rw [h.allocated_eq, hnone.1, List.nil_append]
  · rw [hfreed, List.map_append, List.map_cons, List.map_cons, List.map_nil]
  · rw [hfreed]
    exact hnodup.map blockAddress_injective

end NewChunk

/-- A call over the functions. -/
def mapChunk (c : PagingChunk) (call : MapCall) : PagingChunk :=
  (SerpaeOS.pagingMapTo c call.virt.toNat call.phys.toNat call.physEnd.toNat call.flags.toNat).2

/-- Memory below the heap is as before. -/
lemma NewChunk.word_low {flags : UInt8} {dir sc a : ℕ} {T : List ℕ}
    (h : NewChunk flags m m' dir sc T) (ha : a < heapAddress) : m'.word a = m.word a := by
  refine h.word_eq a fun s _ x _ => ?_
  rw [blockAddress]
  omega

/-- A new directory is given back whole, whatever is mapped in between. -/
theorem pagingFree4gb_pagingNew4gb (heap : Heap) (word : ℕ → ℕ) (flags : UInt8)
    (calls : List MapCall) (hheap : ReachableHeap heap) (hroom : 1026 ≤ (freeBlocks heap).card)
    (hcalls : Guarded mapStep (MapsApart (pagingNew4gb ⟨heap, word, [], []⟩ flags).2)
      (pagingNew4gb ⟨heap, word, [], []⟩ flags).1 calls) :
    ∃ m, calls.foldlM mapStep (pagingNew4gb ⟨heap, word, [], []⟩ flags).1 = some m ∧
      GivenBack heap (pagingNew4gb ⟨heap, word, [], []⟩ flags).1
        (m.pagingFree4gb (pagingNew4gb ⟨heap, word, [], []⟩ flags).2)
        (pagingNew4gb ⟨heap, word, [], []⟩ flags).2 := by
  have hclean := hheap.kernelTable
  obtain ⟨m₁, dir, sc, T, hnew, h⟩ := @pagingNew4gb_newChunk ⟨heap, word, [], []⟩ flags hclean hroom
  rw [hnew] at hcalls ⊢
  have halways : Always mapStep (KeepsChunk m₁ (blockAddress sc)) m₁ calls :=
    always_of_guarded (fun _ hm => hm) (fun m call hm _ hcall => hm.step (h.apart hclean) hcall)
      ⟨rfl, rfl, rfl, fun _ _ => rfl⟩ guarded_true hcalls
  obtain ⟨m₂, hrun, hkeep⟩ := halways.last
  exact ⟨m₂, hrun, h.givenBack hclean ⟨rfl, rfl⟩ hkeep⟩

/-- Words below the heap with another chunk at address `0`: its directory is in the next page and
leads to a table in the page behind. -/
def lowChunk (a : ℕ) : ℕ := if a = 0 then 4096 else 8192

/-- A page of the other chunk is mapped in between. -/
theorem pagingFree4gb_pagingNew4gb_lowChunk :
    ∃ m, [(⟨0, 0x5000, 0x7000, 0x8000, 7⟩ : MapCall)].foldlM mapStep
        (pagingNew4gb ⟨freshHeap, lowChunk, [], []⟩ 1).1 = some m ∧
      GivenBack freshHeap (pagingNew4gb ⟨freshHeap, lowChunk, [], []⟩ 1).1
        (m.pagingFree4gb (pagingNew4gb ⟨freshHeap, lowChunk, [], []⟩ 1).2)
        (pagingNew4gb ⟨freshHeap, lowChunk, [], []⟩ 1).2 := by
  have hroom : 1026 ≤ (freeBlocks freshHeap).card := by
    rw [card_freeBlocks_freshHeap]
    decide
  refine pagingFree4gb_pagingNew4gb freshHeap lowChunk 1 _ reachableHeap_freshHeap hroom ?_
  obtain ⟨m, dir, sc, T, hnew, h⟩ := @pagingNew4gb_newChunk ⟨freshHeap, lowChunk, [], []⟩ 1
    reachableHeap_freshHeap.kernelTable hroom
  rw [hnew]
  refine ⟨Or.inr ?_, fun _ _ => trivial⟩
  have hchunk : m.word 0 = 4096 := h.word_low (by decide)
  have hentry : ∀ i < 1024, m.word (m.word 0 + 4 * i) = 8192 := by
    intro i hi
    rw [hchunk, h.word_low (show _ < 0x1000000 by omega)]
    exact if_neg (by omega)
  -- the other chunk has one table, in the page behind its directory
  have htable : ∀ a ∈ tableWords m 0, ∃ j < 1024, a = 8192 + 4 * j := by
    rintro a ⟨i, hi, j, hj, rfl⟩
    exact ⟨j, hj, by rw [hentry i hi]; rfl⟩
  constructor
  · rintro a ha (rfl | ⟨k, hk, hlead⟩)
    · obtain ⟨j, hj, hlow⟩ := htable _ ha
      exact absurd hlow (by rw [show (0 : UInt32).toNat = 0 from rfl]; omega)
    · obtain ⟨j, hj, rfl⟩ := htable a ha
      rw [show (0 : UInt32).toNat = 0 from rfl, hchunk] at hlead
      omega
  · rintro a ha (rfl | ⟨k, hk, hlead⟩)
    · obtain ⟨j, hj, hlow⟩ := htable _ ha
      rw [blockAddress, heapAddress] at hlow
      omega
    · obtain ⟨j, hj, rfl⟩ := htable a ha
      rw [h.chunk, blockAddress, heapAddress] at hlead
      omega

end PagingMemory

end SerpaeOS
