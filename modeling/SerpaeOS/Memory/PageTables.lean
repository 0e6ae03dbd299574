import SerpaeOS.Heap.Kheap
import SerpaeOS.Memory.Paging

/-!
# Page tables in memory

The functions of `paging.c` over the words of the memory: a directory and its tables are pages of
the kernel heap, and the directory holds the addresses of the tables with flags in their lower bits.
`paging_free_4gb` finds the tables again by masking the flags.
-/

namespace SerpaeOS

open Word

/-- The kernel heap and the words of the memory, and what was asked of the heap so far: the results
of `kzalloc` and the arguments of `kfree`. -/
structure PagingMemory where
  heap : Heap
  word : ℕ → ℕ
  allocated : List ℕ
  freed : List ℕ

namespace PagingMemory

/-- `kzalloc`, which clears the block. -/
def kzalloc (m : PagingMemory) (size : ℕ) : PagingMemory × ℕ :=
  let (heap, ptr) := SerpaeOS.kzalloc m.heap size
  let word := if ptr = 0 then m.word else fun a => if ptr ≤ a ∧ a < ptr + size then 0 else m.word a
  ({ m with heap := heap, word := word, allocated := m.allocated ++ [ptr] }, ptr)

/-- `kfree`. -/
def kfree (m : PagingMemory) (ptr : ℕ) : PagingMemory :=
  { m with heap := SerpaeOS.kfree m.heap ptr, freed := m.freed ++ [ptr] }

/-- An assignment to a word. -/
def set (m : PagingMemory) (a val : ℕ) : PagingMemory :=
  { m with word := Function.update m.word a val }

/-! ## New directories -/

/-- The loop of `paging_new_4gb` over the words of a table, with `k` words from word `b` on to
come. -/
def fillTable (flags : ℕ) (offset : ℤ) (entry : ℕ) : ℕ → ℕ → (ℕ → ℕ) → ℕ → ℕ
  | 0, _, word => word
  | k + 1, b, word => fillTable flags offset entry k (b + 1)
      (Function.update word (entry + 4 * b) (u32 (offset + (b * pagingPageSize : ℕ)) ||| flags))

/-- The loop of `paging_new_4gb` over the tables, with `k` tables from table `i` on to come. -/
def newTables (flags directory : ℕ) : ℕ → ℕ → ℤ → PagingMemory → PagingMemory
  | 0, _, _, m => m
  | k + 1, i, offset, m =>
    let (m, entry) := m.kzalloc (4 * pagingTotalEntriesPerTable)
    let m := { m with word := fillTable flags offset entry pagingTotalEntriesPerTable 0 m.word }
    let offset := i32 (offset + (pagingTotalEntriesPerTable * pagingPageSize : ℕ))
    let m := m.set (directory + 4 * i) (entry ||| flags ||| pagingIsWriteable)
    newTables flags directory k (i + 1) offset m

/-- `paging_new_4gb`: the memory and the address of the chunk, whose only field is the address of
the directory. -/
def pagingNew4gb (m : PagingMemory) (flags : UInt8) : PagingMemory × ℕ :=
  let (m, directory) := m.kzalloc (4 * pagingTotalEntriesPerTable)
  let m := newTables flags.toNat directory pagingTotalEntriesPerTable 0 0 m
  let (m, chunk) := m.kzalloc 4
  (m.set chunk directory, chunk)

/-- The loop of `paging_free_4gb`, with `k` tables from table `i` on to come. -/
def freeTables (chunk : ℕ) : ℕ → ℕ → PagingMemory → PagingMemory
  | 0, _, m => m
  | k + 1, i, m =>
    let entry := m.word (m.word chunk + 4 * i)
    freeTables chunk k (i + 1) (m.kfree (entryAddress entry))

/-- `paging_free_4gb`. -/
def pagingFree4gb (m : PagingMemory) (chunk : ℕ) : PagingMemory :=
  let m := freeTables chunk 1024 0 m
  let m := m.kfree (m.word chunk)
  m.kfree chunk

/-! ## Mapping -/

/-- `paging_set`. -/
def pagingSet (m : PagingMemory) (directory virt val : ℕ) : ℤ × PagingMemory :=
  if !pagingIsAligned virt then (-einvarg, m)
  else
    let (res, directoryIndex, tableIndex) := pagingGetIndexes virt
    if res < 0 then (res, m)
    else
      let table := entryAddress (m.word (directory + 4 * directoryIndex))
      (0, m.set (table + 4 * tableIndex) val)

/-- `paging_map`. -/
def pagingMap (m : PagingMemory) (chunk virt phys flags : ℕ) : ℤ × PagingMemory :=
  if virt % pagingPageSize ≠ 0 ∨ phys % pagingPageSize ≠ 0 then (-einvarg, m)
  else m.pagingSet (m.word chunk) virt (phys ||| flags)

/-- `paging_map_range`. -/
def pagingMapRange (m : PagingMemory) (chunk virt phys flags : ℕ) : ℕ → ℤ × PagingMemory
  | 0 => (0, m)
  | count + 1 =>
    let (res, m) := m.pagingMap chunk virt phys flags
    if res < 0 then (res, m)
    else
      m.pagingMapRange chunk ((virt + pagingPageSize) % 2 ^ 32) ((phys + pagingPageSize) % 2 ^ 32)
        flags count

/-- `paging_map_to`. -/
def pagingMapTo (m : PagingMemory) (chunk virt phys physEnd flags : ℕ) : ℤ × PagingMemory :=
  if virt % pagingPageSize ≠ 0 then (-einvarg, m)
  else if phys % pagingPageSize ≠ 0 then (-einvarg, m)
  else if physEnd % pagingPageSize ≠ 0 then (-einvarg, m)
  else if physEnd < phys then (-einvarg, m)
  else
    let totalBytes := physEnd - phys
    let totalPages := totalBytes / pagingPageSize
    m.pagingMapRange chunk virt phys flags totalPages

/-! ## Translation -/

/-- `paging_get`. -/
def pagingGet (m : PagingMemory) (directory virt : ℕ) : ℕ :=
  let (_, directoryIndex, tableIndex) := pagingGetIndexes virt
  let table := entryAddress (m.word (directory + 4 * directoryIndex))
  m.word (table + 4 * tableIndex)

/-- `paging_get_physical_address`. -/
def pagingGetPhysicalAddress (m : PagingMemory) (directory virt : ℕ) : ℕ :=
  let virtAddrNew := pagingAlignToLowerPage virt
  let difference := virt - virtAddrNew
  (entryAddress (m.pagingGet directory virtAddrNew) + difference) % 2 ^ 32

variable {m m' : PagingMemory} {chunk : ℕ}

@[simp] lemma set_word (m : PagingMemory) (a val : ℕ) :
    (m.set a val).word = Function.update m.word a val := rfl

@[simp] lemma set_allocated (m : PagingMemory) (a val : ℕ) :
    (m.set a val).allocated = m.allocated := rfl

/-! ## What mapping writes -/

/-- The words that lead from a chunk to its tables: its pointer and the entries of its directory. -/
def leadingWords (m : PagingMemory) (chunk : ℕ) : Set ℕ :=
  {a | a = chunk ∨ ∃ i < 1024, a = m.word chunk + 4 * i}

/-- The words of the tables of a chunk. -/
def tableWords (m : PagingMemory) (chunk : ℕ) : Set ℕ :=
  {a | ∃ i < 1024, ∃ j < 1024, a = entryAddress (m.word (m.word chunk + 4 * i)) + 4 * j}

/-- The tables of a chunk are apart from the words that lead to the tables of another one, or to its
own. -/
def TablesApart (m : PagingMemory) (chunk chunk' : ℕ) : Prop :=
  ∀ a ∈ tableWords m chunk, a ∉ leadingWords m chunk'

/-- Nothing but words of the tables of the chunk is written. -/
structure MapsOnly (chunk : ℕ) (m m' : PagingMemory) : Prop where
  heap_eq : m'.heap = m.heap
  allocated_eq : m'.allocated = m.allocated
  freed_eq : m'.freed = m.freed
  word_eq : ∀ a ∉ tableWords m chunk, m'.word a = m.word a

lemma MapsOnly.refl (chunk : ℕ) (m : PagingMemory) : MapsOnly chunk m m :=
  ⟨rfl, rfl, rfl, fun _ _ => rfl⟩

/-- The tables are found by the words that lead to them. -/
lemma tableWords_congr (h : ∀ a ∈ leadingWords m chunk, m'.word a = m.word a) :
    leadingWords m' chunk = leadingWords m chunk ∧ tableWords m' chunk = tableWords m chunk := by
  have hchunk := h chunk (Or.inl rfl)
  refine ⟨by rw [leadingWords, leadingWords, hchunk], Set.ext fun a => ?_⟩
  refine exists_congr fun i => and_congr_right fun hi => ?_
  rw [hchunk, h _ (Or.inr ⟨i, hi, rfl⟩)]

/-- A chunk whose tables are apart from what leads to them keeps its tables. -/
lemma MapsOnly.tableWords_eq (h : MapsOnly chunk m m')
    (hapart : TablesApart m chunk chunk) :
    leadingWords m' chunk = leadingWords m chunk ∧ tableWords m' chunk = tableWords m chunk :=
  tableWords_congr fun a ha => h.word_eq a fun hc => hapart a hc ha

lemma MapsOnly.trans {m'' : PagingMemory} (h : MapsOnly chunk m m') (h' : MapsOnly chunk m' m'')
    (hapart : TablesApart m chunk chunk) : MapsOnly chunk m m'' := by
  refine ⟨h'.heap_eq.trans h.heap_eq, h'.allocated_eq.trans h.allocated_eq,
    h'.freed_eq.trans h.freed_eq, fun a ha => ?_⟩
  rw [h'.word_eq a (by rwa [(h.tableWords_eq hapart).2]), h.word_eq a ha]

lemma pagingMap_mapsOnly (m : PagingMemory) (chunk : ℕ) {virt : ℕ} (hvirt : virt < 2 ^ 32)
    (phys flags : ℕ) : MapsOnly chunk m (m.pagingMap chunk virt phys flags).2 := by
  rw [pagingMap]
  split_ifs with h
  · exact MapsOnly.refl chunk m
  rw [pagingSet]
  split_ifs with halign
  · exact MapsOnly.refl chunk m
  have halign' : pagingIsAligned virt = true := by simpa using halign
  simp only [pagingGetIndexes, halign', Bool.not_true, Bool.false_eq_true, if_false, lt_irrefl]
  refine ⟨rfl, rfl, rfl, fun a ha => ?_⟩
  rw [set_word]
  refine Function.update_of_ne (fun hc => ha ⟨_, ?_, _, ?_, hc⟩) _ _
  · simp only [pagingTotalEntriesPerTable, pagingPageSize]
    omega
  · simp only [pagingTotalEntriesPerTable, pagingPageSize]
    omega

lemma pagingMapRange_mapsOnly (flags : ℕ) : ∀ (count : ℕ) (m : PagingMemory) {virt phys : ℕ},
    TablesApart m chunk chunk → virt < 2 ^ 32 →
      MapsOnly chunk m (m.pagingMapRange chunk virt phys flags count).2 := by
  intro count
  induction count with
  | zero => exact fun m _ _ _ _ => MapsOnly.refl chunk m
  | succ count ih =>
    intro m virt phys hapart hvirt
    obtain ⟨⟨res, m₁⟩, hmap⟩ : ∃ r, m.pagingMap chunk virt phys flags = r := ⟨_, rfl⟩
    have h := pagingMap_mapsOnly m chunk hvirt phys flags
    rw [hmap] at h
    rw [pagingMapRange, hmap]
    obtain ⟨hlead, htable⟩ := h.tableWords_eq hapart
    simp only
    split_ifs
    · exact h
    · exact h.trans (ih _ (by rwa [TablesApart, hlead, htable]) (Nat.mod_lt _ (by decide))) hapart

lemma pagingMapTo_mapsOnly (m : PagingMemory) {virt : ℕ} (hvirt : virt < 2 ^ 32)
    (phys physEnd flags : ℕ) (hapart : TablesApart m chunk chunk) :
    MapsOnly chunk m (m.pagingMapTo chunk virt phys physEnd flags).2 := by
  rw [pagingMapTo]
  split_ifs
  · exact MapsOnly.refl chunk m
  · exact MapsOnly.refl chunk m
  · exact MapsOnly.refl chunk m
  · exact MapsOnly.refl chunk m
  · exact pagingMapRange_mapsOnly flags _ m hapart hvirt

/-! ## The tables as functions -/

/-- The words of a chunk are the entries of the directory and of its tables. -/
structure Represents (m : PagingMemory) (chunk : ℕ) (c : PagingChunk) : Prop where
  directory : ∀ i < 1024, m.word (m.word chunk + 4 * i) = c.directoryEntry i
  table : ∀ i < 1024, ∀ j < 1024, m.word (entryAddress (c.directoryEntry i) + 4 * j) =
    c.table (entryAddress (c.directoryEntry i)) j
  apart : TablesApart m chunk chunk

namespace Represents

variable {c : PagingChunk} {virt : ℕ}

/-- A word of a table is stored. -/
lemma store (h : Represents m chunk c) {i j : ℕ} (hi : i < 1024) (hj : j < 1024) (val : ℕ) :
    Represents (m.set (entryAddress (c.directoryEntry i) + 4 * j) val) chunk
      (c.store (entryAddress (c.directoryEntry i)) j val) := by
  have hlead : ∀ a ∈ leadingWords m chunk,
      (m.set (entryAddress (c.directoryEntry i) + 4 * j) val).word a = m.word a := by
    intro a ha
    refine Function.update_of_ne (fun hc => h.apart a ⟨i, hi, j, hj, ?_⟩ ha) _ _
    rw [hc, h.directory i hi]
  obtain ⟨hlead', htable'⟩ := tableWords_congr hlead
  refine ⟨fun k hk => ?_, fun k hk b hb => ?_, by rw [TablesApart, hlead', htable']; exact h.apart⟩
  · rw [hlead chunk (Or.inl rfl), hlead _ (Or.inr ⟨k, hk, rfl⟩), h.directory k hk]
    rfl
  · have hold := h.table k hk b hb
    simp only [set_word, PagingChunk.store]
    by_cases hkb : entryAddress (c.directoryEntry k) = entryAddress (c.directoryEntry i)
    · rw [hkb] at hold ⊢
      rw [Function.update_self]
      by_cases hbj : b = j
      · rw [hbj, Function.update_self, Function.update_self]
      · rw [Function.update_of_ne hbj, Function.update_of_ne (by omega), hold]
    · have hk' := (entryAddress_mod (c.directoryEntry k)).1
      have hi' := (entryAddress_mod (c.directoryEntry i)).1
      rw [Function.update_of_ne hkb, Function.update_of_ne (by omega), hold]

/-- The words that lead to the tables and those of the tables are all that counts. -/
lemma congr (h : Represents m chunk c)
    (heq : ∀ a, a ∈ leadingWords m chunk ∨ a ∈ tableWords m chunk → m'.word a = m.word a) :
    Represents m' chunk c := by
  have hchunk := heq chunk (Or.inl (Or.inl rfl))
  have hdirectory : ∀ i < 1024, m'.word (m'.word chunk + 4 * i) = c.directoryEntry i := by
    intro i hi
    rw [hchunk, heq _ (Or.inl (Or.inr ⟨i, hi, rfl⟩)), h.directory i hi]
  obtain ⟨hlead, htable⟩ := tableWords_congr fun a ha => heq a (Or.inl ha)
  refine ⟨hdirectory, fun i hi j hj => ?_, by rw [TablesApart, hlead, htable]; exact h.apart⟩
  rw [heq _ (Or.inr ⟨i, hi, j, hj, by rw [h.directory i hi]⟩), h.table i hi j hj]

/-- `paging_get` over the words. -/
lemma pagingGet (h : Represents m chunk c) (hvirt : virt < 2 ^ 32) (halign : virt % 4096 = 0) :
    m.pagingGet (m.word chunk) virt = SerpaeOS.pagingGet c virt := by
  have halign' : pagingIsAligned virt = true := by
    simpa [pagingIsAligned, pagingPageSize] using halign
  rw [pagingGet_of_aligned c halign, PagingMemory.pagingGet]
  simp only [pagingGetIndexes, halign', Bool.not_true, Bool.false_eq_true, if_false,
    pagingTotalEntriesPerTable, pagingPageSize]
  rw [h.directory _ (by omega), h.table _ (by omega) _ (by omega)]

lemma pagingMap (h : Represents m chunk c) (hvirt : virt < 2 ^ 32) (phys flags : ℕ) :
    (m.pagingMap chunk virt phys flags).1 = (SerpaeOS.pagingMap c virt phys flags).1 ∧
      Represents (m.pagingMap chunk virt phys flags).2 chunk
        (SerpaeOS.pagingMap c virt phys flags).2 := by
  rw [PagingMemory.pagingMap, SerpaeOS.pagingMap]
  split_ifs with hmap
  · exact ⟨rfl, h⟩
  have halign : pagingIsAligned virt = true := by
    simpa [pagingIsAligned] using fun hc => hmap (Or.inl hc)
  rw [pagingSet, SerpaeOS.pagingSet]
  simp only [pagingGetIndexes, halign, Bool.not_true, Bool.false_eq_true, if_false, lt_irrefl,
    pagingTotalEntriesPerTable, pagingPageSize]
  rw [h.directory _ (by omega)]
  exact ⟨trivial, h.store (by omega) (by omega) _⟩

lemma pagingMapRange (flags : ℕ) : ∀ (count : ℕ) {m : PagingMemory} {c : PagingChunk}
    {virt phys : ℕ}, Represents m chunk c → virt < 2 ^ 32 →
      (m.pagingMapRange chunk virt phys flags count).1 =
        (SerpaeOS.pagingMapRange c virt phys flags count).1 ∧
      Represents (m.pagingMapRange chunk virt phys flags count).2 chunk
        (SerpaeOS.pagingMapRange c virt phys flags count).2 := by
  intro count
  induction count with
  | zero => exact fun h _ => ⟨rfl, h⟩
  | succ count ih =>
    intro m c virt phys h hvirt
    obtain ⟨⟨res, m₁⟩, hm₁⟩ : ∃ r, m.pagingMap chunk virt phys flags = r := ⟨_, rfl⟩
    obtain ⟨⟨res', c₁⟩, hc₁⟩ : ∃ r, SerpaeOS.pagingMap c virt phys flags = r := ⟨_, rfl⟩
    obtain ⟨hres, h₁⟩ := h.pagingMap hvirt phys flags
    rw [hm₁, hc₁] at hres h₁
    simp only at hres h₁
    rw [PagingMemory.pagingMapRange, SerpaeOS.pagingMapRange, hm₁, hc₁]
    simp only [hres]
    split_ifs
    · exact ⟨rfl, h₁⟩
    · exact ih h₁ (Nat.mod_lt _ (by decide))

/-- `paging_map_to` over the words does what it does over the functions. -/
theorem pagingMapTo (h : Represents m chunk c) (hvirt : virt < 2 ^ 32) (phys physEnd flags : ℕ) :
    (m.pagingMapTo chunk virt phys physEnd flags).1 =
      (SerpaeOS.pagingMapTo c virt phys physEnd flags).1 ∧
    Represents (m.pagingMapTo chunk virt phys physEnd flags).2 chunk
      (SerpaeOS.pagingMapTo c virt phys physEnd flags).2 := by
  rw [PagingMemory.pagingMapTo, SerpaeOS.pagingMapTo]
  split_ifs
  · exact ⟨rfl, h⟩
  · exact ⟨rfl, h⟩
  · exact ⟨rfl, h⟩
  · exact ⟨rfl, h⟩
  · exact pagingMapRange flags _ h hvirt

end Represents

end PagingMemory

end SerpaeOS
