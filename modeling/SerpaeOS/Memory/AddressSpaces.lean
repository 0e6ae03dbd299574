import SerpaeOS.Heap.Accounts
import SerpaeOS.Heap.Holding
import SerpaeOS.Memory.FreeTables

/-!
# Address spaces side by side

An address space gives every page an entry, and a call of `paging_map_to` asks for a range of pages
to be changed.  The kernel keeps any number of directories in its heap, among the blocks of its
other users.  As long as these keep to their own blocks, each directory is the address space that
was asked for in the calls for this directory, and what is made and given back in any order comes
out even.
-/

namespace SerpaeOS

open BlockTable Word StepRun PagingMemory

/-- The entry of every page, by its number. -/
abbrev AddressSpace := ℕ → ℕ

namespace AddressSpace

/-- Every page is its own frame. -/
def identity (flags : UInt8) : AddressSpace := fun page => page * 4096 ||| flags.toNat

/-- So many pages from the page `first` on, around the end of the address space, get the frames
from `phys` on. -/
def map (A : AddressSpace) (first phys count flags : ℕ) : AddressSpace := fun page =>
  let j := (page + 2 ^ 20 - first) % 2 ^ 20
  if j < count then phys + j * 4096 ||| flags else A page

/-- A range of pages is mapped if all of its bounds are those of pages. -/
def mapTo (A : AddressSpace) (call : MapCall) : AddressSpace :=
  let virt := call.virt.toNat
  let phys := call.phys.toNat
  let physEnd := call.physEnd.toNat
  if virt % 4096 = 0 ∧ phys % 4096 = 0 ∧ physEnd % 4096 = 0 ∧ phys ≤ physEnd then
    A.map (virt / 4096) phys ((physEnd - phys) / 4096) call.flags.toNat
  else A

end AddressSpace

/-- A directory has the entries of the address space. -/
def PagingChunk.HasSpace (c : PagingChunk) (A : AddressSpace) : Prop :=
  ∀ page < 2 ^ 20, pagingGet c (page * 4096) = A page

variable {c c' : PagingChunk} {A : AddressSpace}

lemma pagingNew4gb_hasSpace (flags : UInt8) (t : TableAddresses) :
    (pagingNew4gb flags t).HasSpace (AddressSpace.identity flags) := fun page hpage =>
  pagingGet_pagingNew4gb flags t (Nat.mul_mod_left page 4096) (by omega)

lemma PagingChunk.HasSpace.mapped {virt phys flags count : ℕ} (h : c.HasSpace A)
    (hm : Mapped c c' virt phys flags count) (hvirt : virt % 4096 = 0) (hlt : virt < 2 ^ 32)
    (hend : phys + count * 4096 ≤ 2 ^ 32) :
    c'.HasSpace (A.map (virt / 4096) phys count flags) := by
  intro page hpage
  obtain ⟨j, hj⟩ : ∃ j, (page + 2 ^ 20 - virt / 4096) % 2 ^ 20 = j := ⟨_, rfl⟩
  rw [AddressSpace.map]
  simp only [hj]
  split_ifs with hcount
  · have hentry := hm.inside j hcount
    rwa [show (virt + j * 4096) % 2 ^ 32 = page * 4096 by omega,
      show (phys + j * 4096) % 2 ^ 32 = phys + j * 4096 by omega] at hentry
  · rw [hm.outside (page * 4096) (Nat.mul_mod_left page 4096) (by omega) fun i hi => by omega]
    exact h page hpage

/-- `paging_map_to` changes the address space of a directory as it is asked to. -/
lemma PagingChunk.HasSpace.mapTo (h : c.HasSpace A) (call : MapCall) :
    (mapChunk c call).HasSpace (A.mapTo call) := by
  have hphysEnd := call.physEnd.toNat_lt
  rw [mapChunk, AddressSpace.mapTo]
  rcases @pagingMapTo_cases c _ call.phys.toNat _ call.flags.toNat call.virt.toNat_lt
    hphysEnd with ⟨hv, hp, he, hle, c', hmap, hm⟩ | ⟨hnot, hmap⟩
  · rw [hmap, if_pos ⟨hv, hp, he, hle⟩]
    exact h.mapped hm hv call.virt.toNat_lt (by omega)
  · rw [hmap, if_neg hnot]
    exact h

namespace PagingMemory

/-! ## The pages of a directory -/

/-- The pages that a chunk is made of, in the order in which `paging_free_4gb` frees them. -/
def chunkPages (m : PagingMemory) (chunk : ℕ) : List ℕ :=
  (List.range 1024).map (fun i => entryAddress (m.word (m.word chunk + 4 * i))) ++
    [m.word chunk, chunk]

/-- The allocations of these pages. -/
def chunkExtents (m : PagingMemory) (chunk : ℕ) : List Extent :=
  (chunkPages m chunk).map (extentAt · 1)

/-- The chunk lies in blocks of the heap and has the entries of the address space. -/
structure SpaceIn (m : PagingMemory) (chunk : ℕ) (A : AddressSpace) : Prop where
  pages : ∀ p ∈ chunkPages m chunk, IsBlock p
  space : ∃ c, Represents m chunk c ∧ c.HasSpace A

variable {m m' : PagingMemory} {chunk a : ℕ}

lemma mem_chunkPages {p : ℕ} : p ∈ chunkPages m chunk ↔
    (∃ i < 1024, p = entryAddress (m.word (m.word chunk + 4 * i))) ∨
      p = m.word chunk ∨ p = chunk := by
  simp only [chunkPages, List.mem_append, List.mem_map, List.mem_range, List.mem_cons,
    List.not_mem_nil, or_false, eq_comm]

/-- The words of a chunk lie in its pages. -/
lemma exists_chunkPages (ha : a ∈ leadingWords m chunk ∨ a ∈ tableWords m chunk) :
    ∃ p ∈ chunkPages m chunk, ∃ x < 4096, a = p + x := by
  rcases ha with (rfl | ⟨i, hi, rfl⟩) | ⟨i, hi, j, hj, rfl⟩
  · exact ⟨a, mem_chunkPages.mpr (Or.inr (Or.inr rfl)), 0, by decide, rfl⟩
  · exact ⟨_, mem_chunkPages.mpr (Or.inr (Or.inl rfl)), 4 * i, by omega, rfl⟩
  · exact ⟨_, mem_chunkPages.mpr (Or.inl ⟨i, hi, rfl⟩), 4 * j, by omega, rfl⟩

/-- The pages are found by the words that lead to them. -/
lemma chunkPages_congr (heq : ∀ a ∈ leadingWords m chunk, m'.word a = m.word a) :
    chunkPages m' chunk = chunkPages m chunk := by
  have hchunk := heq chunk (Or.inl rfl)
  have htables : ∀ i ∈ List.range 1024, entryAddress (m'.word (m.word chunk + 4 * i)) =
      entryAddress (m.word (m.word chunk + 4 * i)) := by
    intro i hi
    rw [heq _ (Or.inr ⟨i, List.mem_range.mp hi, rfl⟩)]
  rw [chunkPages, chunkPages, hchunk, List.map_congr_left htables]

/-- What is not written in the pages of a chunk leaves its address space alone. -/
lemma SpaceIn.congr (h : SpaceIn m chunk A)
    (heq : ∀ p ∈ chunkPages m chunk, ∀ x < 4096, m'.word (p + x) = m.word (p + x)) :
    SpaceIn m' chunk A ∧ chunkPages m' chunk = chunkPages m chunk := by
  have hword : ∀ a, a ∈ leadingWords m chunk ∨ a ∈ tableWords m chunk →
      m'.word a = m.word a := by
    intro a ha
    obtain ⟨p, hp, x, hx, rfl⟩ := exists_chunkPages ha
    exact heq p hp x hx
  have hpages := chunkPages_congr fun a ha => hword a (Or.inl ha)
  obtain ⟨c, hc, hspace⟩ := h.space
  exact ⟨⟨by rw [hpages]; exact h.pages, c, hc.congr hword, hspace⟩, hpages⟩

/-- The bytes of allocations that share no block are different. -/
lemma add_ne_of_apart {p q x y k n : ℕ} (hp : IsBlock p) (hq : IsBlock q)
    (hapart : (extentAt p k).Apart (extentAt q n)) (hx : x < k * 4096) (hy : y < n * 4096) :
    p + x ≠ q + y := by
  obtain ⟨s, rfl⟩ : ∃ s, p = blockAddress s := ⟨_, hp⟩
  obtain ⟨t, rfl⟩ : ∃ t, q = blockAddress t := ⟨_, hq⟩
  rw [extentAt_blockAddress, extentAt_blockAddress] at hapart
  intro heq
  simp only [blockAddress, heapBlockSize] at heq
  refine hapart (s + x / 4096) ⟨⟨?_, ?_⟩, ?_, ?_⟩
  all_goals
    simp only
    omega

/-! ## The kernel heap with its directories -/

/-- The memory, the allocations of the other users with their sizes, and the address spaces that
were asked for, by the addresses of their chunks. -/
structure SpacesRun where
  memory : PagingMemory
  others : List (ℕ × ℕ)
  spaces : List (ℕ × AddressSpace)

/-- A call for a directory, or something that another user does with the heap. -/
inductive SpacesOp
  | new (flags : UInt8)
  | mapTo (call : MapCall)
  | free (chunk : ℕ)
  | kzalloc (size : ℕ)
  | kfree (ptr : ℕ)
  | write (a : ℕ) (val : UInt32)

def spacesStep (r : SpacesRun) : SpacesOp → Option SpacesRun
  | .new flags =>
    let (m, chunk) := r.memory.pagingNew4gb flags
    some ⟨m, r.others, (chunk, AddressSpace.identity flags) :: r.spaces⟩
  | .mapTo call =>
    (mapStep r.memory call).map fun m => ⟨m, r.others, r.spaces.map fun s =>
      if s.1 = call.chunk.toNat then (s.1, s.2.mapTo call) else s⟩
  | .free chunk =>
    some ⟨r.memory.pagingFree4gb chunk, r.others, r.spaces.eraseP (·.1 == chunk)⟩
  | .kzalloc size =>
    let (m, ptr) := r.memory.kzalloc size
    some ⟨m, if ptr = 0 then r.others else (ptr, size) :: r.others, r.spaces⟩
  | .kfree ptr => some ⟨r.memory.kfree ptr, r.others.eraseP (·.1 == ptr), r.spaces⟩
  | .write a val => some ⟨r.memory.set a val.toNat, r.others, r.spaces⟩

/-- There are free blocks for a new directory, calls are for directories in use, and the other users
ask for memory that there is and keep to their own. -/
def SpacesLegal (r : SpacesRun) : SpacesOp → Prop
  | .new _ => 1026 ≤ (freeBlocks r.memory.heap).card
  | .mapTo call => ∃ s ∈ r.spaces, s.1 = call.chunk.toNat
  | .free chunk => ∃ s ∈ r.spaces, s.1 = chunk
  | .kzalloc size => size < heapSizeBytes ∧ HeapRoom r.memory.heap size
  | .kfree ptr => ∃ o ∈ r.others, o.1 = ptr
  | .write a _ => a % 4 = 0 ∧ (a < heapAddress ∨ ∃ o ∈ r.others, o.1 ≤ a ∧ a < o.1 + o.2)

/-- Each directory has the entries of its address space and translates by them, and the heap lacks
nothing but what is in use. -/
structure SpacesOk (heap₀ : Heap) (r : SpacesRun) : Prop where
  nodup : (r.spaces.map Prod.fst).Nodup
  entry : ∀ s ∈ r.spaces, ∀ page < 2 ^ 20,
    r.memory.pagingGet (r.memory.word s.1) (page * 4096) = s.2 page
  physical : ∀ s ∈ r.spaces, ∀ virt < 2 ^ 32,
    r.memory.pagingGetPhysicalAddress (r.memory.word s.1) virt =
      (entryAddress (s.2 (virt / 4096)) + virt % 4096) % 2 ^ 32
  card_free : (freeBlocks r.memory.heap).card + 1026 * r.spaces.length +
    (r.others.map fun o => blocksFor o.2).sum = kernelBlocks
  restored : r.spaces = [] → r.others = [] →
    r.memory.heap.table.entries = heap₀.table.entries

/-- The allocations of the other users. -/
def otherExtents (others : List (ℕ × ℕ)) : List Extent :=
  others.map fun o => extentAt o.1 (blocksFor o.2)

/-- The allocations of the directories. -/
def spaceExtents (m : PagingMemory) (spaces : List (ℕ × AddressSpace)) : List Extent :=
  spaces.flatMap fun s => chunkExtents m s.1

/-- The heap is shared out among the directories and the other users. -/
structure SpacesInv (heap₀ : Heap) (r : SpacesRun) : Prop where
  holding : Holding heap₀ r.memory.heap
    (spaceExtents r.memory r.spaces ++ otherExtents r.others)
  space : ∀ s ∈ r.spaces, SpaceIn r.memory s.1 s.2
  other : ∀ o ∈ r.others, IsBlock o.1 ∧ 0 < o.2

variable {heap₀ : Heap} {r : SpacesRun} {spaces : List (ℕ × AddressSpace)} {others : List (ℕ × ℕ)}

lemma extentAt_mem_spaceExtents {s : ℕ × AddressSpace} {p : ℕ} (hs : s ∈ spaces)
    (hp : p ∈ chunkPages m s.1) : extentAt p 1 ∈ spaceExtents m spaces :=
  List.mem_flatMap.mpr ⟨s, hs, List.mem_map.mpr ⟨p, hp, rfl⟩⟩

/-- Address spaces in whose pages nothing is written. -/
lemma spaces_congr (h : ∀ s ∈ spaces, SpaceIn m s.1 s.2)
    (heq : ∀ s ∈ spaces, ∀ p ∈ chunkPages m s.1, ∀ x < 4096, m'.word (p + x) = m.word (p + x)) :
    (∀ s ∈ spaces, SpaceIn m' s.1 s.2) ∧ spaceExtents m' spaces = spaceExtents m spaces := by
  have hcongr : ∀ s ∈ spaces, SpaceIn m' s.1 s.2 ∧ chunkPages m' s.1 = chunkPages m s.1 :=
    fun s hs => (h s hs).congr (heq s hs)
  refine ⟨fun s hs => (hcongr s hs).1, ?_⟩
  refine congrArg List.flatten (List.map_congr_left fun s hs => ?_)
  rw [chunkExtents, chunkExtents, (hcongr s hs).2]

namespace SpacesInv

lemma packed (h : SpacesInv heap₀ r) : Extent.Packed r.memory.heap.table.total
    (spaceExtents r.memory r.spaces ++ otherExtents r.others) :=
  h.holding.lists.packed

/-- The pages of a directory are not those of another one. -/
lemma page_ne (h : SpacesInv heap₀ r) {s t : ℕ × AddressSpace} (hs : s ∈ r.spaces)
    (ht : t ∈ r.spaces) (hst : s ≠ t) {p q x y : ℕ} (hp : p ∈ chunkPages r.memory s.1)
    (hq : q ∈ chunkPages r.memory t.1) (hx : x < 4096) (hy : y < 4096) : p + x ≠ q + y := by
  have hpairwise := (List.pairwise_flatMap.mp (List.pairwise_append.mp h.packed.apart).1).2
  have hsymm : Std.Symm fun a b : ℕ × AddressSpace => ∀ e ∈ chunkExtents r.memory a.1,
      ∀ f ∈ chunkExtents r.memory b.1, e.Apart f :=
    ⟨fun a b hab e he f hf => (hab f hf e he).symm⟩
  have hapart := hpairwise.forall hs ht hst
  refine add_ne_of_apart ((h.space s hs).pages p hp) ((h.space t ht).pages q hq)
    (hapart _ (List.mem_map.mpr ⟨p, hp, rfl⟩) _ (List.mem_map.mpr ⟨q, hq, rfl⟩)) ?_ ?_
  all_goals omega

/-- The pages of a directory are not in the allocation of another user. -/
lemma page_ne_other (h : SpacesInv heap₀ r) {s : ℕ × AddressSpace} {o : ℕ × ℕ}
    (hs : s ∈ r.spaces) (ho : o ∈ r.others) {p x y : ℕ} (hp : p ∈ chunkPages r.memory s.1)
    (hx : x < 4096) (hy : y < o.2) : p + x ≠ o.1 + y := by
  have hapart := (List.pairwise_append.mp h.packed.apart).2.2 _ (extentAt_mem_spaceExtents hs hp) _
    (List.mem_map.mpr ⟨o, ho, rfl⟩)
  refine add_ne_of_apart ((h.space s hs).pages p hp) (h.other o ho).1 hapart (by omega) ?_
  rw [blocksFor, heapBlockSize]
  omega

lemma page_ge (h : SpacesInv heap₀ r) {s : ℕ × AddressSpace} (hs : s ∈ r.spaces) {p : ℕ}
    (hp : p ∈ chunkPages r.memory s.1) : heapAddress ≤ p := by
  rw [(h.space s hs).pages p hp]
  exact Nat.le_add_right _ _

lemma nodup (h : SpacesInv heap₀ r) : (r.spaces.map Prod.fst).Nodup := by
  have hpairwise := (List.pairwise_flatMap.mp (List.pairwise_append.mp h.packed.apart).1).2
  refine List.pairwise_map.mpr (hpairwise.imp fun {s t} hst heq => ?_)
  have hs : s.1 ∈ chunkPages r.memory s.1 := mem_chunkPages.mpr (Or.inr (Or.inr rfl))
  have ht : s.1 ∈ chunkPages r.memory t.1 := mem_chunkPages.mpr (Or.inr (Or.inr heq))
  exact hst _ (List.mem_map.mpr ⟨_, hs, rfl⟩) _ (List.mem_map.mpr ⟨_, ht, rfl⟩)
    (extentAt s.1 1).start ⟨⟨le_rfl, Nat.lt_succ_self _⟩, le_rfl, Nat.lt_succ_self _⟩

/-! ## What another user does -/

lemma write (h : SpacesInv heap₀ r) {a : ℕ} {val : UInt32} (hlegal : SpacesLegal r (.write a val)) :
    SpacesInv heap₀ ⟨r.memory.set a val.toNat, r.others, r.spaces⟩ := by
  obtain ⟨hspace, hextents⟩ := @spaces_congr r.memory (r.memory.set a val.toNat) r.spaces h.space
    fun s hs p hp x hx => by
      refine Function.update_of_ne (fun hc => ?_) _ _
      rcases hlegal.2 with hlow | ⟨o, ho, hle, hlt⟩
      · have := h.page_ge hs hp
        omega
      · refine h.page_ne_other hs ho hp hx (show a - o.1 < o.2 by omega) ?_
        omega
  refine ⟨?_, hspace, h.other⟩
  simp only
  rw [hextents]
  exact h.holding

lemma kfree (h : SpacesInv heap₀ r) {ptr : ℕ} (hlegal : SpacesLegal r (.kfree ptr)) :
    SpacesInv heap₀ ⟨r.memory.kfree ptr, r.others.eraseP (·.1 == ptr), r.spaces⟩ := by
  obtain ⟨o, ho, hptr⟩ := hlegal
  obtain ⟨o, O₁, O₂, -, hmatch, heq, herase⟩ :=
    List.exists_of_eraseP ho (p := fun u => u.1 == ptr) (beq_iff_eq.mpr hptr)
  obtain rfl : o.1 = ptr := beq_iff_eq.mp hmatch
  have hmem : o ∈ r.others := heq ▸ List.mem_append_right O₁ List.mem_cons_self
  obtain ⟨hblock, hsize⟩ := h.other o hmem
  rw [herase]
  have hspace := @spaces_congr r.memory (r.memory.kfree o.1) r.spaces h.space
    fun _ _ _ _ _ _ => rfl
  refine ⟨?_, hspace.1, fun u hu => h.other u ?_⟩
  · have hperm : (spaceExtents r.memory r.spaces ++ otherExtents r.others).Perm
        (extentAt o.1 (blocksFor o.2) ::
          (spaceExtents r.memory r.spaces ++ otherExtents (O₁ ++ O₂))) := by
      rw [heq, otherExtents, List.map_append, List.map_cons, otherExtents, List.map_append,
        ← List.append_assoc, ← List.append_assoc]
      exact List.perm_middle
    have hfree := (h.holding.perm hperm).kfree (blocksFor_pos hsize)
    rwa [← hblock] at hfree
  · rw [heq]
    rcases List.mem_append.mp hu with hu | hu
    · exact List.mem_append_left _ hu
    · exact List.mem_append_right _ (List.mem_cons_of_mem _ hu)

lemma kzalloc (h : SpacesInv heap₀ r) {size : ℕ} (hlegal : SpacesLegal r (.kzalloc size)) :
    ∃ r', spacesStep r (.kzalloc size) = some r' ∧ SpacesInv heap₀ r' := by
  rcases h.holding.kzalloc hlegal.1 hlegal.2 with hk | ⟨s, heap', hk, hsize, hholding⟩
  · have hzero : r.memory.kzalloc size =
        (⟨r.memory.heap, r.memory.word, r.memory.allocated ++ [0], r.memory.freed⟩, 0) := by
      simp only [PagingMemory.kzalloc, hk, if_pos]
    refine ⟨⟨(r.memory.kzalloc size).1, r.others, r.spaces⟩, ?_, ?_⟩
    · rw [spacesStep, hzero]
      rfl
    · have hspace := @spaces_congr r.memory (r.memory.kzalloc size).1 r.spaces h.space
        fun _ _ _ _ _ _ => by rw [hzero]
      rw [hzero] at hspace ⊢
      exact ⟨h.holding, hspace.1, h.other⟩
  · obtain ⟨m', hm'⟩ : ∃ m', (r.memory.kzalloc size).1 = m' := ⟨_, rfl⟩
    have hptr : r.memory.kzalloc size = (m', blockAddress s) := by
      rw [← hm']
      simp only [PagingMemory.kzalloc, hk]
    have hheap : m'.heap = heap' := by
      rw [← hm']
      simp only [PagingMemory.kzalloc, hk]
    have hword : ∀ a, (∀ y < size, a ≠ blockAddress s + y) → m'.word a = r.memory.word a := by
      intro a ha
      rw [← hm']
      simp only [PagingMemory.kzalloc, hk, if_neg (blockAddress_ne_zero s)]
      rw [if_neg]
      rintro ⟨hle, hlt⟩
      exact ha (a - blockAddress s) (Nat.sub_lt_left_of_lt_add hle hlt)
        (Nat.add_sub_of_le hle).symm
    have hnew := hholding.lists.packed.apart
    obtain ⟨hspace, hextents⟩ := @spaces_congr r.memory m' r.spaces h.space
      fun t ht p hp x hx => hword _ fun y hy => by
        have hapart := (List.pairwise_cons.mp hnew).1 _
          (List.mem_append_left _ (extentAt_mem_spaceExtents ht hp))
        rw [← extentAt_blockAddress] at hapart
        refine add_ne_of_apart ((h.space t ht).pages p hp) (isBlock_blockAddress s) hapart.symm
          (by omega) ?_
        rw [blocksFor, heapBlockSize]
        omega
    refine ⟨⟨m', (blockAddress s, size) :: r.others, r.spaces⟩, ?_, ?_, hspace, ?_⟩
    · rw [spacesStep, hptr]
      simp only
      rw [if_neg (blockAddress_ne_zero s)]
    · simp only
      rw [hextents, hheap, otherExtents, List.map_cons, extentAt_blockAddress]
      exact hholding.perm List.perm_middle.symm
    · exact List.forall_mem_cons.mpr ⟨⟨isBlock_blockAddress s, hsize⟩, h.other⟩

/-! ## What is done with a directory -/

lemma new (h : SpacesInv heap₀ r) {flags : UInt8} (hlegal : SpacesLegal r (.new flags)) :
    ∃ r', spacesStep r (.new flags) = some r' ∧ SpacesInv heap₀ r' := by
  obtain ⟨m, dir, sc, T, hnew, hchunk⟩ := pagingNew4gb_newChunk flags h.holding.kernelTable hlegal
  have hpages : chunkPages m (blockAddress sc) = (T ++ [dir, sc]).map blockAddress := by
    have htables : (List.range 1024).map
        (fun i => entryAddress (m.word (m.word (blockAddress sc) + 4 * i))) =
          T.map blockAddress := by
      refine List.ext_getElem ?_ fun i hi hi' => ?_
      · rw [List.length_map, List.length_map, List.length_range, hchunk.length_eq]
      · rw [List.length_map] at hi'
        rw [List.getElem_map, List.getElem_map, List.getElem_range,
          hchunk.entryAddress_eq h.holding.kernelTable hi']
    rw [chunkPages, htables, hchunk.chunk, List.map_append]
    rfl
  have hextents : chunkExtents m (blockAddress sc) = singles (T ++ [dir, sc]) := by
    rw [chunkExtents, hpages, List.map_map]
    exact List.map_congr_left fun s _ => extentAt_blockAddress s 1
  have hperm : (singles (dir :: (T ++ [sc]))).Perm (singles (T ++ [dir, sc])) :=
    List.perm_middle.symm.map _
  have hholding := (h.holding.marked hchunk.marked).perm (hperm.append_right _)
  have hapart := (List.pairwise_append.mp hholding.lists.packed.apart).2.2
  -- the blocks of the new directory were free, so they are in no directory in use
  obtain ⟨hspace, hspaces⟩ := @spaces_congr r.memory m r.spaces h.space fun s hs p hp x hx => by
    refine hchunk.word_eq _ fun b hb y hy => ?_
    have hb' : b ∈ T ++ [dir, sc] := List.perm_middle.symm.mem_iff.mp hb
    have hblock := hapart _ (mem_singles.mpr ⟨b, hb', rfl⟩) _
      (List.mem_append_left _ (extentAt_mem_spaceExtents hs hp))
    rw [← extentAt_blockAddress] at hblock
    refine add_ne_of_apart ((h.space s hs).pages p hp) (isBlock_blockAddress b) hblock.symm ?_ ?_
    all_goals omega
  refine ⟨⟨m, r.others, (blockAddress sc, AddressSpace.identity flags) :: r.spaces⟩, ?_, ?_, ?_,
    h.other⟩
  · rw [spacesStep, hnew]
  · simp only
    rw [spaceExtents, List.flatMap_cons, ← spaceExtents, hspaces, hextents, List.append_assoc]
    exact hholding
  · refine List.forall_mem_cons.mpr ⟨⟨fun p hp => ?_, ?_⟩, hspace⟩
    · rw [hpages] at hp
      obtain ⟨s, -, rfl⟩ := List.mem_map.mp hp
      exact isBlock_blockAddress s
    · obtain ⟨t, ht⟩ := hchunk.represents h.holding.kernelTable
      exact ⟨_, ht, pagingNew4gb_hasSpace flags t⟩

lemma mapTo (h : SpacesInv heap₀ r) {call : MapCall} (hlegal : SpacesLegal r (.mapTo call)) :
    ∃ r', spacesStep r (.mapTo call) = some r' ∧ SpacesInv heap₀ r' := by
  obtain ⟨s, hs, hcall⟩ := hlegal
  obtain ⟨c, hc, hspace⟩ := (h.space s hs).space
  obtain ⟨m, hm⟩ : ∃ m, (r.memory.pagingMapTo call.chunk.toNat call.virt.toNat call.phys.toNat
    call.physEnd.toNat call.flags.toNat).2 = m := ⟨_, rfl⟩
  have hmaps := pagingMapTo_mapsOnly r.memory call.virt.toNat_lt call.phys.toNat
    call.physEnd.toNat call.flags.toNat hc.apart
  obtain ⟨-, hmapped⟩ := hc.pagingMapTo call.virt.toNat_lt call.phys.toNat call.physEnd.toNat
    call.flags.toNat
  rw [hcall, hm] at hmaps hmapped
  -- the tables that are written are pages of this directory
  have hother : ∀ t ∈ r.spaces, t.1 ≠ s.1 → SpaceIn m t.1 t.2 ∧
      chunkPages m t.1 = chunkPages r.memory t.1 := by
    intro t ht hts
    refine (h.space t ht).congr fun p hp x hx => hmaps.word_eq _ ?_
    rintro ⟨i, hi, j, hj, hword⟩
    refine h.page_ne ht hs (fun hc => hts (congrArg Prod.fst hc)) hp
      (mem_chunkPages.mpr (Or.inl ⟨i, hi, rfl⟩)) hx (show 4 * j < 4096 by omega) ?_
    rw [hword, hcall]
  have hpages : chunkPages m s.1 = chunkPages r.memory s.1 := by
    refine chunkPages_congr fun a ha => hmaps.word_eq a fun hc' => ?_
    rw [← hcall] at hc'
    exact hc.apart a hc' ha
  refine ⟨⟨m, r.others, r.spaces.map fun t =>
    if t.1 = call.chunk.toNat then (t.1, t.2.mapTo call) else t⟩, ?_, ?_, ?_, h.other⟩
  · rw [spacesStep, mapStep, hm]
    rfl
  · have hextents : spaceExtents m (r.spaces.map fun t =>
        if t.1 = call.chunk.toNat then (t.1, t.2.mapTo call) else t) =
          spaceExtents r.memory r.spaces := by
      rw [spaceExtents, List.flatMap_map]
      refine congrArg List.flatten (List.map_congr_left fun t ht => ?_)
      by_cases hts : t.1 = s.1
      · rw [if_pos (hts.trans hcall), chunkExtents, chunkExtents, hts, hpages]
      · rw [if_neg (hcall ▸ hts), chunkExtents, chunkExtents, (hother t ht hts).2]
    simp only
    rw [hextents, hmaps.heap_eq]
    exact h.holding
  · intro u hu
    obtain ⟨t, ht, rfl⟩ := List.mem_map.mp hu
    by_cases hts : t.1 = s.1
    · obtain rfl : t = s := List.inj_on_of_nodup_map h.nodup ht hs hts
      rw [← hcall] at hmapped
      rw [if_pos hcall]
      refine ⟨fun p hp => (h.space t hs).pages p ?_, _, hmapped, hspace.mapTo call⟩
      rwa [← hpages]
    · rw [if_neg (hcall ▸ hts)]
      exact (hother t ht hts).1

end SpacesInv

lemma freeTables_fold : ∀ (k i : ℕ) (m : PagingMemory), (freeTables chunk k i m).word = m.word ∧
    (freeTables chunk k i m).heap = ((List.range' i k).map fun j =>
      entryAddress (m.word (m.word chunk + 4 * j))).foldl SerpaeOS.kfree m.heap := by
  intro k
  induction k with
  | zero => exact fun _ _ => ⟨rfl, rfl⟩
  | succ k ih =>
    intro i m
    obtain ⟨hword, hheap⟩ := ih (i + 1) (m.kfree (entryAddress (m.word (m.word chunk + 4 * i))))
    rw [freeTables, hword, hheap]
    exact ⟨rfl, rfl⟩

/-- `paging_free_4gb` frees the pages of the chunk. -/
lemma pagingFree4gb_eq (m : PagingMemory) (chunk : ℕ) : (m.pagingFree4gb chunk).word = m.word ∧
    (m.pagingFree4gb chunk).heap = (chunkPages m chunk).foldl SerpaeOS.kfree m.heap := by
  obtain ⟨hword, hheap⟩ := @freeTables_fold chunk 1024 0 m
  rw [← List.range_eq_range'] at hheap
  obtain ⟨m', hm'⟩ : ∃ m', freeTables chunk 1024 0 m = m' := ⟨_, rfl⟩
  rw [hm'] at hword hheap
  rw [pagingFree4gb, chunkPages, List.foldl_append, ← hheap, hm', ← hword]
  exact ⟨rfl, rfl⟩

namespace SpacesInv

lemma free (h : SpacesInv heap₀ r) {chunk : ℕ} (hlegal : SpacesLegal r (.free chunk)) :
    SpacesInv heap₀
      ⟨r.memory.pagingFree4gb chunk, r.others, r.spaces.eraseP (·.1 == chunk)⟩ := by
  obtain ⟨s, hs, hchunk⟩ := hlegal
  obtain ⟨s, S₁, S₂, -, hmatch, heq, herase⟩ :=
    List.exists_of_eraseP hs (p := fun u => u.1 == chunk) (beq_iff_eq.mpr hchunk)
  obtain rfl : s.1 = chunk := beq_iff_eq.mp hmatch
  have hmem : s ∈ r.spaces := heq ▸ List.mem_append_right S₁ List.mem_cons_self
  have hsub : ∀ t ∈ S₁ ++ S₂, t ∈ r.spaces := by
    intro t ht
    rw [heq]
    rcases List.mem_append.mp ht with ht | ht
    · exact List.mem_append_left _ ht
    · exact List.mem_append_right _ (List.mem_cons_of_mem _ ht)
  obtain ⟨hword, hheap⟩ := pagingFree4gb_eq r.memory s.1
  obtain ⟨hspace, hextents⟩ := @spaces_congr r.memory (r.memory.pagingFree4gb s.1) (S₁ ++ S₂)
    (fun t ht => h.space t (hsub t ht)) fun _ _ _ _ _ _ => by rw [hword]
  rw [herase]
  refine ⟨?_, hspace, h.other⟩
  have hperm : (spaceExtents r.memory r.spaces ++ otherExtents r.others).Perm
      (chunkExtents r.memory s.1 ++
        (spaceExtents r.memory (S₁ ++ S₂) ++ otherExtents r.others)) := by
    rw [← List.append_assoc]
    refine List.Perm.append_right _ ?_
    rw [heq, spaceExtents, spaceExtents]
    exact List.perm_middle.flatMap_right _
  obtain ⟨blocks, hblocks⟩ : ∃ blocks, blocks =
    (chunkPages r.memory s.1).map fun p => (p - heapAddress) / heapBlockSize := ⟨_, rfl⟩
  have hpages : blocks.map blockAddress = chunkPages r.memory s.1 := by
    rw [hblocks, List.map_map]
    exact (List.map_congr_left fun p hp => ((h.space s hmem).pages p hp).symm).trans
      (List.map_id _)
  have hsingles : chunkExtents r.memory s.1 = singles blocks := by
    rw [hblocks, singles, List.map_map]
    rfl
  have hholding := h.holding.perm hperm
  rw [hsingles] at hholding
  have hfreed := hholding.kfreeAll
  simp only
  rwa [hextents, hheap, ← hpages]

/-- One step. -/
lemma step (h : SpacesInv heap₀ r) {op : SpacesOp} (hlegal : SpacesLegal r op) :
    ∃ r', spacesStep r op = some r' ∧ SpacesInv heap₀ r' := by
  cases op with
  | new flags => exact h.new hlegal
  | mapTo call => exact h.mapTo hlegal
  | free chunk => exact ⟨_, rfl, h.free hlegal⟩
  | kzalloc size => exact h.kzalloc hlegal
  | kfree ptr => exact ⟨_, rfl, h.kfree hlegal⟩
  | write a val => exact ⟨_, rfl, h.write hlegal⟩

lemma ok (h : SpacesInv heap₀ r) (h₀ : Holding heap₀ heap₀ []) : SpacesOk heap₀ r := by
  have hentry : ∀ s ∈ r.spaces, ∀ page < 2 ^ 20,
      r.memory.pagingGet (r.memory.word s.1) (page * 4096) = s.2 page := by
    intro s hs page hpage
    obtain ⟨c, hc, hspace⟩ := (h.space s hs).space
    rw [hc.pagingGet (by omega) (Nat.mul_mod_left page 4096)]
    exact hspace page hpage
  refine ⟨h.nodup, hentry, fun s hs virt hvirt => ?_, ?_, fun hspaces hothers => ?_⟩
  · rw [pagingGetPhysicalAddress, pagingAlignToLowerPage_eq, hentry s hs _ (by omega),
      show virt - virt / 4096 * 4096 = virt % 4096 by omega]
  · have hcard := h.holding.card_freeBlocks
    have hlen : ∀ s, ((chunkExtents r.memory s).map Extent.len).sum = 1026 := by
      intro s
      have hones : (chunkExtents r.memory s).map Extent.len =
          (chunkPages r.memory s).map fun _ => 1 := by
        rw [chunkExtents, List.map_map]
        rfl
      rw [hones, List.map_const', List.sum_replicate_nat, Nat.mul_one, chunkPages,
        List.length_append, List.length_map, List.length_range]
      rfl
    have hspaces : ∀ S : List (ℕ × AddressSpace),
        ((spaceExtents r.memory S).map Extent.len).sum = 1026 * S.length := by
      intro S
      induction S with
      | nil => rfl
      | cons s S ih =>
        rw [spaceExtents, List.flatMap_cons, List.map_append, List.sum_append, hlen,
          ← spaceExtents, ih, List.length_cons]
        omega
    rw [List.map_append, List.sum_append, hspaces, otherExtents, List.map_map] at hcard
    rw [← hcard, Nat.add_assoc]
    rfl
  · have hholding := h.holding
    rw [hspaces, hothers] at hholding
    exact hholding.entries_eq h₀

end SpacesInv

/-- Directories are made, mapped and given back in any order, among whatever the other users of the
heap do. -/
theorem spaces_run (entries : ℤ → Entry) (heap₀ : Heap) (word : ℕ → ℕ) (ops : List SpacesOp)
    (hinit : kheapInit entries = .ok heap₀)
    (hlegal : Guarded spacesStep SpacesLegal ⟨⟨heap₀, word, [], []⟩, [], []⟩ ops) :
    Always spacesStep (SpacesOk heap₀) ⟨⟨heap₀, word, [], []⟩, [], []⟩ ops := by
  have h₀ := holding_init hinit
  refine always_of_guarded (I := SpacesInv heap₀) (fun r hr => hr.ok h₀)
    (fun r op hr hop _ => hr.step hop) ⟨h₀, ?_, ?_⟩ hlegal guarded_true
  · exact fun s hs => absurd hs List.not_mem_nil
  · exact fun o ho => absurd ho List.not_mem_nil

lemma exists_guarded {r : SpacesRun} (hheap : KernelTable r.memory.heap)
    (hroom : 1026 ≤ (freeBlocks r.memory.heap).card) : ∃ (chunk : ℕ) (call : MapCall),
      Guarded spacesStep SpacesLegal r [.new 1, .mapTo call, .free chunk] := by
  obtain ⟨m, dir, sc, T, hnew, h⟩ := pagingNew4gb_newChunk 1 hheap hroom
  have hsc : blockAddress sc < 2 ^ 32 := by
    have := blockAddress_add_le (h.marked.lt_kernelBlocks hheap
      (List.mem_cons_of_mem _ (List.mem_append_right _ (List.mem_singleton_self sc))))
    omega
  have hchunk : (UInt32.ofNat (blockAddress sc)).toNat = blockAddress sc :=
    UInt32.toNat_ofNat_of_lt' hsc
  refine ⟨blockAddress sc, ⟨UInt32.ofNat (blockAddress sc), 0x5000, 0x7000, 0x8000, 7⟩, hroom,
    fun r₁ h₁ => ?_⟩
  rw [spacesStep, hnew] at h₁
  obtain rfl := Option.some.inj h₁
  refine ⟨⟨_, List.mem_cons_self, hchunk.symm⟩, fun r₂ h₂ => ?_⟩
  rw [spacesStep, mapStep, Option.map_some] at h₂
  obtain rfl := Option.some.inj h₂
  refine ⟨⟨_, List.mem_cons_self, ?_⟩, fun _ _ => trivial⟩
  simp only
  rw [hchunk, if_pos rfl]

/-- A directory is made, a page of it is mapped, and it is given back. -/
theorem spaces_run_freshHeap : ∃ (chunk : ℕ) (call : MapCall),
    Always spacesStep (SpacesOk freshHeap) ⟨⟨freshHeap, lowChunk, [], []⟩, [], []⟩
      [.new 1, .mapTo call, .free chunk] := by
  have hroom : 1026 ≤ (freeBlocks freshHeap).card := by
    rw [card_freeBlocks_freshHeap]
    decide
  obtain ⟨chunk, call, hlegal⟩ := @exists_guarded ⟨⟨freshHeap, lowChunk, [], []⟩, [], []⟩
    reachableHeap_freshHeap.kernelTable hroom
  exact ⟨chunk, call, spaces_run _ freshHeap lowChunk _ freshHeap_init hlegal⟩

end PagingMemory

end SerpaeOS
