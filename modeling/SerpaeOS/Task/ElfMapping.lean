import SerpaeOS.Heap.Kheap
import SerpaeOS.Loader.Elf
import SerpaeOS.Memory.Paging

/-!
# Mapping an ELF image

`process_map_elf` maps the segments of a loaded ELF file into the page directory of the
new process.  Which physical pages the process may write is decided by fields of the file
that nothing checks against the size of the image.
-/

namespace SerpaeOS

/-- The flags of a new process's directory and of a segment that is not writable. -/
def pagingUserFlags : ℕ := pagingIsPresent ||| pagingAccessFromAll

/-- The flags with which a program header is mapped. -/
def phdrFlags (phdr : Elf32Phdr) : ℕ :=
  if phdr.pFlags &&& pfW ≠ 0 then pagingUserFlags ||| pagingIsWriteable else pagingUserFlags

/-- The first page and the end of the pages of a program header in physical memory. -/
def segmentStart (elfMemory : ℕ) (phdr : Elf32Phdr) : ℕ :=
  pagingAlignToLowerPage ((elfMemory + phdr.pOffset) % 2 ^ 32)

def segmentEnd (elfMemory : ℕ) (phdr : Elf32Phdr) : ℕ :=
  pagingAlignAddress (((elfMemory + phdr.pOffset) % 2 ^ 32 + phdr.pMemsz) % 2 ^ 32)

/-- The body of the loop of `process_map_elf`. -/
def processMapPhdr (file : ElfFile) (phdr : Elf32Phdr) (c : PagingChunk) : ℤ × PagingChunk :=
  pagingMapTo c (pagingAlignToLowerPage phdr.pVaddr) (segmentStart file.elfMemory phdr)
    (segmentEnd file.elfMemory phdr) (phdrFlags phdr)

/-- The loop of `process_map_elf` with `k` headers still to come. -/
def processMapElfLoop (mem : Memory) (file : ElfFile) : ℕ → ℕ → PagingChunk → ℤ × PagingChunk
  | 0, _, c => (0, c)
  | k + 1, i, c =>
    let (res, c) := processMapPhdr file (elfProgramHeader mem file i) c
    if res < 0 then (res, c) else processMapElfLoop mem file k (i + 1) c

def processMapElf (mem : Memory) (file : ElfFile) (c : PagingChunk) : ℤ × PagingChunk :=
  processMapElfLoop mem file (elfHeader mem file).ePhnum 0 c

/-- The page directory after the first `k` headers. -/
def mapElfUpTo (mem : Memory) (file : ElfFile) (c : PagingChunk) (k : ℕ) : PagingChunk :=
  (processMapElfLoop mem file k 0 c).2

/-! ## The property -/

/-- Every page that user code may write lies in the blocks of the image. -/
def WritableInside (base size : ℕ) (c : PagingChunk) : Prop :=
  ∀ v < 2 ^ 20, UserWritable c (v * pagingPageSize) →
    base ≤ entryAddress (pagingGet c (v * pagingPageSize)) ∧
      entryAddress (pagingGet c (v * pagingPageSize)) + pagingPageSize ≤
        base + blocksFor size * heapBlockSize

/-- The pages of the header lie in the blocks of the image, unless the header is not
writable or has no pages. -/
def SegmentInside (base size : ℕ) (phdr : Elf32Phdr) : Prop :=
  phdr.pFlags &&& pfW ≠ 0 → segmentStart base phdr < segmentEnd base phdr →
    base ≤ segmentStart base phdr ∧ segmentEnd base phdr ≤ base + blocksFor size * heapBlockSize

/-- Every header up to the first one whose pages end before they start lies inside. -/
def HeadersInside (base : ℕ) (content : List UInt8) : Prop :=
  ∀ i < (fileHeader content).ePhnum,
    (∀ j < i, segmentStart base (filePhdr content j) ≤ segmentEnd base (filePhdr content j)) →
    SegmentInside base content.length (filePhdr content i)

/-! ## One header -/

lemma segmentStart_aligned (base : ℕ) (phdr : Elf32Phdr) :
    segmentStart base phdr % 4096 = 0 ∧ segmentStart base phdr < 2 ^ 32 := by
  simp only [segmentStart, pagingAlignToLowerPage, pagingPageSize]
  omega

lemma segmentEnd_aligned (base : ℕ) (phdr : Elf32Phdr) :
    segmentEnd base phdr % 4096 = 0 ∧ segmentEnd base phdr < 2 ^ 32 := by
  rw [segmentEnd, pagingAlignAddress]
  split_ifs with h
  · simp only [pagingPageSize] at *
    omega
  · simp only [pagingPageSize] at *
    omega

lemma phdrFlags_lt (phdr : Elf32Phdr) : phdrFlags phdr < 4096 := by
  rw [phdrFlags]
  split_ifs <;> decide

/-- The entry of a page of the segment, and whether user code may write to it. -/
lemma entry_writable_iff {phdr : Elf32Phdr} {frame : ℕ} (hf : frame % 4096 = 0) :
    (frame ||| phdrFlags phdr) &&& 7 = 7 ↔ phdr.pFlags &&& pfW ≠ 0 := by
  rw [or_and_seven hf (phdrFlags_lt phdr), phdrFlags]
  split_ifs with h
  · exact ⟨fun _ => h, fun _ => by decide⟩
  · exact ⟨fun hc => absurd hc (by decide), fun hc => absurd hc h⟩

/-- A header is mapped, or its pages end before they start and nothing is done. -/
lemma processMapPhdr_cases (file : ElfFile) (phdr : Elf32Phdr) (hv : phdr.pVaddr < 2 ^ 32)
    (c : PagingChunk) :
    (segmentStart file.elfMemory phdr ≤ segmentEnd file.elfMemory phdr ∧
      ∃ c', processMapPhdr file phdr c = (0, c') ∧
        Mapped c c' (pagingAlignToLowerPage phdr.pVaddr) (segmentStart file.elfMemory phdr)
          (phdrFlags phdr)
          ((segmentEnd file.elfMemory phdr - segmentStart file.elfMemory phdr) / 4096)) ∨
      segmentEnd file.elfMemory phdr < segmentStart file.elfMemory phdr ∧
        processMapPhdr file phdr c = (-einvarg, c) := by
  have hvirt : pagingAlignToLowerPage phdr.pVaddr % 4096 = 0 ∧
      pagingAlignToLowerPage phdr.pVaddr < 2 ^ 32 := by
    simp only [pagingAlignToLowerPage, pagingPageSize]
    omega
  have hs := segmentStart_aligned file.elfMemory phdr
  have he := segmentEnd_aligned file.elfMemory phdr
  rcases @pagingMapTo_cases c _ (segmentStart file.elfMemory phdr) _ (phdrFlags phdr) hvirt.2 he.2
    with ⟨-, -, -, hle, h⟩ | ⟨hnot, h⟩
  · exact Or.inl ⟨hle, h⟩
  · refine Or.inr ⟨?_, h⟩
    by_contra hlt
    exact hnot ⟨hvirt.1, hs.1, he.1, by omega⟩

/-- Mapping a segment inside the image keeps the writable pages inside. -/
lemma WritableInside.mapped {base size : ℕ} {phdr : Elf32Phdr} {c c' : PagingChunk} {virt : ℕ}
    (h : WritableInside base size c) (hseg : SegmentInside base size phdr)
    (hm : Mapped c c' virt (segmentStart base phdr) (phdrFlags phdr)
      ((segmentEnd base phdr - segmentStart base phdr) / 4096)) :
    WritableInside base size c' := by
  have hs := segmentStart_aligned base phdr
  have he := segmentEnd_aligned base phdr
  intro v hv hw
  simp only [pagingPageSize] at *
  by_cases hin : ∃ j < (segmentEnd base phdr - segmentStart base phdr) / 4096,
      v * 4096 = (virt + j * 4096) % 2 ^ 32
  · -- a page of this segment
    obtain ⟨j, hj, hvj⟩ := hin
    have hget := hm.inside j hj
    rw [← hvj] at hget
    have hframe : (segmentStart base phdr + j * 4096) % 2 ^ 32 =
        segmentStart base phdr + j * 4096 := by omega
    rw [hframe] at hget
    have hwrite := hw.2
    rw [hget, entry_writable_iff (by omega)] at hwrite
    obtain ⟨h1, h2⟩ := hseg hwrite (by omega)
    rw [hget, entryAddress_or (by omega) (by omega) (phdrFlags_lt phdr)]
    omega
  · -- a page mapped before
    have hget := hm.outside (v * 4096) (by omega) (by omega) fun j hj heq => hin ⟨j, hj, heq⟩
    have hw' : UserWritable c (v * 4096) := by
      rw [UserWritable, hm.directory_eq, hget] at hw
      exact hw
    rw [hget]
    exact h v hv hw'

/-- Mapping a writable segment makes its pages writable, so they have to be inside. -/
lemma segmentInside_of_mapped {base size : ℕ} {phdr : Elf32Phdr} {c c' : PagingChunk} {virt : ℕ}
    (hv : virt % 4096 = 0) (hdir : ∀ i < 1024, c.directoryEntry i &&& 7 = 7)
    (hm : Mapped c c' virt (segmentStart base phdr) (phdrFlags phdr)
      ((segmentEnd base phdr - segmentStart base phdr) / 4096))
    (h : WritableInside base size c') : SegmentInside base size phdr := by
  intro hwrite hlt
  have hs := segmentStart_aligned base phdr
  have he := segmentEnd_aligned base phdr
  -- what the property says of page `j` of the segment
  have hpage : ∀ j < (segmentEnd base phdr - segmentStart base phdr) / 4096,
      base ≤ segmentStart base phdr + j * 4096 ∧
        segmentStart base phdr + j * 4096 + 4096 ≤ base + blocksFor size * heapBlockSize := by
    intro j hj
    have hget := hm.inside j hj
    have hframe : (segmentStart base phdr + j * 4096) % 2 ^ 32 =
        segmentStart base phdr + j * 4096 := by omega
    have hvirt : (virt + j * 4096) % 2 ^ 32 / 4096 * 4096 = (virt + j * 4096) % 2 ^ 32 := by omega
    rw [hframe, ← hvirt] at hget
    have hw := h ((virt + j * 4096) % 2 ^ 32 / 4096) (by omega)
    simp only [UserWritable, pagingPageSize, pagingTotalEntriesPerTable, hget, hm.directory_eq,
      entry_writable_iff (show (segmentStart base phdr + j * 4096) % 4096 = 0 by omega),
      entryAddress_or (show (segmentStart base phdr + j * 4096) % 4096 = 0 by omega)
        (show segmentStart base phdr + j * 4096 < 2 ^ 32 by omega) (phdrFlags_lt phdr)] at hw
    exact hw ⟨hdir _ (by omega), hwrite⟩
  have hfirst := hpage 0 (by omega)
  have hlast := hpage ((segmentEnd base phdr - segmentStart base phdr) / 4096 - 1) (by omega)
  omega

/-! ## The loop -/

/-- One more header is processed, unless an earlier one failed. -/
lemma processMapElfLoop_succ (mem : Memory) (file : ElfFile) :
    ∀ (k i : ℕ) (c : PagingChunk), processMapElfLoop mem file (k + 1) i c =
      if (processMapElfLoop mem file k i c).1 < 0 then processMapElfLoop mem file k i c
      else processMapElfLoop mem file 1 (i + k) (processMapElfLoop mem file k i c).2 := by
  intro k
  induction k with
  | zero => exact fun i c => rfl
  | succ k ih =>
    intro i c
    rw [processMapElfLoop, processMapElfLoop]
    simp only
    by_cases hres : (processMapPhdr file (elfProgramHeader mem file i) c).1 < 0
    · simp only [if_pos hres]
    · simp only [if_neg hres]
      rw [ih, Nat.add_right_comm i 1 k, Nat.add_assoc]

section Run

variable {mem : Memory} {file : ElfFile} {content : List UInt8} {c : PagingChunk}
  (hphdr : ∀ i < (fileHeader content).ePhnum,
    elfProgramHeader mem file i = filePhdr content i)

include hphdr

/-- Processing header `k` when no earlier one failed. -/
lemma processMapElfLoop_one {k : ℕ} (hk : k < (fileHeader content).ePhnum) (c : PagingChunk) :
    (segmentStart file.elfMemory (filePhdr content k) ≤
        segmentEnd file.elfMemory (filePhdr content k) ∧
      ∃ c', processMapElfLoop mem file 1 k c = (0, c') ∧
        Mapped c c' (pagingAlignToLowerPage (filePhdr content k).pVaddr)
          (segmentStart file.elfMemory (filePhdr content k)) (phdrFlags (filePhdr content k))
          ((segmentEnd file.elfMemory (filePhdr content k) -
            segmentStart file.elfMemory (filePhdr content k)) / 4096)) ∨
      segmentEnd file.elfMemory (filePhdr content k) <
          segmentStart file.elfMemory (filePhdr content k) ∧
        processMapElfLoop mem file 1 k c = (-einvarg, c) := by
  have hv : (filePhdr content k).pVaddr < 2 ^ 32 := Bytes.u32le_lt _ _
  simp only [processMapElfLoop, hphdr k hk]
  rcases processMapPhdr_cases file (filePhdr content k) hv c with ⟨hle, c', heq, hm⟩ | ⟨hlt, heq⟩
  · exact Or.inl ⟨hle, c', by simp [heq], hm⟩
  · exact Or.inr ⟨hlt, by simp [heq, einvarg]⟩

/-- The loop fails exactly when the pages of some header end before they start, and it
changes no directory entry. -/
lemma processMapElfLoop_state :
    ∀ k ≤ (fileHeader content).ePhnum,
      ((processMapElfLoop mem file k 0 c).1 < 0 ↔ ∃ j < k,
        segmentEnd file.elfMemory (filePhdr content j) <
          segmentStart file.elfMemory (filePhdr content j)) ∧
      (processMapElfLoop mem file k 0 c).2.directoryEntry = c.directoryEntry := by
  intro k
  induction k with
  | zero => exact fun _ => ⟨by simp [processMapElfLoop], rfl⟩
  | succ k ih =>
    intro hk
    obtain ⟨hfail, hdir⟩ := ih (by omega)
    rw [processMapElfLoop_succ, Nat.zero_add]
    by_cases hres : (processMapElfLoop mem file k 0 c).1 < 0
    · rw [if_pos hres]
      refine ⟨⟨fun _ => ?_, fun _ => hres⟩, hdir⟩
      obtain ⟨j, hj, hlt⟩ := hfail.mp hres
      exact ⟨j, by omega, hlt⟩
    · rw [if_neg hres]
      rcases processMapElfLoop_one hphdr (show k < _ by omega) (processMapElfLoop mem file k 0 c).2
        with ⟨hle, c', heq, hm⟩ | ⟨hlt, heq⟩
      · rw [heq]
        refine ⟨⟨fun h => absurd h (by simp), ?_⟩, hm.directory_eq.trans hdir⟩
        rintro ⟨j, hj, hlt⟩
        rcases Nat.lt_succ_iff_lt_or_eq.mp hj with hj | rfl
        · exact absurd (hfail.mpr ⟨j, hj, hlt⟩) hres
        · omega
      · rw [heq]
        exact ⟨⟨fun _ => ⟨k, by omega, hlt⟩, fun _ => by simp [einvarg]⟩, hdir⟩

/-- Headers inside the image keep the writable pages inside, header by header. -/
lemma writableInside_of_headersInside (h : HeadersInside file.elfMemory content)
    (h0 : WritableInside file.elfMemory content.length c) :
    ∀ k ≤ (fileHeader content).ePhnum,
      WritableInside file.elfMemory content.length (mapElfUpTo mem file c k) := by
  intro k
  induction k with
  | zero => exact fun _ => h0
  | succ k ih =>
    intro hk
    have hfail := (processMapElfLoop_state hphdr (c := c) k (by omega)).1
    rw [mapElfUpTo, processMapElfLoop_succ, Nat.zero_add]
    by_cases hres : (processMapElfLoop mem file k 0 c).1 < 0
    · rw [if_pos hres]
      exact ih (by omega)
    · rw [if_neg hres]
      rcases processMapElfLoop_one hphdr (show k < _ by omega) (processMapElfLoop mem file k 0 c).2
        with ⟨hle, c', heq, hm⟩ | ⟨hlt, heq⟩
      · rw [heq]
        refine (ih (by omega)).mapped (h k (by omega) fun j hj => ?_) hm
        by_contra hlt
        exact hres (hfail.mpr ⟨j, hj, by omega⟩)
      · rw [heq]
        exact ih (by omega)

/-- Writable pages inside the image, header by header, need the headers inside it. -/
lemma headersInside_of_writableInside (hdir : ∀ i < 1024, c.directoryEntry i &&& 7 = 7)
    (h : ∀ k ≤ (fileHeader content).ePhnum,
      WritableInside file.elfMemory content.length (mapElfUpTo mem file c k)) :
    HeadersInside file.elfMemory content := by
  intro i hi hprev
  obtain ⟨hfail, hsame⟩ := processMapElfLoop_state hphdr (c := c) i (by omega)
  have hres : ¬ (processMapElfLoop mem file i 0 c).1 < 0 := by
    rw [hfail]
    rintro ⟨j, hj, hlt⟩
    have := hprev j hj
    omega
  rcases processMapElfLoop_one hphdr hi (processMapElfLoop mem file i 0 c).2
    with ⟨hle, c', heq, hm⟩ | ⟨hlt, heq⟩
  · have hmap : mapElfUpTo mem file c (i + 1) = c' := by
      rw [mapElfUpTo, processMapElfLoop_succ, Nat.zero_add, if_neg hres, heq]
    have hin := h (i + 1) (by omega)
    rw [hmap] at hin
    refine segmentInside_of_mapped ?_ ?_ hm hin
    · simp only [pagingAlignToLowerPage, pagingPageSize]
      omega
    · rw [hsame]
      exact hdir
  · -- no page is mapped
    intro _ hlt'
    omega

end Run

/-! ## New processes -/

lemma writableInside_new (t : TableAddresses) (base size : ℕ) :
    WritableInside base size (pagingNew4gb 5 t) := by
  intro v hv hw
  have hwrite := hw.2
  simp only [pagingPageSize] at hwrite
  rw [pagingGet_pagingNew4gb 5 t (by omega) (by omega),
    or_and_seven (by omega) (by decide)] at hwrite
  exact absurd hwrite (by decide)

lemma directoryEntry_new (t : TableAddresses) (i : ℕ) :
    (pagingNew4gb 5 t).directoryEntry i &&& 7 = 7 := by
  have hentry : (pagingNew4gb 5 t).directoryEntry i = t.entry i ||| 7 := by
    simp only [pagingNew4gb, Nat.or_assoc]
    rfl
  rw [hentry, or_and_seven (t.aligned i) (by decide)]

/-- **Writable pages of an ELF process.**  For every file that `elf_load` accepts, read to
blocks of the kernel heap, whose header and program header table lie inside the file: the
pages that `process_map_elf` makes writable for the new process, after any number of
program headers, lie in the blocks of the image if and only if the writable headers it
processes do. -/
theorem processMapElf_writableInside_iff {mem : Memory} {file file' : ElfFile}
    {content : List UInt8} (t : TableAddresses)
    (hload : Loaded mem file.elfMemory content)
    (haccept : elfProcessLoaded mem file = (0, file')) (htable : TableInside content) :
    (∀ k ≤ (elfHeader mem file').ePhnum, WritableInside file.elfMemory content.length
        (mapElfUpTo mem file' (pagingNew4gb 5 t) k)) ↔
      HeadersInside file.elfMemory content := by
  obtain ⟨hoff, hmem⟩ := elfProcessLoaded_ok haccept
  have hload' : Loaded mem file'.elfMemory content := by rwa [hmem]
  have hheader : elfHeader mem file' = elfHeader mem file := by
    rw [elfHeader, hmem, elfHeader]
  have hphdr : ∀ i < (fileHeader content).ePhnum,
      elfProgramHeader mem file' i = filePhdr content i :=
    fun i hi => elfProgramHeader_eq hload' htable (by rwa [hheader]) hi
  rw [(elfHeader_eq hload' htable.1).2, ← hmem]
  constructor
  · exact headersInside_of_writableInside hphdr fun i _ => directoryEntry_new t i
  · intro h
    exact writableInside_of_headersInside hphdr h (writableInside_new t _ _)

/-! ## A file with one segment -/

/-- A file of 84 bytes with one writable segment of its own size at virtual address
`0x400000`; `pOffset` is the offset of the segment in the file, byte by byte. -/
def oneSegmentFile (pOffset : List UInt8) : List UInt8 :=
  [0x7f, 0x45, 0x4c, 0x46, 1, 1, 1, 0, 0, 0, 0, 0, 0, 0, 0, 0,
    2, 0, 3, 0, 1, 0, 0, 0, 0, 0, 0x40, 0, 52, 0, 0, 0, 0, 0, 0, 0, 0, 0, 0, 0,
    52, 0, 32, 0, 1, 0, 0, 0, 0, 0, 0, 0] ++
  [1, 0, 0, 0] ++ pOffset ++ [0, 0, 0x40, 0, 0, 0, 0x40, 0, 84, 0, 0, 0, 84, 0, 0, 0,
    6, 0, 0, 0, 0, 0x10, 0, 0]

/-- A memory with the file at the start of the kernel heap. -/
def memoryWith (content : List UInt8) : Memory :=
  ⟨fun a => if heapAddress ≤ a then fileByte content (a - heapAddress) else 0⟩

/-- Page tables behind the image. -/
def imageTables : TableAddresses where
  entry i := 0x1001000 + i % 1024 * 4096
  aligned i := by omega
  lt i := by omega
  injective i hi j hj h := by omega

/-- The segment is the file itself: the writable page is the block of the image. -/
theorem processMapElf_writableInside_iff_own_page :
    ∃ file', elfProcessLoaded (memoryWith (oneSegmentFile [0, 0, 0, 0])) ⟨heapAddress, 0, 0, 0, 0⟩ =
        (0, file') ∧
      ∀ k ≤ (elfHeader (memoryWith (oneSegmentFile [0, 0, 0, 0])) file').ePhnum,
        WritableInside heapAddress (oneSegmentFile [0, 0, 0, 0]).length
          (mapElfUpTo (memoryWith (oneSegmentFile [0, 0, 0, 0])) file' (pagingNew4gb 5 imageTables)
            k) := by
  have haccept : elfProcessLoaded (memoryWith (oneSegmentFile [0, 0, 0, 0]))
      ⟨heapAddress, 0, 0, 0, 0⟩ =
        (0, ⟨heapAddress, 0x400000, 0x400054, heapAddress, 0x1000054⟩) := by
    rfl
  have hload : Loaded (memoryWith (oneSegmentFile [0, 0, 0, 0])) heapAddress
      (oneSegmentFile [0, 0, 0, 0]) := by
    intro i hi
    have hlt : i < 84 := hi
    have hmod : (heapAddress + i) % 2 ^ 32 = heapAddress + i := by
      simp only [heapAddress]
      omega
    rw [Memory.at, memoryWith, hmod]
    simp
  have htable : TableInside (oneSegmentFile [0, 0, 0, 0]) := ⟨by decide, by decide⟩
  refine ⟨_, haccept, (processMapElf_writableInside_iff imageTables hload haccept htable).mpr ?_⟩
  intro i hi _
  obtain rfl : i = 0 := by
    have : i < 1 := hi
    omega
  exact fun _ _ => ⟨by decide, by decide⟩

/-- The offset of the segment is `0xff100000`: the page at the physical address
`0x100000`, where the kernel lies, becomes writable for the process. -/
theorem not_processMapElf_writableInside_kernel_page :
    ∃ file', elfProcessLoaded (memoryWith (oneSegmentFile [0, 0, 0x10, 0xff]))
        ⟨heapAddress, 0, 0, 0, 0⟩ = (0, file') ∧
      ¬ WritableInside heapAddress (oneSegmentFile [0, 0, 0x10, 0xff]).length
        (processMapElf (memoryWith (oneSegmentFile [0, 0, 0x10, 0xff])) file'
          (pagingNew4gb 5 imageTables)).2 := by
  have haccept : elfProcessLoaded (memoryWith (oneSegmentFile [0, 0, 0x10, 0xff]))
      ⟨heapAddress, 0, 0, 0, 0⟩ = (0, ⟨heapAddress, 0x400000, 0x400054, 0x100000, 0x100054⟩) := by
    rfl
  refine ⟨_, haccept, fun h => ?_⟩
  refine absurd (h 0x400 (by omega) ?_) ?_
  · decide +kernel
  · decide +kernel

end SerpaeOS
