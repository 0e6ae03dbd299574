import SerpaeOS.Task.ElfMapping

/-!
# The pages of an ELF image

`process_map_elf` rounds the start of a segment down and its end up to a page, in physical
memory, and maps the pages in between from the rounded virtual address on.  For segments with the
same offset in their page in the file and in virtual memory, which do not wrap around the address
space and share no page, this maps every byte of a segment to its place in the image.
-/

namespace SerpaeOS

/-- The segment has bytes in the page at an address. -/
def Elf32Phdr.Covers (phdr : Elf32Phdr) (page : ℕ) : Prop :=
  pagingAlignToLowerPage phdr.pVaddr ≤ page ∧ page < phdr.pVaddr + phdr.pMemsz

/-- A segment of an image at `elfMemory` that can be mapped page by page: it wraps around the
address space neither where it is mapped nor in the image, where its end is rounded up to a
page. -/
structure SegmentOk (elfMemory : ℕ) (phdr : Elf32Phdr) : Prop where
  memsz_pos : 0 < phdr.pMemsz
  offset_eq : phdr.pVaddr % pagingPageSize = phdr.pOffset % pagingPageSize
  virtual_le : phdr.pVaddr + phdr.pMemsz ≤ 2 ^ 32
  physical_le : elfMemory + phdr.pOffset + phdr.pMemsz ≤ 2 ^ 32 - pagingPageSize

/-- The entry of every page of the segment has the frame of the page in the image. -/
def SegmentMapped (elfMemory : ℕ) (phdr : Elf32Phdr) (c : PagingChunk) : Prop :=
  ∀ w, w % pagingPageSize = 0 → phdr.Covers w → pagingGet c w =
    (segmentStart elfMemory phdr + (w - pagingAlignToLowerPage phdr.pVaddr)) ||| phdrFlags phdr

/-- The entries of the other pages are as before. -/
def OutsideKept (covers : ℕ → Prop) (c c' : PagingChunk) : Prop :=
  ∀ w < 2 ^ 32, w % pagingPageSize = 0 → ¬ covers w → pagingGet c' w = pagingGet c w

variable {mem : Memory} {file : ElfFile} {phdr : Elf32Phdr} {c c' : PagingChunk} {elfMemory : ℕ}

/-! ## One segment -/

lemma SegmentOk.start_eq (h : SegmentOk elfMemory phdr) (halign : elfMemory % pagingPageSize = 0) :
    segmentStart elfMemory phdr + phdr.pVaddr % 4096 = elfMemory + phdr.pOffset := by
  have hoffset := h.offset_eq
  have hpos := h.memsz_pos
  have hle := h.physical_le
  simp only [segmentStart, pagingAlignToLowerPage, pagingPageSize] at *
  omega

/-- The end of the pages. -/
lemma SegmentOk.end_eq (h : SegmentOk elfMemory phdr) :
    elfMemory + phdr.pOffset + phdr.pMemsz ≤ segmentEnd elfMemory phdr ∧
      segmentEnd elfMemory phdr < elfMemory + phdr.pOffset + phdr.pMemsz + 4096 := by
  have hpos := h.memsz_pos
  have hphys := h.physical_le
  rw [pagingPageSize] at hphys
  rw [segmentEnd, pagingAlignAddress, pagingPageSize]
  split_ifs <;> omega

/-- A header that is mapped has its pages mapped, and no others. -/
lemma processMapPhdr_segment (h : SegmentOk file.elfMemory phdr)
    (halign : file.elfMemory % pagingPageSize = 0) {res : ℤ}
    (hrun : processMapPhdr file phdr c = (res, c')) (hres : 0 ≤ res) :
    SegmentMapped file.elfMemory phdr c' ∧ OutsideKept phdr.Covers c c' := by
  have hvirt : phdr.pVaddr < 2 ^ 32 := by
    have hpos := h.memsz_pos
    have hle := h.virtual_le
    omega
  rcases processMapPhdr_cases file phdr hvirt c with ⟨-, d, heq, hm⟩ | ⟨-, heq⟩
  swap
  · rw [heq] at hrun
    cases hrun
    exact absurd hres (by decide)
  obtain ⟨-, rfl⟩ := Prod.mk.inj (heq.symm.trans hrun)
  have hstart := h.start_eq halign
  obtain ⟨hend, hend'⟩ := h.end_eq
  have hpos := h.memsz_pos
  have hvirtual := h.virtual_le
  have haligned := segmentStart_aligned file.elfMemory phdr
  have hendlt := segmentEnd_aligned file.elfMemory phdr
  constructor
  · rintro w hw ⟨hlow, hhigh⟩
    rw [pagingAlignToLowerPage_eq] at hlow hm ⊢
    rw [pagingPageSize] at hw
    have hentry := hm.inside ((w - phdr.pVaddr / 4096 * 4096) / 4096) (by omega)
    have hpage : (phdr.pVaddr / 4096 * 4096 + (w - phdr.pVaddr / 4096 * 4096) / 4096 * 4096) %
        2 ^ 32 = w := by omega
    have hframe : (segmentStart file.elfMemory phdr +
        (w - phdr.pVaddr / 4096 * 4096) / 4096 * 4096) % 2 ^ 32 =
          segmentStart file.elfMemory phdr + (w - phdr.pVaddr / 4096 * 4096) := by omega
    rwa [hpage, hframe] at hentry
  · intro w hw hwalign hnot
    rw [Elf32Phdr.Covers, pagingAlignToLowerPage_eq] at hnot
    rw [pagingAlignToLowerPage_eq] at hm
    rw [pagingPageSize] at hwalign
    refine hm.outside w hwalign hw fun j hj heq => hnot ?_
    omega

/-! ## The loop -/

/-- The header table of a file whose segments share no page. -/
structure HeadersOk (mem : Memory) (file : ElfFile) : Prop where
  segment : ∀ i < (elfHeader mem file).ePhnum,
    SegmentOk file.elfMemory (elfProgramHeader mem file i)
  disjoint : ∀ i < (elfHeader mem file).ePhnum, ∀ j < (elfHeader mem file).ePhnum, i ≠ j →
    ∀ w, w % pagingPageSize = 0 → (elfProgramHeader mem file i).Covers w →
      ¬ (elfProgramHeader mem file j).Covers w

/-- After `k` headers their pages are mapped, and no others. -/
lemma HeadersOk.loop (h : HeadersOk mem file) (halign : file.elfMemory % pagingPageSize = 0) :
    ∀ k ≤ (elfHeader mem file).ePhnum,
      0 ≤ (processMapElfLoop mem file k 0 c).1 →
      (∀ i < k, SegmentMapped file.elfMemory (elfProgramHeader mem file i)
        (mapElfUpTo mem file c k)) ∧
      OutsideKept (fun w => ∃ i < k, (elfProgramHeader mem file i).Covers w) c
        (mapElfUpTo mem file c k) := by
  intro k
  induction k with
  | zero => exact fun _ _ => ⟨fun i hi => absurd hi (Nat.not_lt_zero i), fun _ _ _ _ => rfl⟩
  | succ k ih =>
    intro hk hres
    rw [mapElfUpTo]
    rw [processMapElfLoop_succ, Nat.zero_add] at hres ⊢
    by_cases hfail : (processMapElfLoop mem file k 0 c).1 < 0
    · rw [if_pos hfail] at hres
      omega
    rw [if_neg hfail] at hres ⊢
    obtain ⟨hmapped, hkept⟩ := ih (by omega) (by omega)
    -- header `k`
    obtain ⟨res, d, hone⟩ : ∃ res d, processMapPhdr file (elfProgramHeader mem file k)
        (mapElfUpTo mem file c k) = (res, d) := ⟨_, _, rfl⟩
    have hstep : processMapElfLoop mem file 1 k (processMapElfLoop mem file k 0 c).2 =
        if res < 0 then (res, d) else (0, d) := by
      rw [processMapElfLoop, ← mapElfUpTo, hone]
      rfl
    rw [hstep] at hres ⊢
    have hnonneg : 0 ≤ res := by
      by_contra hneg
      rw [if_pos (by omega)] at hres
      exact hneg hres
    rw [if_neg (by omega)]
    obtain ⟨hsegment, hother⟩ := processMapPhdr_segment (h.segment k hk) halign hone hnonneg
    constructor
    · intro i hi
      rcases Nat.lt_succ_iff_lt_or_eq.mp hi with hlt | rfl
      · intro w hw hcovers
        have hlt' : w < 2 ^ 32 :=
          hcovers.2.trans_le (h.segment i (by omega)).virtual_le
        rw [hother w hlt' hw (h.disjoint i (by omega) k hk (by omega) w hw hcovers)]
        exact hmapped i hlt w hw hcovers
      · exact hsegment
    · intro w hw hwalign hnot
      rw [hother w hw hwalign fun hc => hnot ⟨k, Nat.lt_succ_self k, hc⟩]
      refine hkept w hw hwalign fun hcovers => ?_
      obtain ⟨i, hi, hc⟩ := hcovers
      exact hnot ⟨i, Nat.lt_succ_of_lt hi, hc⟩

/-! ## Translation -/

lemma writeable_iff {frame : ℕ} (hframe : frame % 4096 = 0) :
    (frame ||| phdrFlags phdr) &&& pagingIsWriteable ≠ 0 ↔ phdr.pFlags &&& pfW ≠ 0 := by
  have hmask : (frame ||| phdrFlags phdr) &&& pagingIsWriteable =
      ((frame ||| phdrFlags phdr) &&& 7) &&& pagingIsWriteable := by
    rw [Nat.and_assoc]
    rfl
  rw [hmask, or_and_seven hframe (phdrFlags_lt phdr), phdrFlags]
  split_ifs with hw
  · exact iff_of_true (by decide) hw
  · exact iff_of_false (by decide) hw

/-- A byte of a mapped segment. -/
lemma SegmentMapped.translates (hm : SegmentMapped elfMemory phdr c)
    (h : SegmentOk elfMemory phdr) (halign : elfMemory % pagingPageSize = 0) {k : ℕ}
    (hk : k < phdr.pMemsz) :
    pagingGetPhysicalAddress c (phdr.pVaddr + k) = elfMemory + phdr.pOffset + k ∧
      (pagingGet c (pagingAlignToLowerPage (phdr.pVaddr + k)) &&& pagingIsWriteable ≠ 0 ↔
        phdr.pFlags &&& pfW ≠ 0) := by
  have hstart := h.start_eq halign
  have haligned := segmentStart_aligned elfMemory phdr
  have hphys := h.physical_le
  have hentry := hm ((phdr.pVaddr + k) / 4096 * 4096) (by rw [pagingPageSize]; omega)
    ⟨by rw [pagingAlignToLowerPage_eq]; omega, by omega⟩
  rw [pagingAlignToLowerPage_eq] at hentry
  constructor
  · rw [pagingGetPhysicalAddress_of_entry hentry (by omega) (by omega) (phdrFlags_lt phdr)]
    omega
  · rw [pagingAlignToLowerPage_eq, hentry]
    exact writeable_iff (by omega)

/-- **Mapping an ELF image.**  When `process_map_elf` succeeds for an image in page-aligned
memory whose segments do not wrap around and share no page, every byte of a segment is translated
to its place in the image, its page is writable exactly if the segment is, and all other pages
have the entries they had before. -/
theorem process_map_elf_translates (h : HeadersOk mem file)
    (halign : file.elfMemory % pagingPageSize = 0) {res : ℤ}
    (hrun : processMapElf mem file c = (res, c')) (hres : 0 ≤ res) :
    (∀ i < (elfHeader mem file).ePhnum, ∀ k < (elfProgramHeader mem file i).pMemsz,
      pagingGetPhysicalAddress c' ((elfProgramHeader mem file i).pVaddr + k) =
          file.elfMemory + (elfProgramHeader mem file i).pOffset + k ∧
        (pagingGet c' (pagingAlignToLowerPage ((elfProgramHeader mem file i).pVaddr + k)) &&&
            pagingIsWriteable ≠ 0 ↔ (elfProgramHeader mem file i).pFlags &&& pfW ≠ 0)) ∧
    OutsideKept (fun w => ∃ i < (elfHeader mem file).ePhnum,
      (elfProgramHeader mem file i).Covers w) c c' := by
  obtain ⟨hmapped, hkept⟩ := h.loop (c := c) halign _ le_rfl
    (by rw [← processMapElf, hrun]; exact hres)
  have hlast : mapElfUpTo mem file c (elfHeader mem file).ePhnum = c' := by
    rw [mapElfUpTo, ← processMapElf, hrun]
  rw [hlast] at hmapped hkept
  exact ⟨fun i hi k hk => (hmapped i hi).translates (h.segment i hi) halign hk, hkept⟩

/-- The last byte of a file of one segment. -/
theorem process_map_elf_translates_own_page :
    pagingGetPhysicalAddress (processMapElf (memoryWith (oneSegmentFile [0, 0, 0, 0]))
      ⟨heapAddress, 0x400000, 0x400054, heapAddress, 0x1000054⟩ (pagingNew4gb 5 imageTables)).2
        (0x400000 + 83) = heapAddress + 83 := by
  have hone : ∀ i < (elfHeader (memoryWith (oneSegmentFile [0, 0, 0, 0]))
      ⟨heapAddress, 0x400000, 0x400054, heapAddress, 0x1000054⟩).ePhnum, i = 0 := by
    intro i hi
    have : i < 1 := hi
    omega
  have hheaders : HeadersOk (memoryWith (oneSegmentFile [0, 0, 0, 0]))
      ⟨heapAddress, 0x400000, 0x400054, heapAddress, 0x1000054⟩ := by
    constructor
    · intro i hi
      obtain rfl := hone i hi
      exact ⟨by decide, by decide, by decide, by decide⟩
    · intro i hi j hj hne
      exact absurd ((hone i hi).trans (hone j hj).symm) hne
  have htranslates := process_map_elf_translates hheaders (by decide)
    (Prod.mk.eta (p := processMapElf _ _ (pagingNew4gb 5 imageTables))).symm (by decide +kernel)
  exact (htranslates.1 0 (by decide) 83 (by decide)).1

end SerpaeOS
