import SerpaeOS.Config
import SerpaeOS.Lib.Word
import Mathlib.Logic.Function.Basic
import Mathlib.Data.Nat.Bitwise

/-!
# Page directories

`paging.c` keeps for each process a directory of 1024 entries, each with the address of a
page table of 1024 entries and flags.  An entry of a table is a page frame and flags.
The tables of one directory are different blocks of the kernel heap.
-/

namespace SerpaeOS

open Word

def pagingAccessFromAll : ℕ := 0b00000100
def pagingIsWriteable : ℕ := 0b00000010
def pagingIsPresent : ℕ := 0b00000001

def pagingTotalEntriesPerTable : ℕ := 1024
def pagingPageSize : ℕ := 4096

/-- The address in an entry, `entry & 0xfffff000`. -/
def entryAddress (entry : ℕ) : ℕ := entry &&& 0xfffff000

/-- `struct paging_4gb_chunk`, with the page tables its directory points to. -/
structure PagingChunk where
  directoryEntry : ℕ → ℕ
  /-- The words of the page table at an address. -/
  table : ℕ → ℕ → ℕ
  distinct : ∀ i < pagingTotalEntriesPerTable, ∀ j < pagingTotalEntriesPerTable,
    entryAddress (directoryEntry i) = entryAddress (directoryEntry j) → i = j

def pagingIsAligned (addr : ℕ) : Bool := addr % pagingPageSize == 0

/-- `paging_get_indexes`: the result and the two indices. -/
def pagingGetIndexes (virtualAddress : ℕ) : ℤ × ℕ × ℕ :=
  if !pagingIsAligned virtualAddress then (-einvarg, 0, 0)
  else
    (0, virtualAddress / (pagingTotalEntriesPerTable * pagingPageSize),
      virtualAddress % (pagingTotalEntriesPerTable * pagingPageSize) / pagingPageSize)

def pagingAlignAddress (ptr : ℕ) : ℕ :=
  if ptr % pagingPageSize ≠ 0 then (ptr + pagingPageSize - ptr % pagingPageSize) % 2 ^ 32
  else ptr

def pagingAlignToLowerPage (addr : ℕ) : ℕ := addr - addr % pagingPageSize

def pagingGet (c : PagingChunk) (virt : ℕ) : ℕ :=
  let (_, directoryIndex, tableIndex) := pagingGetIndexes virt
  c.table (entryAddress (c.directoryEntry directoryIndex)) tableIndex

/-- The assignment `table[table_index] = val`. -/
def PagingChunk.store (c : PagingChunk) (table : ℕ) (tableIndex val : ℕ) : PagingChunk :=
  { c with
    table := Function.update c.table table (Function.update (c.table table) tableIndex val) }

def pagingSet (c : PagingChunk) (virt : ℕ) (val : ℕ) : ℤ × PagingChunk :=
  if !pagingIsAligned virt then (-einvarg, c)
  else
    let (res, directoryIndex, tableIndex) := pagingGetIndexes virt
    if res < 0 then (res, c)
    else
      let table := entryAddress (c.directoryEntry directoryIndex)
      (0, c.store table tableIndex val)

def pagingMap (c : PagingChunk) (virt phys : ℕ) (flags : ℕ) : ℤ × PagingChunk :=
  if virt % pagingPageSize ≠ 0 ∨ phys % pagingPageSize ≠ 0 then (-einvarg, c)
  else pagingSet c virt (phys ||| flags)

/-- `paging_map_range`: the loop stops at the first error. -/
def pagingMapRange (c : PagingChunk) (virt phys : ℕ) (flags : ℕ) : ℕ → ℤ × PagingChunk
  | 0 => (0, c)
  | count + 1 =>
    let (res, c) := pagingMap c virt phys flags
    if res < 0 then (res, c)
    else
      pagingMapRange c ((virt + pagingPageSize) % 2 ^ 32) ((phys + pagingPageSize) % 2 ^ 32) flags
        count

def pagingMapTo (c : PagingChunk) (virt phys physEnd : ℕ) (flags : ℕ) : ℤ × PagingChunk :=
  if virt % pagingPageSize ≠ 0 then (-einvarg, c)
  else if phys % pagingPageSize ≠ 0 then (-einvarg, c)
  else if physEnd % pagingPageSize ≠ 0 then (-einvarg, c)
  else if physEnd < phys then (-einvarg, c)
  else
    let totalBytes := physEnd - phys
    let totalPages := totalBytes / pagingPageSize
    pagingMapRange c virt phys flags totalPages

/-- User code may write through the entry and through the directory entry above it. -/
def UserWritable (c : PagingChunk) (virt : ℕ) : Prop :=
  c.directoryEntry (virt / (pagingTotalEntriesPerTable * pagingPageSize)) &&& 7 = 7 ∧
    pagingGet c virt &&& 7 = 7

instance (c : PagingChunk) (virt : ℕ) : Decidable (UserWritable c virt) :=
  inferInstanceAs (Decidable (_ ∧ _))

/-! ## Entries -/

lemma entryAddress_eq {entry : ℕ} (h : entry < 2 ^ 32) :
    entryAddress entry = entry / 4096 * 4096 := by
  have hmask : entryAddress entry = entry &&& (2 ^ 20 - 1) * 2 ^ 12 := rfl
  rw [hmask, show (4096 : ℕ) = 2 ^ 12 from rfl]
  refine Nat.eq_of_testBit_eq fun i => ?_
  rw [Nat.testBit_and, Nat.testBit_mul_two_pow, Nat.testBit_mul_two_pow, Nat.testBit_div_two_pow,
    Nat.testBit_two_pow_sub_one]
  by_cases hi : 12 ≤ i
  · by_cases hi' : i < 32
    · simp [hi]
      omega
    · have : entry.testBit i = false :=
        Nat.testBit_lt_two_pow (lt_of_lt_of_le h (Nat.pow_le_pow_right (by omega) (by omega)))
      simp [hi, this]
  · simp [hi]

lemma entryAddress_mod (entry : ℕ) :
    entryAddress entry % 4096 = 0 ∧ entryAddress entry < 2 ^ 32 := by
  have hmask : entryAddress entry = entry &&& (2 ^ 20 - 1) * 2 ^ 12 := rfl
  constructor
  · rw [hmask, show (4096 : ℕ) = 2 ^ 12 from rfl, Nat.and_mod_two_pow, Nat.mul_mod_left,
      Nat.and_zero]
  · rw [hmask]
    exact (Nat.and_le_right).trans_lt (by decide)

/-- A page address and flags below the page size are told apart by the mask. -/
lemma or_flags {frame flags : ℕ} (hf : frame % 4096 = 0) (hflags : flags < 4096) :
    frame ||| flags = frame + flags := by
  obtain ⟨k, rfl⟩ : ∃ k, frame = 2 ^ 12 * k := ⟨frame / 4096, by omega⟩
  exact (Nat.two_pow_add_eq_or_of_lt (by omega) k).symm

lemma entryAddress_or {frame flags : ℕ} (hf : frame % 4096 = 0) (hlt : frame < 2 ^ 32)
    (hflags : flags < 4096) : entryAddress (frame ||| flags) = frame := by
  rw [or_flags hf hflags, entryAddress_eq (by omega)]
  omega

lemma or_and_seven {frame flags : ℕ} (hf : frame % 4096 = 0) (hflags : flags < 4096) :
    (frame ||| flags) &&& 7 = flags % 8 := by
  rw [or_flags hf hflags, show (7 : ℕ) = 2 ^ 3 - 1 from rfl, Nat.and_two_pow_sub_one_eq_mod]
  omega

/-! ## Lookup after mapping -/

lemma pagingGet_of_aligned (c : PagingChunk) {virt : ℕ} (h : virt % 4096 = 0) :
    pagingGet c virt =
      c.table (entryAddress (c.directoryEntry (virt / 4194304))) (virt % 4194304 / 4096) := by
  have halign : pagingIsAligned virt = true := by simpa [pagingIsAligned, pagingPageSize] using h
  simp only [pagingGet, pagingGetIndexes, halign]
  rfl

/-- What `paging_set` does to an aligned address: only the entry of that address changes. -/
lemma pagingSet_of_aligned (c : PagingChunk) {virt : ℕ} (h : virt % 4096 = 0)
    (hlt : virt < 2 ^ 32) (val : ℕ) :
    ∃ c', pagingSet c virt val = (0, c') ∧ c'.directoryEntry = c.directoryEntry ∧
      ∀ w : ℕ, w % 4096 = 0 → w < 2 ^ 32 →
        pagingGet c' w = if w = virt then val else pagingGet c w := by
  have halign : pagingIsAligned virt = true := by simpa [pagingIsAligned, pagingPageSize] using h
  refine ⟨c.store (entryAddress (c.directoryEntry (virt / 4194304))) (virt % 4194304 / 4096) val,
    ?_, rfl, ?_⟩
  · simp only [pagingSet, pagingGetIndexes, halign]
    rfl
  · intro w hw hwlt
    rw [pagingGet_of_aligned _ hw, pagingGet_of_aligned _ hw]
    simp only [PagingChunk.store]
    by_cases hdir : w / 4194304 = virt / 4194304
    · rw [hdir, Function.update_self]
      by_cases hvw : w = virt
      · rw [if_pos hvw, hvw, Function.update_self]
      · rw [if_neg hvw, Function.update_of_ne]
        omega
    · rw [if_neg (by rintro rfl; exact hdir rfl), Function.update_of_ne]
      intro heq
      refine hdir (c.distinct _ ?_ _ ?_ heq)
      · simp only [pagingTotalEntriesPerTable]
        omega
      · simp only [pagingTotalEntriesPerTable]
        omega

/-- An entry that is put back leaves the directory as it was. -/
lemma pagingSet_pagingGet (c : PagingChunk) {virt : ℕ} (h : virt % 4096 = 0) (val : ℕ) :
    pagingSet (pagingSet c virt val).2 virt (pagingGet c virt) = (0, c) := by
  have halign : pagingIsAligned virt = true := by simpa [pagingIsAligned, pagingPageSize] using h
  simp [pagingSet, pagingGet, pagingGetIndexes, halign, PagingChunk.store]

/-- The state of the directory after mapping `count` pages from `virt` to `phys` on. -/
structure Mapped (c c' : PagingChunk) (virt phys flags count : ℕ) : Prop where
  directory_eq : c'.directoryEntry = c.directoryEntry
  inside : ∀ j < count, pagingGet c' ((virt + j * 4096) % 2 ^ 32) =
    (phys + j * 4096) % 2 ^ 32 ||| flags
  outside : ∀ w : ℕ, w % 4096 = 0 → w < 2 ^ 32 → (∀ j < count, w ≠ (virt + j * 4096) % 2 ^ 32) →
    pagingGet c' w = pagingGet c w

/-- Mapping an aligned range succeeds. -/
lemma pagingMapRange_mapped (flags : ℕ) :
    ∀ (count : ℕ) (c : PagingChunk) {virt phys : ℕ}, virt % 4096 = 0 → virt < 2 ^ 32 →
      phys % 4096 = 0 → phys < 2 ^ 32 → count ≤ 2 ^ 20 →
      ∃ c', pagingMapRange c virt phys flags count = (0, c') ∧
        Mapped c c' virt phys flags count := by
  intro count
  induction count with
  | zero =>
    intro c virt phys _ _ _ _ _
    exact ⟨c, rfl, rfl, fun j hj => by omega, fun _ _ _ _ => rfl⟩
  | succ count ih =>
    intro c virt phys hv hvlt hp hplt hcount
    obtain ⟨c₁, hset, hdir, hget⟩ := pagingSet_of_aligned c hv hvlt (phys ||| flags)
    have hmap : pagingMap c virt phys flags = (0, c₁) := by
      rw [pagingMap, if_neg (by simp [pagingPageSize, hv, hp]), hset]
    obtain ⟨c', hrange, hm⟩ := @ih c₁ ((virt + pagingPageSize) % 2 ^ 32)
      ((phys + pagingPageSize) % 2 ^ 32) (by simp only [pagingPageSize]; omega) (by omega)
      (by simp only [pagingPageSize]; omega) (by omega) (by omega)
    simp only [pagingPageSize] at hm
    have hshift : ∀ a j : ℕ, ((a + 4096) % 2 ^ 32 + j * 4096) % 2 ^ 32 =
        (a + (j + 1) * 4096) % 2 ^ 32 := by
      intro a j
      omega
    refine ⟨c', ?_, hm.directory_eq.trans hdir, ?_, ?_⟩
    · rw [pagingMapRange, hmap]
      exact hrange
    · intro j hj
      cases j with
      | zero =>
        have hv0 : (virt + 0 * 4096) % 2 ^ 32 = virt := by omega
        have hp0 : (phys + 0 * 4096) % 2 ^ 32 = phys := by omega
        rw [hv0, hp0, hm.outside virt hv hvlt (fun k hk => by omega), hget virt hv hvlt,
          if_pos rfl]
      | succ j =>
        have := hm.inside j (by omega)
        rwa [hshift, hshift] at this
    · intro w hw hwlt hne
      have hwv : w ≠ virt := by
        have := hne 0 (by omega)
        omega
      rw [hm.outside w hw hwlt fun j hj => by rw [hshift]; exact hne (j + 1) (by omega),
        hget w hw hwlt, if_neg hwv]

/-- What `paging_map_to` maps when it succeeds. -/
lemma pagingMapTo_mapped (c : PagingChunk) {virt phys physEnd : ℕ} (flags : ℕ)
    (hv : virt % 4096 = 0) (hvlt : virt < 2 ^ 32) (hp : phys % 4096 = 0)
    (he : physEnd % 4096 = 0) (hle : phys ≤ physEnd) (helt : physEnd < 2 ^ 32) :
    ∃ c', pagingMapTo c virt phys physEnd flags = (0, c') ∧
      Mapped c c' virt phys flags ((physEnd - phys) / 4096) := by
  obtain ⟨c', hrange, hm⟩ := pagingMapRange_mapped flags ((physEnd - phys) / 4096) c hv hvlt hp
    (by omega) (by omega)
  refine ⟨c', ?_, hm⟩
  rw [pagingMapTo, if_neg (by simp [pagingPageSize, hv]), if_neg (by simp [pagingPageSize, hp]),
    if_neg (by simp [pagingPageSize, he]), if_neg (not_lt.mpr hle)]
  exact hrange

/-- `paging_map_to` either maps a range or changes nothing. -/
lemma pagingMapTo_cases (c : PagingChunk) {virt phys physEnd : ℕ} (flags : ℕ)
    (hvlt : virt < 2 ^ 32) (helt : physEnd < 2 ^ 32) :
    (virt % 4096 = 0 ∧ phys % 4096 = 0 ∧ physEnd % 4096 = 0 ∧ phys ≤ physEnd ∧
      ∃ c', pagingMapTo c virt phys physEnd flags = (0, c') ∧
        Mapped c c' virt phys flags ((physEnd - phys) / 4096)) ∨
      ¬ (virt % 4096 = 0 ∧ phys % 4096 = 0 ∧ physEnd % 4096 = 0 ∧ phys ≤ physEnd) ∧
        pagingMapTo c virt phys physEnd flags = (-einvarg, c) := by
  by_cases h : virt % 4096 = 0 ∧ phys % 4096 = 0 ∧ physEnd % 4096 = 0 ∧ phys ≤ physEnd
  · obtain ⟨hv, hp, he, hle⟩ := h
    exact Or.inl ⟨hv, hp, he, hle, pagingMapTo_mapped c flags hv hvlt hp he hle helt⟩
  · refine Or.inr ⟨h, ?_⟩
    rw [pagingMapTo]
    split_ifs with h1 h2 h3 h4
    · rfl
    · rfl
    · rfl
    · rfl
    · exact absurd ⟨not_not.mp h1, not_not.mp h2, not_not.mp h3, not_lt.mp h4⟩ h

/-- Mapping pages to themselves. -/
lemma Mapped.identity {c c' : PagingChunk} {ptr flags count : ℕ}
    (h : Mapped c c' ptr ptr flags count) (hp : ptr % 4096 = 0)
    (hend : ptr + count * 4096 ≤ 2 ^ 32) {v : ℕ} (hv : v * 4096 < 2 ^ 32) :
    pagingGet c' (v * 4096) =
      if ptr ≤ v * 4096 ∧ v * 4096 < ptr + count * 4096 then v * 4096 ||| flags
      else pagingGet c (v * 4096) := by
  by_cases hin : ptr ≤ v * 4096 ∧ v * 4096 < ptr + count * 4096
  · rw [if_pos hin]
    have hj := h.inside (v - ptr / 4096) (by omega)
    have hv' : (ptr + (v - ptr / 4096) * 4096) % 2 ^ 32 = v * 4096 := by omega
    rwa [hv'] at hj
  · rw [if_neg hin]
    exact h.outside _ (by omega) hv fun j hj => by omega

/-! ## New directories -/

/-- Addresses of the page tables of a new directory: page aligned and different. -/
structure TableAddresses where
  entry : ℕ → ℕ
  aligned : ∀ i, entry i % 4096 = 0
  lt : ∀ i, entry i < 2 ^ 32
  injective : ∀ i < 1024, ∀ j < 1024, entry i = entry j → i = j

/-- `paging_new_4gb`, with its page tables at the given addresses: every page is mapped to
itself. -/
def pagingNew4gb (flags : UInt8) (t : TableAddresses) : PagingChunk where
  directoryEntry i := t.entry i ||| flags.toNat ||| pagingIsWriteable
  table p b :=
    match (List.range pagingTotalEntriesPerTable).find? fun i => t.entry i = p with
    | some i =>
      (i * (pagingTotalEntriesPerTable * pagingPageSize) + b * pagingPageSize) ||| flags.toNat
    | none => 0
  distinct := by
    intro i hi j hj heq
    have hflags : flags.toNat ||| pagingIsWriteable < 4096 :=
      lt_of_lt_of_le (Nat.or_lt_two_pow (n := 8) flags.toNat_lt (by decide)) (by decide)
    rw [Nat.or_assoc, Nat.or_assoc, entryAddress_or (t.aligned i) (t.lt i) hflags,
      entryAddress_or (t.aligned j) (t.lt j) hflags] at heq
    exact t.injective i hi j hj heq

/-- A table is found by its address. -/
lemma TableAddresses.find?_entry (t : TableAddresses) {i : ℕ} (hi : i < 1024) :
    (List.range pagingTotalEntriesPerTable).find? (fun k => t.entry k = t.entry i) = some i := by
  rw [List.find?_range_eq_some]
  refine ⟨by simp, by simpa [pagingTotalEntriesPerTable] using hi, fun j hj => ?_⟩
  simp only [Bool.not_eq_eq_eq_not, Bool.not_true, decide_eq_false_iff_not]
  intro heq
  have := t.injective j (by omega) i hi heq
  omega

lemma pagingGet_pagingNew4gb (flags : UInt8) (t : TableAddresses) {virt : ℕ}
    (h : virt % 4096 = 0) (hlt : virt < 2 ^ 32) :
    pagingGet (pagingNew4gb flags t) virt = virt ||| flags.toNat := by
  have hflags : flags.toNat ||| pagingIsWriteable < 4096 :=
    lt_of_lt_of_le (Nat.or_lt_two_pow (n := 8) flags.toNat_lt (by decide)) (by decide)
  have hidx : virt / 4194304 < 1024 := by omega
  have haddr : entryAddress ((pagingNew4gb flags t).directoryEntry (virt / 4194304)) =
      t.entry (virt / 4194304) := by
    rw [pagingNew4gb]
    simp only
    rw [Nat.or_assoc, entryAddress_or (t.aligned _) (t.lt _) hflags]
  rw [pagingGet_of_aligned _ h, haddr]
  have hvirt : virt / 4194304 * (pagingTotalEntriesPerTable * pagingPageSize) +
      virt % 4194304 / 4096 * pagingPageSize = virt := by
    simp only [pagingTotalEntriesPerTable, pagingPageSize]
    omega
  simp only [pagingNew4gb, t.find?_entry hidx, hvirt]

/-- The variable `offset` of `paging_new_4gb` when table `i` is filled.  It is a signed
number and overflows halfway. -/
def pagingNewOffset : ℕ → ℤ
  | 0 => 0
  | i + 1 => i32 (pagingNewOffset i + (pagingTotalEntriesPerTable * pagingPageSize : ℕ))

lemma pagingNewOffset_emod (i : ℕ) :
    pagingNewOffset i % 2 ^ 32 = ((i * 4194304 : ℕ) : ℤ) % 2 ^ 32 := by
  induction i with
  | zero => rfl
  | succ i ih =>
    have hstep : pagingNewOffset (i + 1) % 2 ^ 32 = (pagingNewOffset i + 4194304) % 2 ^ 32 := by
      rw [pagingNewOffset, i32]
      exact Int.bmod_emod
    push_cast at ih ⊢
    omega

/-- The words of a new page table are the ones that `paging_new_4gb` computes with its
signed offset. -/
lemma pagingNew4gb_table (flags : UInt8) (t : TableAddresses) {i b : ℕ} (hi : i < 1024)
    (hb : b < 1024) :
    (pagingNew4gb flags t).table (t.entry i) b =
      u32 (pagingNewOffset i + (b * pagingPageSize : ℕ)) ||| flags.toNat := by
  have hoffset : u32 (pagingNewOffset i + (b * pagingPageSize : ℕ)) =
      i * (pagingTotalEntriesPerTable * pagingPageSize) + b * pagingPageSize := by
    have hmod := pagingNewOffset_emod i
    simp only [u32, pagingPageSize, pagingTotalEntriesPerTable]
    push_cast at hmod ⊢
    omega
  rw [hoffset]
  simp only [pagingNew4gb, t.find?_entry hi]

/-! ## Translation of addresses -/

def pagingGetPhysicalAddress (c : PagingChunk) (virt : ℕ) : ℕ :=
  let virtAddrNew := pagingAlignToLowerPage virt
  let difference := virt - virtAddrNew
  (entryAddress (pagingGet c virtAddrNew) + difference) % 2 ^ 32

lemma pagingAlignToLowerPage_eq (virt : ℕ) :
    pagingAlignToLowerPage virt = virt / 4096 * 4096 := by
  rw [pagingAlignToLowerPage, pagingPageSize]
  omega

/-- An address is translated by the frame in the entry of its page. -/
lemma pagingGetPhysicalAddress_of_entry {c : PagingChunk} {virt frame flags : ℕ}
    (hentry : pagingGet c (virt / 4096 * 4096) = frame ||| flags) (hframe : frame % 4096 = 0)
    (hlt : frame < 2 ^ 32) (hflags : flags < 4096) :
    pagingGetPhysicalAddress c virt = frame + virt % 4096 := by
  simp only [pagingGetPhysicalAddress, pagingAlignToLowerPage_eq]
  rw [hentry, entryAddress_or hframe hlt hflags]
  omega

/-- A new directory translates every address to itself. -/
lemma pagingGetPhysicalAddress_pagingNew4gb (flags : UInt8) (t : TableAddresses) {virt : ℕ}
    (hvirt : virt < 2 ^ 32) : pagingGetPhysicalAddress (pagingNew4gb flags t) virt = virt := by
  have hentry := @pagingGet_pagingNew4gb flags t (virt / 4096 * 4096) (by omega) (by omega)
  have hflags : flags.toNat < 4096 := lt_trans flags.toNat_lt (by decide)
  rw [pagingGetPhysicalAddress_of_entry hentry (by omega) (by omega) hflags]
  omega

/-- A new directory translates every address to itself.  In every directory,
`paging_map_to` fails and changes nothing, or maps the pages from `virt` on, modulo
`2 ^ 32`, to the frames from `phys` on, with the flags, and leaves every other page
as it was. -/
theorem paging_translation (flags₀ : UInt8) (t : TableAddresses) :
    (∀ virt < 2 ^ 32, pagingGetPhysicalAddress (pagingNew4gb flags₀ t) virt = virt) ∧
    ∀ (c : PagingChunk) (virt phys physEnd flags : ℕ), virt < 2 ^ 32 → phys < 2 ^ 32 →
      physEnd < 2 ^ 32 → flags < 4096 →
      ((pagingMapTo c virt phys physEnd flags).1 < 0 ∧
        (pagingMapTo c virt phys physEnd flags).2 = c) ∨
      ∃ c', pagingMapTo c virt phys physEnd flags = (0, c') ∧
        c'.directoryEntry = c.directoryEntry ∧
        (∀ k < (physEnd - phys) / 4096 * 4096,
          pagingGetPhysicalAddress c' ((virt + k) % 2 ^ 32) = phys + k ∧
          pagingGet c' (pagingAlignToLowerPage ((virt + k) % 2 ^ 32)) % 4096 = flags) ∧
        ∀ w < 2 ^ 32, w % 4096 = 0 →
          (∀ j < (physEnd - phys) / 4096, w ≠ (virt + j * 4096) % 2 ^ 32) →
          pagingGet c' w = pagingGet c w := by
  refine ⟨fun virt hvirt => pagingGetPhysicalAddress_pagingNew4gb flags₀ t hvirt,
    fun c virt phys physEnd flags hvirt hphys hend hflags => ?_⟩
  · rcases pagingMapTo_cases c flags hvirt hend with ⟨hv, hp, he, hle, c', hmap, hm⟩ | ⟨-, hmap⟩
    · refine Or.inr ⟨c', hmap, hm.directory_eq, fun k hk => ?_, fun w hw hw' hne => ?_⟩
      · have hpage : (virt + k) % 2 ^ 32 / 4096 * 4096 = (virt + k / 4096 * 4096) % 2 ^ 32 := by
          omega
        have hframe : (phys + k / 4096 * 4096) % 2 ^ 32 = phys + k / 4096 * 4096 := by
          omega
        have hentry := hm.inside (k / 4096) (by omega)
        rw [← hpage, hframe] at hentry
        refine ⟨?_, ?_⟩
        · rw [pagingGetPhysicalAddress_of_entry hentry (by omega) (by omega) hflags]
          omega
        · rw [pagingAlignToLowerPage_eq, hentry, or_flags (by omega) hflags]
          omega
      · exact hm.outside w hw' hw hne
    · refine Or.inl ⟨?_, by rw [hmap]⟩
      rw [hmap]
      exact show -einvarg < 0 by decide

/-- Page tables in the first megabytes. -/
def lowTables : TableAddresses where
  entry i := (i % 1024 + 1) * 4096
  aligned i := by omega
  lt i := by omega
  injective i hi j hj h := by omega

/-- Two pages mapped from the last page of the address space on: the second is page `0`. -/
theorem paging_translation_wraps :
    pagingGetPhysicalAddress (pagingNew4gb 1 lowTables) 0xfffff005 = 0xfffff005 ∧
    ∃ c', pagingMapTo (pagingNew4gb 1 lowTables) 0xfffff000 0x2000 0x4000 7 = (0, c') ∧
      pagingGetPhysicalAddress c' 5 = 0x3005 := by
  obtain ⟨hidentity, hmapTo⟩ := paging_translation 1 lowTables
  refine ⟨hidentity 0xfffff005 (by decide), ?_⟩
  rcases hmapTo (pagingNew4gb 1 lowTables) 0xfffff000 0x2000 0x4000 7 (by decide) (by decide)
    (by decide) (by decide) with ⟨herror, -⟩ | ⟨c', hmap, -, hinside, -⟩
  · exact absurd herror (by decide)
  · exact ⟨c', hmap, (hinside 0x1005 (by decide)).1⟩

end SerpaeOS
