import SerpaeOS.Heap.Kheap
import SerpaeOS.Task.System

/-!
# Reading the structure of a process

A privileged process may ask for the structure of another one, which is mapped to its own address
in the caller's page directory, without permission to write.  The end of the range is computed by
adding `sizeof(struct process)` to a pointer to such a structure, which moves it by the square of
this size.
-/

namespace SerpaeOS

open BlockTable Word

/-- What the command works on: the table of processes, whose structures are blocks of the kernel
heap, the flag and the page directory of the caller. -/
structure InfSystem where
  processes : ℕ → ℕ
  priv : Bool
  pageDirectory : PagingChunk
  isBlock : ∀ i, processes i ≠ 0 →
    ∃ s, processes i = blockAddress s ∧ s + blocksFor processSize ≤ kernelBlocks

/-- `process_get`. -/
def processGet (s : InfSystem) (processId : ℤ) : ℕ :=
  if processId < 0 ∨ (totalMaxProcesses : ℤ) ≤ processId then 0 else s.processes processId.toNat

/-- The flags of a page that user code may only read. -/
def readOnlyPageFlags : ℕ := pagingIsPresent ||| pagingAccessFromAll

/-- `process + sizeof(struct process)`, for a pointer to a `struct process`. -/
def processPlusSize (process : ℕ) : ℕ := (process + processSize * processSize) % 2 ^ 32

/-- `isr80h_command15_process_inf`: the result and the page directory of the caller. -/
def isr80hCommand15ProcessInf (s : InfSystem) (id : ℤ) : ℕ × PagingChunk :=
  if s.priv = false then (0, s.pageDirectory)
  else
    let process := processGet s id
    if process = 0 then (0, s.pageDirectory)
    else
      let (res, directory) := pagingMapTo s.pageDirectory process process
        (pagingAlignAddress (processPlusSize process)) readOnlyPageFlags
      if res ≠ 0 then (0, directory) else (process, directory)

/-- The page at `w` overlaps the structure of the process. -/
def OverlapsProcess (process w : ℕ) : Prop := w < process + processSize ∧ process < w + 4096

/-- Only the entries of the pages that overlap the structure are different. -/
def ChangesOnlyProcess (process : ℕ) (c c' : PagingChunk) : Prop :=
  c'.directoryEntry = c.directoryEntry ∧
    ∀ w : ℕ, w % 4096 = 0 → w < 2 ^ 32 → ¬ OverlapsProcess process w →
      pagingGet c' w = pagingGet c w

variable {s : InfSystem} {id : ℤ} {w : ℕ}

/-- The structure of a live process is aligned, and far from the end of the address space. -/
lemma processGet_address (hlive : processGet s id ≠ 0) :
    processGet s id % 4096 = 0 ∧ processGet s id < 2 ^ 31 := by
  rw [processGet] at hlive ⊢
  split_ifs at hlive ⊢ with h
  · exact absurd rfl hlive
  · obtain ⟨b, hb, hin⟩ := s.isBlock _ hlive
    have hlt : b < 409600 := lt_of_lt_of_le (Nat.lt_add_of_pos_right (by decide)) hin
    rw [hb, blockAddress, heapAddress, heapBlockSize]
    constructor
    · omega
    · omega

lemma processSize_mul_self : processSize * processSize = 89567296 := rfl

/-- The end of the pages that the command maps. -/
lemma alignAddress_processPlusSize {p : ℕ} (hp : p % 4096 = 0) (hlt : p < 2 ^ 31) :
    pagingAlignAddress (processPlusSize p) = p + 21868 * 4096 := by
  rw [pagingAlignAddress, processPlusSize, processSize_mul_self, pagingPageSize]
  rw [Nat.mod_eq_of_lt (show p + 89567296 < 2 ^ 32 by omega), if_pos (by omega)]
  omega

/-- The entries behind the command. -/
lemma processInf_entry (hpriv : s.priv = true) (hlive : processGet s id ≠ 0) :
    ∃ c', isr80hCommand15ProcessInf s id = (processGet s id, c') ∧
      c'.directoryEntry = s.pageDirectory.directoryEntry ∧
      ∀ w : ℕ, w % 4096 = 0 → w < 2 ^ 32 → pagingGet c' w =
        if processGet s id ≤ w ∧ w < processGet s id + processSize * processSize then
          w ||| readOnlyPageFlags
        else pagingGet s.pageDirectory w := by
  obtain ⟨hp, hlt⟩ := processGet_address hlive
  generalize hq : processGet s id = p at hp hlt hlive
  have hend := alignAddress_processPlusSize hp hlt
  obtain ⟨c', hmap, hm⟩ := pagingMapTo_mapped s.pageDirectory readOnlyPageFlags hp
    (show p < 2 ^ 32 by omega) hp (show (p + 21868 * 4096) % 4096 = 0 by omega) (by omega)
    (by omega)
  refine ⟨c', ?_, hm.directory_eq, fun w hw hw' => ?_⟩
  · simp [isr80hCommand15ProcessInf, hpriv, hq, hlive, hend, hmap]
  · have hentry := hm.identity hp (by omega) (show w / 4096 * 4096 < 2 ^ 32 by omega)
    rw [show w / 4096 * 4096 = w by omega,
      show (p + 21868 * 4096 - p) / 4096 = 21868 by omega] at hentry
    rw [hentry, processSize_mul_self]
    exact if_congr (and_congr_right fun _ => by omega) rfl rfl

/-- The command changes only the pages of the structure if and only if every page behind them, up
to the square of the size, is one that the caller can only read, at its own address. -/
theorem process_inf_iff (hpriv : s.priv = true) (hlive : processGet s id ≠ 0) :
    ChangesOnlyProcess (processGet s id) s.pageDirectory (isr80hCommand15ProcessInf s id).2 ↔
      ∀ w : ℕ, w % 4096 = 0 → processGet s id + processSize ≤ w →
        w < processGet s id + processSize * processSize →
        pagingGet s.pageDirectory w = w ||| readOnlyPageFlags := by
  obtain ⟨hp, hlt⟩ := processGet_address hlive
  obtain ⟨c', hrun, hdir, hentry⟩ := processInf_entry hpriv hlive
  rw [hrun]
  constructor
  · rintro ⟨-, hsame⟩ w hw hle hend
    have hw' : w < 2 ^ 32 := by
      rw [processSize_mul_self] at hend
      omega
    rw [← hsame w hw hw' fun h => absurd h.1 (not_lt.mpr hle), hentry w hw hw',
      if_pos ⟨le_trans (Nat.le_add_right _ _) hle, hend⟩]
  · intro hread
    refine ⟨hdir, fun w hw hw' hover => ?_⟩
    rw [hentry w hw hw']
    split_ifs with hmapped
    · -- the page is mapped, but lies behind the structure
      refine (hread w hw (not_lt.mp fun hbefore => hover ⟨hbefore, ?_⟩) hmapped.2).symm
      exact lt_of_le_of_lt hmapped.1 (Nat.lt_add_of_pos_right (by decide))
    · rfl

/-- A privileged caller with the given page directory, and a process in the first blocks of the
heap. -/
def infSystem (c : PagingChunk) : InfSystem where
  processes i := if i = 0 then blockAddress 0 else 0
  priv := true
  pageDirectory := c
  isBlock i hi := ⟨0, if_pos (by_contra fun h => hi (if_neg h)), by decide⟩

lemma processGet_infSystem (c : PagingChunk) : processGet (infSystem c) 0 = blockAddress 0 := rfl

lemma infSystem_live (c : PagingChunk) : processGet (infSystem c) 0 ≠ 0 := blockAddress_ne_zero 0

/-- Nothing is allocated to a caller with a new page directory. -/
theorem process_inf_iff_new :
    ChangesOnlyProcess (blockAddress 0) (pagingNew4gb 5 lowTables)
      (isr80hCommand15ProcessInf (infSystem (pagingNew4gb 5 lowTables)) 0).2 := by
  refine (process_inf_iff rfl (infSystem_live _)).mpr fun w hw _ hlt => ?_
  refine pagingGet_pagingNew4gb 5 lowTables hw ?_
  rw [processGet_infSystem, processSize_mul_self, blockAddress, heapAddress, heapBlockSize] at hlt
  omega

/-- The caller has a writable allocation of one page behind the structure, which it can only read
afterwards. -/
theorem not_process_inf : ¬ ∀ (s : InfSystem) (id : ℤ), s.priv = true → processGet s id ≠ 0 →
    ChangesOnlyProcess (processGet s id) s.pageDirectory (isr80hCommand15ProcessInf s id).2 := by
  intro h
  obtain ⟨c, -, hm⟩ := pagingMapTo_mapped (pagingNew4gb 5 lowTables) userPageFlags
    (show 0x100A000 % 4096 = 0 by decide) (by decide) (show 0x100A000 % 4096 = 0 by decide)
    (show 0x100B000 % 4096 = 0 by decide) (by decide) (by decide)
  have hwritable := hm.inside 0 (by decide)
  obtain ⟨c', hrun, -, hentry⟩ := processInf_entry rfl (infSystem_live c)
  have hsame := (h (infSystem c) 0 rfl (infSystem_live c)).2 0x100A000 (by decide)
    (by decide) (by rw [OverlapsProcess, processGet_infSystem]; decide)
  rw [hrun, hentry 0x100A000 (by decide) (by decide), if_pos ?_] at hsame
  · exact absurd (hsame.trans hwritable) (by decide)
  · rw [processGet_infSystem]
    decide

end SerpaeOS
