import SerpaeOS.Task.FileCommands

/-!
# Buffers of user processes

Three commands store their results in a buffer of the process: `fread`, `fstat` and the command
for the program arguments.  The kernel translates the first address of the buffer by the page
directory of the process, with no look at the flags of the page, and stores the bytes one behind
the other in physical memory.  `user_buffer_iff` says when all of them lie in pages that the
process may write itself.
-/

namespace SerpaeOS

open Bytes Word Prog

/-- The state of the kernel, and the bytes that were stored for the process so far: the address
in the process that a byte is meant for, and the physical address where it is stored. -/
structure BufferState where
  command : CommandState
  stored : List (ℕ × ℕ)

/-- A program over this state. -/
abbrev BufferProg := StateT BufferState Option

def onCommand {α : Type} (p : CommandProg α) : BufferProg α := fun s =>
  (p s.command).map fun r => (r.1, { s with command := r.2 })

/-- The addresses of `n` bytes from the position `offset` of the buffer at `virt` on, in the
process and in memory. -/
def bufferBytes (directory : PagingChunk) (virt offset n : ℕ) : List (ℕ × ℕ) :=
  (List.range n).map fun k => ((virt + (offset + k)) % 2 ^ 32,
    (pagingGetPhysicalAddress directory virt + (offset + k)) % 2 ^ 32)

/-- The bytes are stored from the position `offset` of the buffer at `virt` on; only the address
of the buffer is translated. -/
def storeBuffer (directory : PagingChunk) (virt offset : ℕ) (us : List UInt8) :
    BufferProg Unit := fun s =>
  some ((),
    { command :=
        { s.command with
          memory := s.command.memory.write (pagingGetPhysicalAddress directory virt + offset) us }
      stored := s.stored ++ bufferBytes directory virt offset us.length })

/-- `offsetof(struct process, arguments)`. -/
def argumentsOffset : ℕ := 9368

/-- A command with its arguments from the stack. -/
inductive BufferCommand
  | fread (fp count out : ℕ)
  | fstat (fp stat : ℕ)
  | getProgramArguments (args : ℕ)

/-- The address of the buffer. -/
def BufferCommand.buffer : BufferCommand → ℕ
  | fread _ _ out => out
  | fstat _ stat => stat
  | getProgramArguments args => args

namespace BufferCommand

section commands

variable (process : ℕ) (directory : PagingChunk)

/-- The check of the commands for files. -/
def checkFile (process fp : ℕ) (command : BufferProg ℤ) : BufferProg ℤ :=
  if fp < iobAddress process ∨ fp > iobAddress process + fileSize * nfile then return -einvarg
  else command

/-- `isr80h_command12_fread`. -/
def isr80hCommand12Fread (fp count out : ℕ) : BufferProg ℤ := checkFile process fp do
  let s ← onCommand getCommand
  let read ← onCommand (fileCall (s.file fp) (SerpaeOS.fread (s.file fp) count))
  storeBuffer directory out 0 read.2
  return read.1

/-- `isr80h_command20_fstat`; three bytes in front of the year are not stored. -/
def isr80hCommand20Fstat (fp stat : ℕ) : BufferProg ℤ := checkFile process fp do
  let s ← onCommand getCommand
  let res ← onCommand (fileCall (s.file fp) (SerpaeOS.fstat (s.file fp)))
  match res.2 with
  | none => return res.1
  | some st => do
    let date := st.creationDatetime
    storeBuffer directory stat 0 (numberBytes 4 st.flags ++ numberBytes 4 st.filesize ++
      [UInt8.ofNat date.seconds, UInt8.ofNat date.minutes, UInt8.ofNat date.hours,
        UInt8.ofNat date.day, UInt8.ofNat date.month])
    storeBuffer directory stat 16 (numberBytes 4 date.year)
    return res.1

/-- `isr80h_command8_get_program_arguments`. -/
def isr80hCommand8GetProgramArguments (args : ℕ) : BufferProg ℤ := do
  let s ← onCommand getCommand
  storeBuffer directory args 0
    (numberBytes 4 (u32le s.memory.at (process + argumentsOffset)))
  let s ← onCommand getCommand
  storeBuffer directory args 4
    (numberBytes 4 (u32le s.memory.at (process + argumentsOffset + 4)))
  return 0

end commands

def handle (process : ℕ) (directory : PagingChunk) : BufferCommand → BufferProg ℤ
  | fread fp count out => isr80hCommand12Fread process directory fp count out
  | fstat fp stat => isr80hCommand20Fstat process directory fp stat
  | getProgramArguments args => isr80hCommand8GetProgramArguments process directory args

end BufferCommand

/-! ## Two models of the commands -/

section acts

variable {process virt offset : ℕ} {directory : PagingChunk} {α β : Type} {p : BufferProg α}
  {q : CommandProg α} {f : α → BufferProg β} {g : α → CommandProg β}

/-- Apart from the record of the bytes stored, the program does what the other one does. -/
def ActsAs (p : BufferProg α) (q : CommandProg α) : Prop :=
  ∀ s, (p s).map (fun r => (r.1, r.2.command)) = q s.command

lemma ActsAs.bind (hp : ActsAs p q) (hf : ∀ a, ActsAs (f a) (g a)) :
    ActsAs (p >>= f) (q >>= g) := by
  intro s
  change ((p s).bind fun r => f r.1 r.2).map _ = (q s.command).bind fun r => g r.1 r.2
  rw [← hp s]
  cases p s with
  | none => rfl
  | some r => exact hf r.1 r.2

lemma actsAs_pure (a : α) : ActsAs (pure a) (pure a) := fun _ => rfl

lemma actsAs_onCommand (q : CommandProg α) : ActsAs (onCommand q) q := by
  intro s
  rw [onCommand]
  cases q s.command with
  | none => rfl
  | some r => rfl

lemma actsAs_storeBuffer (us : List UInt8) : ActsAs (storeBuffer directory virt offset us)
    (updateMemory fun mem => mem.write (pagingGetPhysicalAddress directory virt + offset) us) :=
  fun _ => rfl

lemma ActsAs.checkFile {p : BufferProg ℤ} {q : CommandProg ℤ} (h : ActsAs p q)
    (process fp : ℕ) :
    ActsAs (BufferCommand.checkFile process fp p) (SerpaeOS.checkFile process fp q) := by
  rw [BufferCommand.checkFile, SerpaeOS.checkFile]
  split_ifs
  · exact actsAs_pure _
  · exact h

/-- The command for files that stores in the buffer. -/
def BufferCommand.fileCommand : BufferCommand → Option FileCommand
  | fread fp count out => some (.fread fp count out)
  | fstat fp stat => some (.fstat fp stat)
  | getProgramArguments _ => none

/-- A command for files does the same in the two models of it. -/
theorem BufferCommand.actsAs_handle {command : BufferCommand} {c : FileCommand}
    (h : command.fileCommand = some c) (driverWrite : DriverWrite) :
    ActsAs (command.handle process directory)
      (isr80hHandleCommand process directory driverWrite c) := by
  cases command with
  | getProgramArguments args => cases h
  | fread fp count out =>
    cases h
    refine ActsAs.checkFile ?_ process fp
    refine (actsAs_onCommand getCommand).bind fun s => ?_
    refine (actsAs_onCommand _).bind fun read => ?_
    exact (actsAs_storeBuffer read.2).bind fun _ => actsAs_pure read.1
  | fstat fp stat =>
    cases h
    refine ActsAs.checkFile ?_ process fp
    refine (actsAs_onCommand getCommand).bind fun s => ?_
    refine (actsAs_onCommand _).bind fun res => ?_
    rcases res with ⟨res, _ | st⟩
    · exact actsAs_pure res
    · exact (actsAs_storeBuffer _).bind fun _ =>
        (actsAs_storeBuffer _).bind fun _ => actsAs_pure res

end acts

/-! ## Pages of the process -/

/-- User code may write to the address, and it is translated to the physical one. -/
def UserByte (directory : PagingChunk) (virt phys : ℕ) : Prop :=
  UserWritable directory (virt / pagingPageSize * pagingPageSize) ∧
    pagingGetPhysicalAddress directory virt = phys

/-- All bytes that the command stores lie in pages of the process, at the addresses that they are
meant for. -/
def KeepsToUserPages (process : ℕ) (directory : PagingChunk) (s : CommandState)
    (command : BufferCommand) : Prop :=
  ∀ res s', command.handle process directory ⟨s, []⟩ = some (res, s') →
    ∀ b ∈ s'.stored, UserByte directory b.1 b.2

/-- The page frame in the entry of a page. -/
def pageFrame (directory : PagingChunk) (page : ℕ) : ℕ :=
  entryAddress (pagingGet directory (page * pagingPageSize)) / pagingPageSize

/-- The pages of the `n` bytes from the position `offset` of the buffer on are writable for user
code, and their frames follow that of the first page of the buffer.  Page numbers have 20 bits. -/
def BufferMapped (directory : PagingChunk) (virt offset n : ℕ) : Prop :=
  ∀ page, (virt + offset) / pagingPageSize ≤ page → page * pagingPageSize < virt + offset + n →
    UserWritable directory (page % 2 ^ 20 * pagingPageSize) ∧
      pageFrame directory (page % 2 ^ 20) =
        (pageFrame directory (virt / pagingPageSize) + (page - virt / pagingPageSize)) % 2 ^ 20

/-- The positions and lengths of the parts of the buffer that the command stores: as many bytes
as the file layer delivers, the fields of the status, and the two arguments. -/
def BufferCommand.parts (process : ℕ) (s : CommandState) : BufferCommand → List (ℕ × ℕ)
  | fread fp count _ =>
    if fp < iobAddress process ∨ fp > iobAddress process + fileSize * nfile then []
    else
      match SerpaeOS.fread (s.file fp) count s.kernel with
      | none => []
      | some r => [(0, r.1.2.length)]
  | fstat fp _ =>
    if fp < iobAddress process ∨ fp > iobAddress process + fileSize * nfile then []
    else if (fileGetDescriptor s.kernel (s.file fp)).isSome then [(0, 13), (16, 4)] else []
  | getProgramArguments _ => [(0, 4), (4, 4)]

/-- All parts of the buffer that have a byte are mapped. -/
def UserBufferFits (process : ℕ) (directory : PagingChunk) (s : CommandState)
    (command : BufferCommand) : Prop :=
  ∀ part ∈ command.parts process s, 0 < part.2 →
    BufferMapped directory command.buffer part.1 part.2

variable {process virt phys offset n : ℕ} {directory : PagingChunk} {s : CommandState}

/-! ## Bytes and pages -/

lemma pageFrame_mul (page : ℕ) : pageFrame directory page * 4096 =
    entryAddress (pagingGet directory (page * 4096)) := by
  have h := (entryAddress_mod (pagingGet directory (page * 4096))).1
  simp only [pageFrame, pagingPageSize]
  omega

lemma pageFrame_lt (page : ℕ) : pageFrame directory page < 2 ^ 20 := by
  have h := (entryAddress_mod (pagingGet directory (page * 4096))).2
  simp only [pageFrame, pagingPageSize]
  omega

lemma pagingGetPhysicalAddress_eq (virt : ℕ) : pagingGetPhysicalAddress directory virt =
    pageFrame directory (virt / 4096) * 4096 + virt % 4096 := by
  have hlt := @pageFrame_lt directory (virt / 4096)
  simp only [pagingGetPhysicalAddress, pagingAlignToLowerPage_eq]
  rw [← pageFrame_mul]
  omega

lemma mem_bufferBytes_zero (hn : 0 < n) :
    (virt % 2 ^ 32, pagingGetPhysicalAddress directory virt % 2 ^ 32) ∈
      bufferBytes directory virt 0 n := by
  refine List.mem_map.mpr ⟨0, List.mem_range.mpr hn, ?_⟩
  simp only [Nat.add_zero]

/-- A byte of the buffer lies in a page of the process exactly if its page does. -/
lemma userByte_iff (k : ℕ) : UserByte directory ((virt + k) % 2 ^ 32)
      ((pagingGetPhysicalAddress directory virt + k) % 2 ^ 32) ↔
    UserWritable directory ((virt + k) / 4096 % 2 ^ 20 * 4096) ∧
      pageFrame directory ((virt + k) / 4096 % 2 ^ 20) =
        (pageFrame directory (virt / 4096) + ((virt + k) / 4096 - virt / 4096)) % 2 ^ 20 := by
  have hpage : (virt + k) % 2 ^ 32 / 4096 = (virt + k) / 4096 % 2 ^ 20 := by omega
  rw [UserByte, pagingPageSize, hpage]
  refine and_congr_right fun _ => ?_
  rw [pagingGetPhysicalAddress_eq, pagingGetPhysicalAddress_eq, hpage]
  have hlt := @pageFrame_lt directory ((virt + k) / 4096 % 2 ^ 20)
  have hlt' := @pageFrame_lt directory (virt / 4096)
  generalize pageFrame directory ((virt + k) / 4096 % 2 ^ 20) = frame at *
  generalize pageFrame directory (virt / 4096) = first at *
  omega

/-- The bytes of a part of the buffer lie in pages of the process exactly if the part is mapped. -/
lemma forall_bufferBytes_iff (hn : 0 < n) :
    (∀ b ∈ bufferBytes directory virt offset n, UserByte directory b.1 b.2) ↔
      BufferMapped directory virt offset n := by
  simp only [bufferBytes, List.forall_mem_map, List.mem_range, userByte_iff, BufferMapped,
    pagingPageSize]
  constructor
  · intro h page hle hlt
    -- the first byte of the part in the page
    obtain ⟨k, hk, hpage⟩ : ∃ k < n, (virt + (offset + k)) / 4096 = page := by
      by_cases hfirst : page * 4096 ≤ virt + offset
      · exact ⟨0, hn, by omega⟩
      · exact ⟨page * 4096 - (virt + offset), by omega, by omega⟩
    have hbyte := h k hk
    rwa [hpage] at hbyte
  · intro h k hk
    exact h _ (Nat.div_le_div_right (by omega)) (by omega)

/-! ## The commands -/

/-- What a command does: it is stuck and has no part to store, or ends after it has stored all
parts. -/
def Stores (process : ℕ) (directory : PagingChunk) (s : CommandState) (command : BufferCommand) :
    Prop :=
  (command.handle process directory ⟨s, []⟩ = none ∧ command.parts process s = []) ∨
    ∃ res s', command.handle process directory ⟨s, []⟩ = some (res, s') ∧
      s'.stored = (command.parts process s).flatMap fun part =>
        bufferBytes directory command.buffer part.1 part.2

lemma stores_fread (fp count out : ℕ) : Stores process directory s (.fread fp count out) := by
  by_cases hfp : fp < iobAddress process ∨ fp > iobAddress process + fileSize * nfile
  · refine Or.inr ⟨-einvarg, ⟨s, []⟩, ?_, ?_⟩
    · rw [BufferCommand.handle, BufferCommand.isr80hCommand12Fread, BufferCommand.checkFile,
        if_pos hfp]
      rfl
    · rw [BufferCommand.parts, if_pos hfp]
      rfl
  · have hrun : BufferCommand.handle process directory (.fread fp count out) ⟨s, []⟩ =
        (fread (s.file fp) count s.kernel).bind fun r => some (r.1.1,
          { command := { s with
              kernel := r.2
              memory := s.memory.write (pagingGetPhysicalAddress directory out + 0) r.1.2
              operated := if (fileGetDescriptor s.kernel (s.file fp)).isSome
                then s.file fp :: s.operated else s.operated }
            stored := [] ++ bufferBytes directory out 0 r.1.2.length }) := by
      rw [BufferCommand.handle, BufferCommand.isr80hCommand12Fread, BufferCommand.checkFile,
        if_neg hfp]
      simp only [bind, StateT.bind, onCommand, getCommand, fileCall, Option.map_some,
        Option.bind_some]
      cases fread (s.file fp) count s.kernel with
      | none => rfl
      | some r =>
        simp only [Option.map_some, Option.bind_some, storeBuffer]
        rfl
    rw [Stores, hrun, BufferCommand.parts, if_neg hfp]
    cases fread (s.file fp) count s.kernel with
    | none => exact Or.inl ⟨rfl, rfl⟩
    | some r => exact Or.inr ⟨_, _, rfl, by simp [BufferCommand.buffer]⟩

lemma runs_storeBuffer (us : List UInt8) (t : BufferState) :
    Runs (storeBuffer directory virt offset us) t fun _ t' =>
      t'.stored = t.stored ++ bufferBytes directory virt offset us.length :=
  ⟨(), _, rfl, rfl⟩

/-- The status of a file is there if the descriptor is. -/
lemma runs_fstatCall (fd : ℤ) (t : BufferState) :
    Runs (onCommand (fileCall fd (SerpaeOS.fstat fd))) t fun r t' => t'.stored = t.stored ∧
      r.2.isSome = (fileGetDescriptor t.command.kernel fd).isSome := by
  have hstat : Runs (SerpaeOS.fstat fd) t.command.kernel fun r _ =>
      r.2.isSome = (fileGetDescriptor t.command.kernel fd).isSome := by
    rw [fstat]
    refine Runs.bind (P := fun k k' => k = t.command.kernel ∧ k' = t.command.kernel)
      ⟨_, _, rfl, rfl, rfl⟩ fun k k' hk => ?_
    obtain ⟨rfl, rfl⟩ := hk
    cases fileGetDescriptor t.command.kernel fd with
    | none => exact runs_pure rfl
    | some desc => exact runs_pure rfl
  obtain ⟨r, k', hrun, hsome⟩ := hstat
  refine ⟨r, { t with command := { t.command with
    kernel := k'
    operated := if (fileGetDescriptor t.command.kernel fd).isSome
      then fd :: t.command.operated else t.command.operated } }, ?_, rfl, hsome⟩
  rw [onCommand, fileCall, hrun]
  rfl

lemma stores_fstat (fp stat : ℕ) : Stores process directory s (.fstat fp stat) := by
  by_cases hfp : fp < iobAddress process ∨ fp > iobAddress process + fileSize * nfile
  · refine Or.inr ⟨-einvarg, ⟨s, []⟩, ?_, ?_⟩
    · rw [BufferCommand.handle, BufferCommand.isr80hCommand20Fstat, BufferCommand.checkFile,
        if_pos hfp]
      rfl
    · rw [BufferCommand.parts, if_pos hfp]
      rfl
  · refine Or.inr ?_
    rw [BufferCommand.handle, BufferCommand.isr80hCommand20Fstat, BufferCommand.checkFile,
      if_neg hfp, BufferCommand.parts, if_neg hfp]
    refine Runs.bind (P := fun c t => c = s ∧ t = ⟨s, []⟩) ⟨_, _, rfl, rfl, rfl⟩ fun c t ht => ?_
    obtain ⟨rfl, rfl⟩ := ht
    refine (runs_fstatCall (c.file fp) ⟨c, []⟩).bind fun r t ht => ?_
    obtain ⟨hstored, hsome⟩ := ht
    rw [← hsome]
    rcases r with ⟨res, _ | st⟩
    · exact runs_pure hstored
    · refine (runs_storeBuffer _ _).bind fun _ t₁ ht₁ => ?_
      refine (runs_storeBuffer _ _).bind fun _ t₂ ht₂ => runs_pure ?_
      rw [ht₂, ht₁, hstored]
      simp [BufferCommand.buffer]

lemma stores_getProgramArguments (args : ℕ) :
    Stores process directory s (.getProgramArguments args) :=
  Or.inr ⟨0, _, rfl, by simp [BufferCommand.parts, BufferCommand.buffer]⟩

lemma stores (command : BufferCommand) : Stores process directory s command := by
  cases command with
  | fread fp count out => exact stores_fread fp count out
  | fstat fp stat => exact stores_fstat fp stat
  | getProgramArguments args => exact stores_getProgramArguments args

/-- The bytes that a command stores lie in pages that the process may write exactly if the parts
of its buffer are mapped. -/
theorem user_buffer_iff (process : ℕ) (directory : PagingChunk) (s : CommandState)
    (command : BufferCommand) :
    KeepsToUserPages process directory s command ↔ UserBufferFits process directory s command := by
  have hparts : UserBufferFits process directory s command ↔
      ∀ part ∈ command.parts process s, ∀ b ∈ bufferBytes directory command.buffer part.1 part.2,
        UserByte directory b.1 b.2 := by
    refine forall₂_congr fun part _ => ?_
    by_cases hpos : 0 < part.2
    · rw [forall_bufferBytes_iff hpos, forall_prop_of_true hpos]
    · have hnone : bufferBytes directory command.buffer part.1 part.2 = [] := by
        rw [Nat.eq_zero_of_not_pos hpos]
        rfl
      rw [hnone]
      exact iff_of_true (fun h => absurd h hpos) fun b hb => absurd hb List.not_mem_nil
  rw [hparts]
  have hstores : Stores process directory s command := stores command
  rcases hstores with ⟨hrun, hnone⟩ | ⟨res, s', hrun, hstored⟩
  · rw [KeepsToUserPages, hrun, hnone]
    exact iff_of_true (fun _ _ h => by cases h) fun part hpart => absurd hpart List.not_mem_nil
  · have hends : KeepsToUserPages process directory s command ↔
        ∀ b ∈ s'.stored, UserByte directory b.1 b.2 := by
      rw [KeepsToUserPages, hrun]
      refine ⟨fun h => h res s' rfl, fun h _ _ heq => ?_⟩
      obtain ⟨-, rfl⟩ := Prod.mk.inj (Option.some.inj heq)
      exact h
    rw [hends, hstored]
    simp only [List.mem_flatMap]
    exact ⟨fun h part hpart b hb => h b ⟨part, hpart, hb⟩,
      fun h b ⟨part, hpart, hb⟩ => h part hpart b hb⟩

/-- A process asks for its arguments at an address in the memory of the kernel, which is mapped
for reading only. -/
theorem not_user_buffer_kernel :
    ¬ KeepsToUserPages (slotProcess 0) identityDirectory (sharedFile (slotProcess 0))
      (.getProgramArguments 0x100000) := by
  intro h
  rcases @stores_getProgramArguments (slotProcess 0) identityDirectory
    (sharedFile (slotProcess 0)) 0x100000 with ⟨-, hnone⟩ | ⟨res, s', hrun, hstored⟩
  · cases hnone
  · have hfirst := @mem_bufferBytes_zero 0x100000 4 identityDirectory (by decide)
    have hmem := hstored ▸ List.mem_flatMap.mpr ⟨(0, 4), List.mem_cons_self, hfirst⟩
    obtain ⟨⟨-, hflags⟩, -⟩ := h res s' hrun _ hmem
    rw [identityDirectory, pagingGet_pagingNew4gb 5 lowTables (by decide) (by decide)] at hflags
    exact absurd hflags (by decide)

end SerpaeOS
