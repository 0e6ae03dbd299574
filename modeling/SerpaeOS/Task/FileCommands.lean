import SerpaeOS.Task.Terminate

/-!
# File commands of a process

A process names an open file by a `FILE *`, which the kernel takes from the stack of the
process and uses as an address.  The commands of `isr80h/io.c` compare it with the first and
the last address of the process's own `iob`, except for `fclose`.  Here the structures of the
processes are bytes of the memory, and buffers are translated by the process's page
directory.  A buffer is not checked; what follows a store over the data of the kernel is open.
-/

namespace SerpaeOS

open Bytes Word Prog StepRun

/-- The bytes of a list are stored one after the other; addresses have 32 bits. -/
def Memory.write : Memory → ℕ → List UInt8 → Memory
  | mem, _, [] => mem
  | mem, a, u :: us => Memory.write ⟨Function.update mem.byte (a % 2 ^ 32) u⟩ (a + 1) us

/-- The kernel, the memory, and the indices of the descriptors that the file layer has
operated on so far. -/
structure CommandState where
  kernel : Kernel
  memory : Memory
  operated : List ℤ

/-- A program over this state. -/
abbrev CommandProg := StateT CommandState Option

def getCommand : CommandProg CommandState := fun s => some (s, s)

def updateMemory (f : Memory → Memory) : CommandProg Unit := fun s =>
  some ((), { s with memory := f s.memory })

/-- A call of the file layer with an index.  It operates on the descriptor that the index
resolves to. -/
def fileCall {α : Type} (fd : ℤ) (p : KernelProg α) : CommandProg α := fun s =>
  (p s.kernel).map fun r => (r.1, { s with
    kernel := r.2
    operated := if (fileGetDescriptor s.kernel fd).isSome then fd :: s.operated else s.operated })

/-- `*fp`. -/
def CommandState.file (s : CommandState) (fp : ℕ) : ℤ := i32 (u32le s.memory.at fp)

/-- `sizeof(FILE)`. -/
def fileSize : ℕ := 4

/-- The field `iob` of a process. -/
def iobAddress (process : ℕ) : ℕ := process + 9380

/-- What `fat16_stat` and `fat32_stat` store of `struct filestat`. -/
def FileStat.write (st : FileStat) (mem : Memory) (a : ℕ) : Memory :=
  let date := st.creationDatetime
  let mem := mem.write a (numberBytes 4 st.flags ++ numberBytes 4 st.filesize ++
    [UInt8.ofNat date.seconds, UInt8.ofNat date.minutes, UInt8.ofNat date.hours,
      UInt8.ofNat date.day, UInt8.ofNat date.month])
  mem.write (a + 16) (numberBytes 4 date.year)

/-! ## The commands -/

/-- `process_fclose`. -/
def processFcloseAt (fp : ℕ) : CommandProg ℤ := do
  let s ← getCommand
  let _ ← fileCall (s.file fp) (fclose (s.file fp))
  updateMemory fun mem => mem.write fp (numberBytes fileSize 0)
  return 0

/-- `isr80h_command11_fclose`. -/
def isr80hCommand11Fclose (fp : ℕ) : CommandProg ℤ := processFcloseAt fp

/-- The check of the other commands. -/
def checkFile (process fp : ℕ) (command : CommandProg ℤ) : CommandProg ℤ := do
  if fp < iobAddress process ∨ fp > iobAddress process + fileSize * nfile then return -einvarg
  else command

section commands

variable (process : ℕ) (directory : PagingChunk) (driverWrite : DriverWrite)

/-- `isr80h_command12_fread`. -/
def isr80hCommand12Fread (fp count out : ℕ) : CommandProg ℤ := checkFile process fp do
  let s ← getCommand
  let read ← fileCall (s.file fp) (fread (s.file fp) count)
  updateMemory fun mem => mem.write (pagingGetPhysicalAddress directory out) read.2
  return read.1

/-- `isr80h_command13_fwrite`. -/
def isr80hCommand13Fwrite (fp count buf : ℕ) : CommandProg ℤ := checkFile process fp do
  let s ← getCommand
  fileCall (s.file fp)
    (fwrite driverWrite (s.file fp) (pagingGetPhysicalAddress directory buf) (i32 count))

/-- `isr80h_command20_fstat`. -/
def isr80hCommand20Fstat (fp stat : ℕ) : CommandProg ℤ := checkFile process fp do
  let s ← getCommand
  let res ← fileCall (s.file fp) (fstat (s.file fp))
  match res.2 with
  | none => return res.1
  | some st => do
    updateMemory fun mem => st.write mem (pagingGetPhysicalAddress directory stat)
    return res.1

/-- `isr80h_command21_ftell`. -/
def isr80hCommand21Ftell (fp : ℕ) : CommandProg ℤ := checkFile process fp do
  let s ← getCommand
  fileCall (s.file fp) (ftell (s.file fp))

/-- `isr80h_command22_fseek`. -/
def isr80hCommand22Fseek (fp offset whence : ℕ) : CommandProg ℤ := checkFile process fp do
  let s ← getCommand
  fileCall (s.file fp) (fseek (s.file fp) offset whence)

/-- A command with its arguments from the stack. -/
inductive FileCommand
  | fclose (fp : ℕ)
  | fread (fp count out : ℕ)
  | fwrite (fp count buf : ℕ)
  | fstat (fp stat : ℕ)
  | ftell (fp : ℕ)
  | fseek (fp offset whence : ℕ)

/-- The check rejects the address. -/
def FileRejected (process fp : ℕ) : Prop :=
  fp < iobAddress process ∨ fp > iobAddress process + fileSize * nfile

instance (process fp : ℕ) : Decidable (FileRejected process fp) :=
  inferInstanceAs (Decidable (_ ∨ _))

/-- The bytes of `struct filestat` up to the last one that is set. -/
def fileStatSize : ℕ := 20

/-- The address from which on a command may store bytes, and their number. -/
def storedBytes : FileCommand → ℕ × ℕ
  | .fclose fp => (fp, fileSize)
  | .fread fp count out =>
    if FileRejected process fp then (0, 0)
    else (pagingGetPhysicalAddress directory out, u32 count)
  | .fstat fp stat =>
    if FileRejected process fp then (0, 0)
    else (pagingGetPhysicalAddress directory stat, fileStatSize)
  | .fwrite _ _ _ | .ftell _ | .fseek _ _ _ => (0, 0)

/-- None of these bytes belongs to the program of the kernel or lies in the block of a structure of
the file layer. -/
def Harmless (kernelByte : ℕ → Bool) (s : CommandState) (command : FileCommand) : Prop :=
  let (a, n) := storedBytes process directory command
  ∀ i < n, kernelByte ((a + i) % 2 ^ 32) = false ∧ ∀ e ∈ s.kernel.structures,
    (a + i) % 2 ^ 32 < blockAddress e.start ∨ blockAddress (e.start + e.len) ≤ (a + i) % 2 ^ 32

instance (kernelByte : ℕ → Bool) (s : CommandState) (command : FileCommand) :
    Decidable (Harmless process directory kernelByte s command) :=
  inferInstanceAs (Decidable (∀ _ < _, _))

variable (kernelByte : ℕ → Bool) (lost : CommandState → FileCommand → Option CommandState)

def isr80hHandleCommand : FileCommand → CommandProg ℤ
  | .fclose fp => isr80hCommand11Fclose fp
  | .fread fp count out => isr80hCommand12Fread process directory fp count out
  | .fwrite fp count buf => isr80hCommand13Fwrite process directory driverWrite fp count buf
  | .fstat fp stat => isr80hCommand20Fstat process directory fp stat
  | .ftell fp => isr80hCommand21Ftell process fp
  | .fseek fp offset whence => isr80hCommand22Fseek process fp offset whence

/-- A command whose buffer lies over the kernel's own data, or that finds the structures of the file
layer no longer intact, may do anything: `lost`. -/
def commandStep (s : CommandState) (command : FileCommand) : Option CommandState :=
  if s.kernel.Intact ∧ Harmless process directory kernelByte s command then
    (isr80hHandleCommand process directory driverWrite command s).map Prod.snd
  else lost s command

end commands

/-! ## Confinement -/

/-- One of the entries of the process's `iob` holds the index. -/
def CommandState.Owns (s : CommandState) (process : ℕ) (fd : ℤ) : Prop :=
  ∃ j < nfile, s.file (iobAddress process + fileSize * j) = fd

/-- Since the state was `s₀`, only descriptors of the process were operated on, and all others
are as they were. -/
structure FilesConfined (process : ℕ) (s₀ s : CommandState) : Prop where
  operated : ∀ fd ∈ s.operated, s₀.Owns process fd
  others : ∀ i, ¬ s₀.Owns process ((i + 1 : ℕ) : ℤ) →
    s.kernel.fileDescriptors i = s₀.kernel.fileDescriptors i

/-- A descriptor knows its index. -/
def IndexOk (k : Kernel) : Prop :=
  ∀ i desc, k.fileDescriptors i = some desc → desc.index = i + 1

/-- The structure of the process lies in memory, and nothing was operated on. -/
structure CommandStart (process : ℕ) (s : CommandState) : Prop where
  inside : process + processSize ≤ 2 ^ 32
  index_ok : IndexOk s.kernel
  operated_nil : s.operated = []

/-- The address of an entry of the process's `iob`. -/
def IobSlot (process fp : ℕ) : Prop := ∃ j < nfile, fp = iobAddress process + fileSize * j

/-- None of the bytes from an address on belongs to the process's `iob`. -/
def OutsideIob (process a n : ℕ) : Prop :=
  ∀ i < n, (a + i) % 2 ^ 32 < iobAddress process ∨
    iobAddress process + fileSize * nfile ≤ (a + i) % 2 ^ 32

/-- The file is an entry of the process's `iob`, or the command rejects it, which `fclose` never
does; and what the command stores does not lie over the `iob`. -/
def CommandSound (process : ℕ) (directory : PagingChunk) : FileCommand → Prop
  | .fclose fp => IobSlot process fp
  | .fread fp count out => FileRejected process fp ∨ IobSlot process fp ∧
    OutsideIob process (pagingGetPhysicalAddress directory out) (u32 count)
  | .fwrite fp _ _ => FileRejected process fp ∨ IobSlot process fp
  | .fstat fp stat => FileRejected process fp ∨ IobSlot process fp ∧
    OutsideIob process (pagingGetPhysicalAddress directory stat) fileStatSize
  | .ftell fp => FileRejected process fp ∨ IobSlot process fp
  | .fseek fp _ _ => FileRejected process fp ∨ IobSlot process fp

/-! ## Memory -/

lemma Memory.write_at_of_ne {l : List UInt8} : ∀ {mem : Memory} {a x : ℕ},
    (∀ i < l.length, (a + i) % 2 ^ 32 ≠ x % 2 ^ 32) → (mem.write a l).at x = mem.at x := by
  induction l with
  | nil => exact fun _ => rfl
  | cons u us ih =>
    intro mem a x h
    have hrest : ∀ i < us.length, (a + 1 + i) % 2 ^ 32 ≠ x % 2 ^ 32 := by
      intro i hi
      have hne := h (i + 1) (by rw [List.length_cons]; omega)
      rwa [← Nat.add_assoc, Nat.add_right_comm] at hne
    have hfirst := h 0 (by rw [List.length_cons]; omega)
    rw [Nat.add_zero] at hfirst
    rw [Memory.write, ih hrest, Memory.at, Memory.at]
    exact Function.update_of_ne hfirst.symm _ _

lemma Memory.write_at_self {l : List UInt8} : ∀ {mem : Memory} {a : ℕ}, l.length ≤ 2 ^ 32 →
    ∀ i < l.length, (mem.write a l).at (a + i) = l.getD i 0 := by
  induction l with
  | nil => exact fun _ i hi => absurd hi (Nat.not_lt_zero i)
  | cons u us ih =>
    intro mem a hlen i hi
    rw [List.length_cons] at hlen hi
    rcases i with _ | i
    · rw [Memory.write, Memory.write_at_of_ne fun j hj => by omega, Memory.at, Nat.add_zero]
      exact Function.update_self _ _ _
    · rw [Memory.write, Nat.add_comm i 1, ← Nat.add_assoc, ih (by omega) i (by omega),
        Nat.add_comm 1 i, List.getD_cons_succ]

variable {s₀ s : CommandState} {process : ℕ} {k k' : Kernel} {fd : ℤ}

/-- What is stored outside of the `iob` does not change its entries. -/
lemma CommandState.file_write {l : List UInt8} {a j : ℕ} (hin : process + processSize ≤ 2 ^ 32)
    (hj : j < nfile) (hout : OutsideIob process a l.length) :
    ({ s with memory := s.memory.write a l } : CommandState).file
      (iobAddress process + fileSize * j) = s.file (iobAddress process + fileSize * j) := by
  rw [CommandState.file, CommandState.file]
  congr 2
  refine u32le_congr fun i hi => Memory.write_at_of_ne fun n hn => ?_
  have h := hout n hn
  simp only [iobAddress, fileSize, nfile, processSize] at *
  omega

lemma u32le_zero {f : ℕ → UInt8} {a : ℕ} (h : ∀ i < 4, f (a + i) = 0) : u32le f a = 0 := by
  have hsame : u32le f a = u32le (fun _ => 0) 0 := u32le_congr h
  rw [hsame]
  rfl

lemma numberBytes_zero (size i : ℕ) : (numberBytes size 0).getD i 0 = 0 := by
  induction size generalizing i with
  | zero => rfl
  | succ size ih =>
    rw [numberBytes, Nat.zero_div]
    rcases i with _ | i
    · rfl
    · rw [List.getD_cons_succ, ih]

/-- An entry that is closed holds `0`. -/
lemma CommandState.file_clear (fp : ℕ) :
    ({ s with memory := s.memory.write fp (numberBytes fileSize 0) } : CommandState).file fp =
      0 := by
  have hbytes : ∀ i < 4, (s.memory.write fp (numberBytes fileSize 0)).at (fp + i) = 0 := by
    intro i hi
    rw [Memory.write_at_self (by decide) i (by rw [length_numberBytes]; exact hi),
      numberBytes_zero]
  rw [CommandState.file, u32le_zero hbytes]
  rfl

/-- The other entries stay. -/
lemma CommandState.file_clear_other {i j : ℕ} (hi : i < nfile) (hj : j < nfile) (hne : i ≠ j) :
    ({ s with memory := (s.memory.write (iobAddress process + fileSize * i)
        (numberBytes fileSize 0)) } : CommandState).file (iobAddress process + fileSize * j) =
      s.file (iobAddress process + fileSize * j) := by
  rw [CommandState.file, CommandState.file]
  congr 2
  refine u32le_congr fun x hx => Memory.write_at_of_ne fun n hn => ?_
  rw [length_numberBytes] at hn
  simp only [iobAddress, fileSize, nfile] at *
  omega

/-! ## The number of bytes that are read -/

lemma length_diskstreamerReadLoop (disk : Disk) (calls : ℕ) : ∀ (pos : ℤ) (total : ℕ),
    (diskstreamerReadLoop disk calls pos total).2.1.length ≤ total := by
  induction calls with
  | zero => exact fun pos total => Nat.zero_le _
  | succ calls ih =>
    intro pos total
    rw [diskstreamerReadLoop]
    by_cases hpos : pos < 0
    · rw [if_pos hpos]
      exact Nat.zero_le _
    rw [if_neg hpos]
    generalize diskReadBlock disk (pos.toNat / defaultSectorSize) = read
    simp only
    split_ifs with hread hnext
    · exact Nat.zero_le _
    · generalize hn : total - (pos.toNat % defaultSectorSize + total - defaultSectorSize) = n
      have hrest := ih (pos + n) (total - n)
      rw [List.length_append, length_slice]
      omega
    · exact (length_slice _ _ _).le

/-- No read stores more than the bytes that are to be read. -/
lemma FatKind.length_readFromLoop {k : FatKind} {v : FatVolume} {disk : Disk} (cluster : ℤ)
    (calls : ℕ) : ∀ offset total : ℤ, i32 total = total →
    (k.readFromLoop v disk cluster calls offset total).2.length ≤ k.bytesRead v total := by
  induction calls with
  | zero => exact fun offset total _ => Nat.zero_le _
  | succ calls ih =>
    intro offset total htotal
    rw [readFromLoop]
    simp only
    by_cases hneg : k.getClusterForOffset v disk cluster offset.toNat < 0
    · rw [if_pos hneg]
      exact Nat.zero_le _
    rw [if_neg hneg]
    generalize hr : diskstreamerRead disk _ _ = read
    have hlen : read.2.1.length ≤ (k.totalToRead v total).toNat := by
      rw [← hr]
      exact length_diskstreamerReadLoop disk _ _ _
    rcases k.totalToRead_cases (v := v) htotal with ⟨hmore, heq, hword, hleft⟩ | ⟨hlast, -, -⟩
    · have hsmall : u32 total - v.clusterBytes < 2 ^ 31 := by
        simp only [i32, Int.bmod_def] at hleft
        omega
      have hrest := ih (i32 (offset + k.totalToRead v total)) _ (i32_i32 (total -
        k.totalToRead v total))
      have hbytes : k.bytesRead v total = u32 total := if_pos hmore
      rw [hleft, bytesRead_natCast hsmall] at hrest
      rw [heq, Int.toNat_natCast] at hlen
      rw [hbytes, if_pos hmore, hleft]
      split_ifs
      · exact hlen.trans hword.le
      · rw [List.length_append]
        omega
    · have hbytes : k.bytesRead v total = (k.totalToRead v total).toNat := if_neg hlast
      rw [hbytes, if_neg hlast]
      split_ifs
      · exact hlen
      · exact hlen

lemma snd_ite_neg {α : Type} (r : ℤ × List UInt8) (f g : α) :
    (if r.1 < 0 then (r.1, r.2, f) else (r.1, r.2, g)).2.1 = r.2 := by
  split_ifs
  · rfl
  · rfl

lemma FatMount.length_fatRead (mt : FatMount) (f : FatOpenFile) (size : ℕ) :
    (mt.fatRead f size).2.1.length ≤ mt.kind.bytesRead mt.volume (i32 size) := by
  have hread : (mt.fatRead f size).2.1 = (mt.kind.readFrom mt.volume mt.disk
      f.item.firstClusterInt (i32 f.pos) (i32 size)).2 := snd_ite_neg _ _ _
  rw [hread]
  exact FatKind.length_readFromLoop _ _ _ _ (i32_i32 _)

/-! ## What a call of the file layer does to the descriptors -/

/-- Only the descriptor that the index resolves to may have changed. -/
structure OnlyIndex (fd : ℤ) (k k' : Kernel) : Prop where
  none_eq : fileGetDescriptor k fd = none → k'.fileDescriptors = k.fileDescriptors
  others : ∀ i, ((i + 1 : ℕ) : ℤ) ≠ fd → k'.fileDescriptors i = k.fileDescriptors i
  index_ok : IndexOk k'

lemma IndexOk.onlyIndex (h : IndexOk k) (hsame : k'.fileDescriptors = k.fileDescriptors) :
    OnlyIndex fd k k' := by
  refine ⟨fun _ => hsame, fun i _ => by rw [hsame], ?_⟩
  rw [IndexOk, hsame]
  exact h

/-- The slot of the descriptor is assigned. -/
lemma IndexOk.onlyIndex_update {desc : FileDescriptor} {value : Option FileDescriptor}
    (h : IndexOk k) (hget : fileGetDescriptor k fd = some desc)
    (htable : k'.fileDescriptors = Function.update k.fileDescriptors (fd - 1).toNat value)
    (hvalue : ∀ d, value = some d → d.index = desc.index) : OnlyIndex fd k k' := by
  obtain ⟨hpos, hslot⟩ := slot_of_fileGetDescriptor hget
  refine ⟨fun hnone => ?_, fun i hi => ?_, fun i d hd => ?_⟩
  · rw [hget] at hnone
    cases hnone
  · rw [htable, Function.update_of_ne (by omega)]
  · rw [htable] at hd
    by_cases hi : i = (fd - 1).toNat
    · rw [hi, Function.update_self] at hd
      rw [hvalue d hd, hi]
      exact h _ _ hslot
    · rw [Function.update_of_ne hi] at hd
      exact h i d hd

lemma ends_updateKernel_pure {α : Type} {f : Kernel → Kernel} {a : α} {Q : α → Kernel → Prop}
    (h : Q a (f k)) : Ends (do updateKernel f; return a : KernelProg α) k Q := by
  intro b k' hrun
  cases hrun
  exact h

lemma IndexOk.ends_fclose (h : IndexOk k) :
    Ends (fclose fd) k fun _ k' => OnlyIndex fd k k' := by
  rcases hget : fileGetDescriptor k fd with _ | desc
  · intro res k' hrun
    rw [fclose_none hget] at hrun
    cases hrun
    exact h.onlyIndex rfl
  by_cases hroom : (kzalloc k.memory.heap pathRootSize).2 = 0
  · intro res k' hrun
    rw [fclose_stuck hget hroom] at hrun
    cases hrun
  · obtain ⟨hpos, hslot⟩ := slot_of_fileGetDescriptor hget
    obtain ⟨k₁, hclose, htable⟩ := fclose_open hget hroom
    intro res k' hrun
    cases hclose.symm.trans hrun
    rw [h _ _ hslot, Nat.add_sub_cancel] at htable
    exact h.onlyIndex_update hget htable fun d hd => by cases hd

/-- The end of `fread`, with what the driver has returned. -/
lemma IndexOk.ends_readDone (h : IndexOk k) {desc : FileDescriptor}
    (hget : fileGetDescriptor k fd = some desc) {read : ℤ × List UInt8 × FatOpenFile} {n : ℕ}
    (hlen : read.2.1.length ≤ n) :
    Ends (do
      updateKernel fun k => k.setPrivate fd desc read.2.2
      return (read.1, read.2.1) : KernelProg (ℤ × List UInt8)) k fun r k' =>
        OnlyIndex fd k k' ∧ r.2.length ≤ n := by
  refine ends_updateKernel_pure ⟨h.onlyIndex_update hget rfl fun d hd => ?_, hlen⟩
  cases hd
  rfl

lemma IndexOk.ends_fread (h : IndexOk k) (size : ℕ) :
    Ends (fread fd size) k fun r k' => OnlyIndex fd k k' ∧ r.2.length ≤ u32 size := by
  have hsame : OnlyIndex fd k k := h.onlyIndex rfl
  refine Ends.ite (fun _ => ends_pure ⟨hsame, Nat.zero_le _⟩) fun _ => ?_
  refine ends_getKernel_bind ?_
  rcases hget : fileGetDescriptor k fd with _ | desc
  · exact ends_pure ⟨hsame, Nat.zero_le _⟩
  simp only
  rcases k.disks desc.disk with _ | _ | mt
  · exact ends_stuck
  · exact ends_stuck
  · refine h.ends_readDone hget ((mt.length_fatRead desc.privateData size).trans ?_)
    rw [← u32_i32]
    exact FatKind.bytesRead_le (i32_i32 _)

lemma IndexOk.ends_fwrite (h : IndexOk k) (driverWrite : DriverWrite) (buf : ℕ) (size : ℤ) :
    Ends (fwrite driverWrite fd buf size) k fun _ k' => OnlyIndex fd k k' := by
  have hsame : OnlyIndex fd k k := h.onlyIndex rfl
  refine Ends.ite (fun _ => ends_pure hsame) fun _ => ends_getKernel_bind ?_
  rcases hget : fileGetDescriptor k fd with _ | desc
  · exact ends_pure hsame
  simp only
  rcases k.disks desc.disk with _ | _ | mt
  · exact ends_stuck
  · exact ends_stuck
  · intro r k' hrun
    obtain ⟨written, k₁, hwrite, hrun⟩ := bind_eq_some hrun
    obtain ⟨m, -, rfl⟩ := onMemory_eq_some hwrite
    obtain ⟨_, k₂, hupdate, hrun⟩ := bind_eq_some hrun
    cases hupdate
    cases pure_eq_some hrun
    exact h.onlyIndex_update hget rfl fun d hd => by cases hd; rfl

lemma IndexOk.ends_fseek (h : IndexOk k) (offset whence : ℕ) :
    Ends (fseek fd offset whence) k fun _ k' => OnlyIndex fd k k' := by
  refine ends_getKernel_bind ?_
  rcases hget : fileGetDescriptor k fd with _ | desc
  · exact ends_pure (h.onlyIndex rfl)
  · refine ends_updateKernel_pure (h.onlyIndex_update hget rfl fun d hd => ?_)
    cases hd
    rfl

lemma IndexOk.ends_ftell (h : IndexOk k) : Ends (ftell fd) k fun _ k' => OnlyIndex fd k k' := by
  have hsame : OnlyIndex fd k k := h.onlyIndex rfl
  refine Ends.ite (fun _ => ends_pure hsame) fun _ => ends_getKernel_bind ?_
  rcases fileGetDescriptor k fd with _ | desc
  · exact ends_pure hsame
  · exact ends_pure hsame

lemma IndexOk.ends_fstat (h : IndexOk k) : Ends (fstat fd) k fun _ k' => OnlyIndex fd k k' := by
  have hsame : OnlyIndex fd k k := h.onlyIndex rfl
  refine ends_getKernel_bind ?_
  rcases fileGetDescriptor k fd with _ | desc
  · exact ends_pure hsame
  · exact ends_pure hsame

/-! ## One command -/

/-- An entry of the `iob` holds what it held at the beginning, or it has been closed. -/
structure CommandInv (process : ℕ) (s₀ s : CommandState) : Prop extends
    FilesConfined process s₀ s where
  inside : process + processSize ≤ 2 ^ 32
  slots : ∀ j < nfile,
    s.file (iobAddress process + fileSize * j) = s₀.file (iobAddress process + fileSize * j) ∨
      s.file (iobAddress process + fileSize * j) = 0
  index_ok : IndexOk s.kernel

variable {directory : PagingChunk} {driverWrite : DriverWrite} {fp : ℕ}

lemma CommandStart.inv (h : CommandStart process s₀) : CommandInv process s₀ s₀ := by
  refine ⟨⟨fun fd hfd => ?_, fun _ _ => rfl⟩, h.inside, fun _ _ => Or.inl rfl, h.index_ok⟩
  rw [h.operated_nil] at hfd
  cases hfd

lemma ends_getCommand_bind {α : Type} {f : CommandState → CommandProg α}
    {Q : α → CommandState → Prop} (h : Ends (f s) s Q) : Ends (getCommand >>= f) s Q := h

lemma runs_getCommand_bind {α : Type} {f : CommandState → CommandProg α}
    {Q : α → CommandState → Prop} (h : Runs (f s) s Q) : Runs (getCommand >>= f) s Q := h

lemma ends_updateMemory_pure {α : Type} {f : Memory → Memory} {a : α}
    {Q : α → CommandState → Prop} (h : Q a { s with memory := f s.memory }) :
    Ends (do updateMemory f; return a : CommandProg α) s Q := by
  intro b s' hrun
  cases hrun
  exact h

lemma runs_fileCall {α : Type} {p : KernelProg α} {a : α} (h : p s.kernel = some (a, k)) :
    Runs (fileCall fd p) s fun _ s' => s'.kernel = k := by
  refine ⟨a, { s with
    kernel := k
    operated := if (fileGetDescriptor s.kernel fd).isSome then fd :: s.operated
      else s.operated }, ?_, rfl⟩
  rw [fileCall, h]
  rfl

/-- A call of the file layer with an entry of the `iob`. -/
lemma CommandInv.fileCall {α : Type} {p : KernelProg α} (h : CommandInv process s₀ s)
    (hslot : IobSlot process fp) {Q : α → Prop}
    (hp : Ends p s.kernel fun a k' => OnlyIndex (s.file fp) s.kernel k' ∧ Q a) :
    Ends (SerpaeOS.fileCall (s.file fp) p) s fun a s' => s'.memory = s.memory ∧ Q a ∧
      CommandInv process s₀ s' := by
  intro a s' hrun
  obtain ⟨⟨b, k⟩, hcall, heq⟩ := Option.map_eq_some_iff.mp hrun
  cases heq
  obtain ⟨honly, hQ⟩ := hp b k hcall
  obtain ⟨j, hj, rfl⟩ := hslot
  -- an index that resolves is one that the process had at the beginning
  have hown : ∀ desc, fileGetDescriptor s.kernel (s.file (iobAddress process + fileSize * j)) =
      some desc → s₀.Owns process (s.file (iobAddress process + fileSize * j)) := by
    intro desc hget
    have hpos := (slot_of_fileGetDescriptor hget).1
    exact ⟨j, hj, ((h.slots j hj).resolve_right hpos.ne').symm⟩
  refine ⟨rfl, hQ, ⟨fun fd hfd => ?_, fun i hi => ?_⟩, h.inside, h.slots, honly.index_ok⟩
  · simp only at hfd
    split_ifs at hfd with hsome
    · rcases List.mem_cons.mp hfd with heq | hfd
      · obtain ⟨desc, hget⟩ := Option.isSome_iff_exists.mp hsome
        rw [heq]
        exact hown desc hget
      · exact h.operated fd hfd
    · exact h.operated fd hfd
  · rw [← h.others i hi]
    rcases hget : fileGetDescriptor s.kernel (s.file (iobAddress process + fileSize * j)) with
      _ | desc
    · exact congrFun (honly.none_eq hget) i
    · refine honly.others i fun heq => hi ?_
      rw [heq]
      exact hown desc hget

/-- What is stored outside of the `iob`. -/
lemma CommandInv.write {l : List UInt8} {a : ℕ} (h : CommandInv process s₀ s)
    (hout : OutsideIob process a l.length) :
    CommandInv process s₀ { s with memory := s.memory.write a l } := by
  refine ⟨⟨h.operated, h.others⟩, h.inside, fun j hj => ?_, h.index_ok⟩
  rw [CommandState.file_write h.inside hj hout]
  exact h.slots j hj

/-- An entry is closed. -/
lemma CommandInv.clear (h : CommandInv process s₀ s) (hslot : IobSlot process fp) :
    CommandInv process s₀ { s with memory := s.memory.write fp (numberBytes fileSize 0) } := by
  obtain ⟨i, hi, rfl⟩ := hslot
  refine ⟨⟨h.operated, h.others⟩, h.inside, fun j hj => ?_, h.index_ok⟩
  by_cases hij : i = j
  · rw [← hij]
    exact Or.inr (CommandState.file_clear _)
  · rw [CommandState.file_clear_other hi hj hij]
    exact h.slots j hj

lemma OutsideIob.mono {a m n : ℕ} (h : OutsideIob process a n) (hle : m ≤ n) :
    OutsideIob process a m := fun i hi => h i (by omega)

lemma OutsideIob.add {a m n : ℕ} (h : OutsideIob process a n) (hle : m ≤ n) :
    OutsideIob process (a + m) (n - m) := by
  intro i hi
  rw [Nat.add_assoc]
  exact h (m + i) (by omega)

lemma CommandInv.writeStat {a : ℕ} (h : CommandInv process s₀ s)
    (hout : OutsideIob process a fileStatSize) (st : FileStat) :
    CommandInv process s₀ { s with memory := st.write s.memory a } := by
  have hfirst := h.write (l := numberBytes 4 st.flags ++ numberBytes 4 st.filesize ++
    [UInt8.ofNat st.creationDatetime.seconds, UInt8.ofNat st.creationDatetime.minutes,
      UInt8.ofNat st.creationDatetime.hours, UInt8.ofNat st.creationDatetime.day,
      UInt8.ofNat st.creationDatetime.month]) (hout.mono (by simp [fileStatSize]))
  refine hfirst.write ?_
  rw [length_numberBytes]
  exact hout.add (by decide)

/-- A command that passes the check or is rejected. -/
lemma CommandInv.checkFile (h : CommandInv process s₀ s) {command : CommandProg ℤ} {P : Prop}
    (hsound : FileRejected process fp ∨ P)
    (hcommand : P → Ends command s fun _ s' => CommandInv process s₀ s') :
    Ends (SerpaeOS.checkFile process fp command) s fun _ s' => CommandInv process s₀ s' := by
  refine Ends.ite (fun _ => ends_pure h) fun hpass => hcommand (hsound.resolve_left hpass)

lemma CommandInv.step (h : CommandInv process s₀ s) {command : FileCommand}
    (hc : CommandSound process directory command) :
    Ends (isr80hHandleCommand process directory driverWrite command) s fun _ s' =>
      CommandInv process s₀ s' := by
  have hk := h.index_ok
  cases command with
  | fclose fp =>
    refine ends_getCommand_bind ((h.fileCall (Q := fun _ => True) hc
      (hk.ends_fclose.mono fun _ _ hk => ⟨hk, trivial⟩)).bind fun _ t ht => ?_)
    exact ends_updateMemory_pure (ht.2.2.clear hc)
  | fread fp count out =>
    refine h.checkFile hc fun ⟨hslot, hout⟩ => ends_getCommand_bind ?_
    refine (h.fileCall hslot (hk.ends_fread count)).bind fun read t ht => ?_
    exact ends_updateMemory_pure (ht.2.2.write (hout.mono ht.2.1))
  | fwrite fp count buf =>
    refine h.checkFile hc fun hslot => ends_getCommand_bind ?_
    exact (h.fileCall (Q := fun _ => True) hslot
      ((hk.ends_fwrite _ _ _).mono fun _ _ hk => ⟨hk, trivial⟩)).mono fun _ _ ht => ht.2.2
  | fstat fp stat =>
    refine h.checkFile hc fun ⟨hslot, hout⟩ => ends_getCommand_bind ?_
    refine (h.fileCall (Q := fun _ => True) hslot
      (hk.ends_fstat.mono fun _ _ hk => ⟨hk, trivial⟩)).bind fun res t ht => ?_
    rcases res.2 with _ | st
    · exact ends_pure ht.2.2
    · exact ends_updateMemory_pure (ht.2.2.writeStat hout st)
  | ftell fp =>
    refine h.checkFile hc fun hslot => ends_getCommand_bind ?_
    exact (h.fileCall (Q := fun _ => True) hslot
      (hk.ends_ftell.mono fun _ _ hk => ⟨hk, trivial⟩)).mono fun _ _ ht => ht.2.2
  | fseek fp offset whence =>
    refine h.checkFile hc fun hslot => ends_getCommand_bind ?_
    exact (h.fileCall (Q := fun _ => True) hslot
      ((hk.ends_fseek _ _).mono fun _ _ hk => ⟨hk, trivial⟩)).mono fun _ _ ht => ht.2.2

/-- A command that the model describes, of a process whose files are entries of its `iob`. -/
structure CommandSafe (process : ℕ) (directory : PagingChunk) (kernelByte : ℕ → Bool)
    (s : CommandState) (command : FileCommand) : Prop where
  intact : s.kernel.Intact
  harmless : Harmless process directory kernelByte s command
  sound : CommandSound process directory command

/-- One file is open, and the first entry of the `iob` of a process holds it. -/
def sharedFile (process : ℕ) : CommandState where
  kernel := filledKernel 1
  memory := ⟨fun a => if a = iobAddress process then 1 else 0⟩
  operated := []

lemma sharedFile_start (p : ℕ) {q : ℕ} (hq : q + processSize ≤ 2 ^ 32) :
    CommandStart q (sharedFile p) := by
  refine ⟨hq, fun i desc hdesc => ?_, rfl⟩
  simp only [sharedFile, filledKernel] at hdesc
  split_ifs at hdesc
  cases hdesc
  rfl

/-- A page directory that maps every page to itself, and a driver that does not write. -/
def identityDirectory : PagingChunk := pagingNew4gb 5 lowTables

def readOnlyWrite : DriverWrite := fun mt f _ _ => return (-erdonly, f, mt)

/-- The kernel's program lies in front of the heap. -/
def belowHeap (a : ℕ) : Bool := a < heapAddress

/-- Asking for the position changes no structure. -/
lemma ends_isr80hCommand21Ftell : Ends (isr80hCommand21Ftell process fp) s
    fun _ s' => s'.kernel = s.kernel := by
  refine Ends.ite (fun _ => ends_pure rfl) fun _ => ends_getCommand_bind fun a s' hrun => ?_
  obtain ⟨⟨b, k⟩, hcall, heq⟩ := Option.map_eq_some_iff.mp hrun
  have hsame : Ends (ftell (s.file fp)) s.kernel fun _ k' => k' = s.kernel := by
    refine Ends.ite (fun _ => ends_pure rfl) fun _ => ends_getKernel_bind ?_
    rcases fileGetDescriptor s.kernel (s.file fp) with _ | desc
    · exact ends_pure rfl
    · exact ends_pure rfl
  cases heq
  exact hsame b k hcall

end SerpaeOS
