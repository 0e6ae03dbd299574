import SerpaeOS.Config
import SerpaeOS.Lib.Bytes

/-!
# The ELF loader

`elfloader.c`: the file is read into a block of the kernel heap, its header is validated
and the loadable program headers are inspected.  The header and the program headers are
read where they lie in memory, at 32-bit addresses.
-/

namespace SerpaeOS

open Bytes

/-- The physical memory, by address; addresses wrap at `2 ^ 32`. -/
structure Memory where
  byte : ℕ → UInt8

def Memory.at (mem : Memory) (a : ℕ) : UInt8 := mem.byte (a % 2 ^ 32)

def ptLoad : ℕ := 1
def pfW : ℕ := 0x02
def elfclassnone : ℕ := 0
def elfclass32 : ℕ := 1
def elfdatanone : ℕ := 0
def elfdata2lsb : ℕ := 1
def eiClass : ℕ := 4
def eiData : ℕ := 5

/-- The fields of `struct elf_header` that the loader reads. -/
structure ElfHeader where
  eIdent : ℕ → UInt8
  ePhoff : ℕ
  ePhnum : ℕ

/-- The header at a position. -/
def elfHeaderAt (b : ℕ → UInt8) (a : ℕ) : ElfHeader where
  eIdent i := b (a + i)
  ePhoff := u32le b (a + 28)
  ePhnum := u16le b (a + 44)

/-- The fields of `struct elf32_phdr` that the loader and the mapping read. -/
structure Elf32Phdr where
  pType : ℕ
  pOffset : ℕ
  pVaddr : ℕ
  pFilesz : ℕ
  pMemsz : ℕ
  pFlags : ℕ
deriving DecidableEq

/-- The size of `struct elf32_phdr`. -/
def phdrSize : ℕ := 32

/-- The program header at a position. -/
def elf32PhdrAt (b : ℕ → UInt8) (a : ℕ) : Elf32Phdr where
  pType := u32le b a
  pOffset := u32le b (a + 4)
  pVaddr := u32le b (a + 8)
  pFilesz := u32le b (a + 16)
  pMemsz := u32le b (a + 20)
  pFlags := u32le b (a + 24)

/-- `struct elf_file`. -/
structure ElfFile where
  elfMemory : ℕ
  virtualBaseAddress : ℕ
  virtualEndAddress : ℕ
  physicalBaseAddress : ℕ
  physicalEndAddress : ℕ

def elfSignature : List UInt8 := [0x7f, 0x45, 0x4c, 0x46]

def elfValidSignature (header : ElfHeader) : Bool :=
  (List.range elfSignature.length).map header.eIdent == elfSignature

def elfValidClass (header : ElfHeader) : Bool :=
  (header.eIdent eiClass).toNat == elfclassnone || (header.eIdent eiClass).toNat == elfclass32

def elfValidEncoding (header : ElfHeader) : Bool :=
  (header.eIdent eiData).toNat == elfdatanone || (header.eIdent eiData).toNat == elfdata2lsb

def elfHasProgramHeader (header : ElfHeader) : Bool := header.ePhoff != 0

/-- `elf_header`: the header of a loaded file. -/
def elfHeader (mem : Memory) (file : ElfFile) : ElfHeader := elfHeaderAt mem.at file.elfMemory

/-- `elf_pheader`: the address of the program header table. -/
def elfPheader (headerAddress : ℕ) (header : ElfHeader) : ℕ :=
  if header.ePhoff = 0 then 0 else (headerAddress + header.ePhoff) % 2 ^ 32

/-- `elf_program_header`, the program header with the given index. -/
def elfProgramHeader (mem : Memory) (file : ElfFile) (index : ℕ) : Elf32Phdr :=
  elf32PhdrAt mem.at (elfPheader file.elfMemory (elfHeader mem file) + index * phdrSize)

def elfValidateLoaded (header : ElfHeader) : ℤ :=
  if elfValidSignature header && elfValidClass header && elfValidEncoding header &&
    elfHasProgramHeader header then allOk
  else -einformat

def elfProcessPhdrPtLoad (file : ElfFile) (phdr : Elf32Phdr) : ℤ × ElfFile :=
  let file :=
    if phdr.pVaddr ≤ file.virtualBaseAddress ∨ file.virtualBaseAddress = 0 then
      { file with
        virtualBaseAddress := phdr.pVaddr
        physicalBaseAddress := (file.elfMemory + phdr.pOffset) % 2 ^ 32 }
    else file
  let endVirtualAddress := (phdr.pVaddr + phdr.pFilesz) % 2 ^ 32
  let file :=
    if file.virtualEndAddress ≤ endVirtualAddress ∨ file.virtualEndAddress = 0 then
      { file with
        virtualEndAddress := endVirtualAddress
        physicalEndAddress := (file.elfMemory + phdr.pOffset + phdr.pFilesz) % 2 ^ 32 }
    else file
  (0, file)

def elfProcessPheader (file : ElfFile) (phdr : Elf32Phdr) : ℤ × ElfFile :=
  if phdr.pType = ptLoad then elfProcessPhdrPtLoad file phdr else (0, file)

/-- The loop of `elf_process_pheaders` with `k` headers still to come. -/
def elfProcessPheadersLoop (mem : Memory) : ℕ → ℕ → ElfFile → ℤ × ElfFile
  | 0, _, file => (0, file)
  | k + 1, i, file =>
    let (res, file) := elfProcessPheader file (elfProgramHeader mem file i)
    if res < 0 then (res, file) else elfProcessPheadersLoop mem k (i + 1) file

def elfProcessPheaders (mem : Memory) (file : ElfFile) : ℤ × ElfFile :=
  elfProcessPheadersLoop mem (elfHeader mem file).ePhnum 0 file

/-- `elf_process_loaded`, which decides whether `elf_load` accepts the file it has read to
`elf_memory`. -/
def elfProcessLoaded (mem : Memory) (file : ElfFile) : ℤ × ElfFile :=
  let res := elfValidateLoaded (elfHeader mem file)
  if res < 0 then (res, file) else elfProcessPheaders mem file

/-! ## Files in memory -/

/-- The byte of a file at a position. -/
def fileByte (content : List UInt8) (i : ℕ) : UInt8 := content.getD i 0

/-- The file with the given content lies at an address. -/
def Loaded (mem : Memory) (address : ℕ) (content : List UInt8) : Prop :=
  ∀ i < content.length, mem.at (address + i) = fileByte content i

/-- The ELF header of a file. -/
def fileHeader (content : List UInt8) : ElfHeader := elfHeaderAt (fileByte content) 0

/-- A program header of a file. -/
def filePhdr (content : List UInt8) (i : ℕ) : Elf32Phdr :=
  elf32PhdrAt (fileByte content) ((fileHeader content).ePhoff + i * phdrSize)

/-- The ELF header and the table of program headers lie inside the file. -/
def TableInside (content : List UInt8) : Prop :=
  52 ≤ content.length ∧
    (fileHeader content).ePhoff + (fileHeader content).ePhnum * phdrSize ≤ content.length

lemma elfProcessPheader_elfMemory (file : ElfFile) (phdr : Elf32Phdr) :
    (elfProcessPheader file phdr).2.elfMemory = file.elfMemory := by
  rw [elfProcessPheader]
  by_cases hload : phdr.pType = ptLoad
  · rw [if_pos hload, elfProcessPhdrPtLoad]
    simp only
    split_ifs <;> rfl
  · rw [if_neg hload]

/-- No step of the loader changes the address of the image. -/
lemma elfProcessPheadersLoop_elfMemory (mem : Memory) :
    ∀ (k i : ℕ) (file : ElfFile),
      (elfProcessPheadersLoop mem k i file).2.elfMemory = file.elfMemory := by
  intro k
  induction k with
  | zero => exact fun i file => rfl
  | succ k ih =>
    intro i file
    have hstep := elfProcessPheader_elfMemory file (elfProgramHeader mem file i)
    rw [elfProcessPheadersLoop]
    simp only
    by_cases hres : (elfProcessPheader file (elfProgramHeader mem file i)).1 < 0
    · rw [if_pos hres]
      exact hstep
    · rw [if_neg hres, ih, hstep]

/-- An accepted file has a program header table, and its image stays where it was read. -/
lemma elfProcessLoaded_ok {mem : Memory} {file file' : ElfFile}
    (h : elfProcessLoaded mem file = (0, file')) :
    (elfHeader mem file).ePhoff ≠ 0 ∧ file'.elfMemory = file.elfMemory := by
  rw [elfProcessLoaded] at h
  by_cases hvalid : elfValidSignature (elfHeader mem file) && elfValidClass (elfHeader mem file) &&
      elfValidEncoding (elfHeader mem file) && elfHasProgramHeader (elfHeader mem file)
  · simp only [elfValidateLoaded, if_pos hvalid, allOk, lt_irrefl, if_false] at h
    refine ⟨?_, ?_⟩
    · have := (Bool.and_eq_true_iff.mp hvalid).2
      simpa [elfHasProgramHeader] using this
    · have := elfProcessPheadersLoop_elfMemory mem (elfHeader mem file).ePhnum 0 file
      rw [elfProcessPheaders] at h
      rw [h] at this
      exact this
  · simp only [elfValidateLoaded, if_neg hvalid] at h
    exact absurd (congrArg Prod.fst h) (by simp [einformat])

section InMemory

variable {mem : Memory} {file : ElfFile} {content : List UInt8}
  (hload : Loaded mem file.elfMemory content)

include hload

/-- The header in memory is the header of the file. -/
lemma elfHeader_eq (hlen : 52 ≤ content.length) :
    (elfHeader mem file).ePhoff = (fileHeader content).ePhoff ∧
      (elfHeader mem file).ePhnum = (fileHeader content).ePhnum := by
  constructor
  · refine u32le_congr fun i hi => ?_
    rw [Nat.zero_add, Nat.add_assoc]
    exact hload (28 + i) (by omega)
  · refine u16le_congr fun i hi => ?_
    rw [Nat.zero_add, Nat.add_assoc]
    exact hload (44 + i) (by omega)

/-- The program headers in memory are those of the file. -/
lemma elfProgramHeader_eq (htable : TableInside content)
    (hoff : (elfHeader mem file).ePhoff ≠ 0) {i : ℕ} (hi : i < (fileHeader content).ePhnum) :
    elfProgramHeader mem file i = filePhdr content i := by
  obtain ⟨hlen, hend⟩ := htable
  have heq := (elfHeader_eq hload hlen).1
  rw [elfProgramHeader, elfPheader, if_neg hoff, heq, filePhdr]
  have hword : ∀ n, n + 4 ≤ 32 →
      u32le mem.at ((file.elfMemory + (fileHeader content).ePhoff) % 2 ^ 32 + i * phdrSize + n) =
        u32le (fileByte content) ((fileHeader content).ePhoff + i * phdrSize + n) := by
    intro n hn
    refine u32le_congr fun j hj => ?_
    have hpos : (fileHeader content).ePhoff + i * phdrSize + n + j < content.length := by
      simp only [phdrSize] at *
      omega
    rw [← hload _ hpos, Memory.at, Memory.at]
    congr 1
    omega
  simp only [elf32PhdrAt, Elf32Phdr.mk.injEq]
  exact ⟨hword 0 (by omega), hword 4 (by omega), hword 8 (by omega), hword 16 (by omega),
    hword 20 (by omega), hword 24 (by omega)⟩

end InMemory

end SerpaeOS
