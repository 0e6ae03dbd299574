import SerpaeOS.Fs.FileReads
import SerpaeOS.Task.Isolation
import SerpaeOS.Task.Repaint

/-!
# Programs that are loaded

With a free slot, room in the heap and an image that can be mapped, `process_load` succeeds, and
so do the calls of `process_malloc` for the new process.
-/

namespace SerpaeOS

open BlockTable Bytes Word Prog TaskList

variable {s s' : System} {m : KMemory} {process p : Ptr} {filename : List UInt8} {now slot : ℕ}
  {L : List Extent} {n N b size : ℕ} {mt : FatMount} {item : FatDirectoryItem}
  {content : List UInt8} {α : Type}

/-! ## Taking blocks -/

lemma runs_kzallocCall_bind {k : Ptr → SystemProg α} {Q : α → System → Prop}
    (h : Holds s.kernel.memory [] n) (hpos : 0 < size) (hroom : blocksFor size ≤ n)
    (hk : ∀ c m, c + blocksFor size ≤ kernelBlocks → Holds m [] (n - blocksFor size) →
      Runs (k (blockAddress c)) (s.withMemory m) Q) : Runs (kzallocCall size >>= k) s Q := by
  refine (runs_onKernel (runs_onMemory (h.allocate size hpos hroom))).bind fun p t ht => ?_
  obtain ⟨_, ⟨m, ⟨hp, hm⟩, rfl⟩, rfl⟩ := ht
  have hin := hm.inside List.mem_cons_self
  rw [hp]
  exact hk _ m hin hm.tail

lemma runs_newTables (count : ℕ) : ∀ {m : KMemory} {n : ℕ}, Holds m [] n → count ≤ n →
    Runs (newTables count) m fun _ m' => Holds m' [] (n - count) := by
  have hone : blocksFor 4096 = 1 := by decide
  induction count with
  | zero => exact fun h _ => runs_pure h
  | succ count ih =>
    intro m n h hle
    refine (h.allocate 4096 (by decide) (by omega)).bind fun entry m₁ hentry => ?_
    rw [if_neg hentry.1.ne_zero]
    rw [hone] at hentry
    refine (ih hentry.2.tail (by omega)).bind fun entries m₂ hm₂ => runs_pure ?_
    exact hm₂.mono (by omega)

/-- The number of blocks of a page directory. -/
def directoryBlocks : ℕ := pagingTotalEntriesPerTable + 2

lemma runs_pagingNewBlocks (h : Holds m [] n) (hroom : directoryBlocks ≤ n) :
    Runs pagingNewBlocks m fun _ m' => Holds m' [] (n - directoryBlocks) := by
  have hone : blocksFor 4096 = 1 := by decide
  have hchunk : blocksFor pagingChunkSize = 1 := by decide
  rw [directoryBlocks] at hroom ⊢
  refine (h.allocate 4096 (by decide) (by omega)).bind fun directory m₁ hdirectory => ?_
  rw [if_neg hdirectory.1.ne_zero]
  rw [hone] at hdirectory
  refine (runs_newTables _ hdirectory.2.tail (by omega)).bind fun tables m₂ hm₂ => ?_
  refine (hm₂.allocate pagingChunkSize (by decide) (by omega)).bind fun chunk m₃ hm₃ => ?_
  rw [if_neg hm₃.1.ne_zero]
  rw [hchunk] at hm₃
  exact runs_pure (hm₃.2.tail.mono (by omega))

/-! ## Images without segments -/

/-- An ELF file that is accepted and has no program headers. -/
structure BareImage (content : List UInt8) : Prop where
  length_le : 52 ≤ content.length
  accepted : elfValidateLoaded (fileHeader content) = 0
  phnum_eq : (fileHeader content).ePhnum = 0

lemma elfValidateLoaded_elfHeader {mem : Memory} {file : ElfFile}
    (h : Loaded mem file.elfMemory content) (hlen : 52 ≤ content.length) :
    elfValidateLoaded (elfHeader mem file) = elfValidateLoaded (fileHeader content) := by
  have hoff := (elfHeader_eq h hlen).1
  have hident : ∀ i < 52, (elfHeader mem file).eIdent i = (fileHeader content).eIdent i := by
    intro i hi
    refine (h i (by omega)).trans ?_
    exact (congrArg (fileByte content) (Nat.zero_add i)).symm
  have hsignature : elfValidSignature (elfHeader mem file) =
      elfValidSignature (fileHeader content) := by
    rw [elfValidSignature, elfValidSignature]
    refine congrArg (· == elfSignature) (List.map_congr_left fun i hi => hident i ?_)
    exact (List.mem_range.mp hi).trans (by decide)
  rw [elfValidateLoaded, elfValidateLoaded, hsignature, elfValidClass, elfValidClass,
    elfValidEncoding, elfValidEncoding, elfHasProgramHeader, elfHasProgramHeader, hoff,
    hident eiClass (by decide), hident eiData (by decide)]

/-- Where it is read to, the image is accepted, and nothing of it is mapped. -/
lemma BareImage.loaded {mem : Memory} {file : ElfFile} (h : BareImage content)
    (hload : Loaded mem file.elfMemory content) :
    elfProcessLoaded mem file = (0, file) ∧ processMapElfResult mem file = 0 := by
  have hnum := (elfHeader_eq hload h.length_le).2.trans h.phnum_eq
  constructor
  · rw [elfProcessLoaded, elfValidateLoaded_elfHeader hload h.length_le, h.accepted,
      if_neg (lt_irrefl 0), elfProcessPheaders, hnum]
    rfl
  · rw [processMapElfResult, processMapElf, hnum]
    rfl

/-- A block of the heap that a file is read to holds the file. -/
lemma loaded_store {mem : Memory} {c : ℕ} (hc : c + blocksFor content.length ≤ kernelBlocks) :
    Loaded ⟨store mem.byte (blockAddress c) content⟩ (blockAddress c) content := by
  intro i hi
  have hend : blockAddress c + i < 2 ^ 32 := by
    simp only [blockAddress, heapAddress, heapBlockSize, kernelBlocks, blocksFor] at *
    omega
  rw [Memory.at, Nat.mod_eq_of_lt hend]
  exact store_add hi

/-- The file is read to its end, and is such an image. -/
structure BareFile (mt : FatMount) (item : FatDirectoryItem) (content : List UInt8) : Prop where
  read_eq : mt.kind.readFrom mt.volume mt.disk item.firstClusterInt 0 (i32 item.filesize) =
    (0, content)
  length_eq : content.length = item.filesize
  image : BareImage content

/-! ## Loading an image -/

/-- The image of the open file is loaded. -/
lemma OpenProgram.runs_elfLoadFrom {fd : ℤ} {elfFile : Ptr}
    (h : OpenProgram s.kernel fd mt item n) (hfile : BareFile mt item content) (helf : elfFile ≠ 0)
    (hroom : blocksFor item.filesize ≤ n) :
    Runs (elfLoadFrom elfFile fd) s fun r s' => r = (0, elfFile) ∧
      HoldsFile s'.kernel fd item.filesize [] (n - blocksFor item.filesize) ∧
      (∃ desc, fileGetDescriptor s'.kernel fd = some desc) ∧ s'.process = s.process ∧
      processMapElfResult s'.memory (s'.elfFile elfFile) = 0 := by
  have hlen := hfile.image.length_le
  rw [hfile.length_eq] at hlen
  refine (runs_onKernel h.fstat).bind fun stat t ht => ?_
  obtain ⟨_, ⟨rfl, st, hst, hsize⟩, rfl⟩ := ht
  rw [hst]
  simp only [if_neg helf, hsize]
  refine (runs_onKernel (h.allocate (by omega) hroom)).bind fun elfMemory t ht => ?_
  obtain ⟨k, ⟨⟨c, rfl, hc⟩, hopen⟩, rfl⟩ := ht
  refine (runs_onKernel (s := { s with kernel := k })
    (hopen.fread (by omega) hfile.read_eq)).bind fun read t ht => ?_
  obtain ⟨k', ⟨rfl, hheld, hdesc⟩, rfl⟩ := ht
  rw [if_neg fun hnull => blockAddress_ne_zero c hnull.1]
  refine runs_updateSystem_bind ?_
  rw [if_neg (lt_irrefl 0)]
  refine runs_getSystem_bind (runs_updateSystem_bind ?_)
  rw [← hfile.length_eq] at hc
  have hstored : Loaded ⟨store s.memory.byte (blockAddress c) content⟩
      (⟨blockAddress c, 0, 0, 0, 0⟩ : ElfFile).elfMemory content := loaded_store hc
  obtain ⟨hloaded, hmap⟩ := hfile.image.loaded hstored
  simp only [Function.update_self, hloaded]
  rw [if_neg (lt_irrefl 0)]
  refine runs_pure ⟨rfl, hheld, hdesc, rfl, ?_⟩
  simp only [Function.update_self]
  exact hmap

/-- The number of blocks for the `elf_file`, the path, the image and the closing of the file. -/
def imageBlocks (filename : List UInt8) (b size : ℕ) : ℕ :=
  blocksFor elfFileSize + fopenBlocks filename b + blocksFor size + 1

lemma runs_elfLoad (h : ProgramReady s.kernel filename mt item b n)
    (hfile : BareFile mt item content) (hroom : imageBlocks filename b item.filesize ≤ n) :
    Runs (elfLoad filename now) s fun r s' => r.1 = 0 ∧
      Holds s'.kernel.memory [] (n - imageBlocks filename b item.filesize) ∧
      s'.process = s.process ∧ processMapElfResult s'.memory (s'.elfFile r.2) = 0 := by
  rw [imageBlocks] at hroom ⊢
  refine (runs_onKernel (h.allocate (by decide) (by omega))).bind fun elfFile t ht => ?_
  obtain ⟨k, ⟨⟨c, rfl, -⟩, hready⟩, rfl⟩ := ht
  refine (runs_onKernel (s := { s with kernel := k }) hready.fopen).bind fun fd t ht => ?_
  obtain ⟨k', hopen, rfl⟩ := ht
  rw [if_neg (not_le.mpr hopen.holds.pos)]
  refine (OpenProgram.runs_elfLoadFrom (s := { s with kernel := k' }) hopen hfile
    (blockAddress_ne_zero c) (by omega)).bind fun r t ht => ?_
  obtain ⟨rfl, hheld, hdesc, hprocess, hmap⟩ := ht
  refine (runs_onKernel (hheld.runs_fclose hdesc (by omega))).bind fun _ t' ht' => ?_
  obtain ⟨k'', hclosed, rfl⟩ := ht'
  exact runs_pure ⟨rfl, hclosed.mono (by omega), hprocess, hmap⟩

/-! ## Starting a program -/

/-- The number of blocks that are taken after the program data is loaded: the stack, the task, its
page directory and the screen. -/
def startBlocks : ℕ :=
  blocksFor userProgramStackSize + blocksFor taskSize + directoryBlocks + blocksFor screenSize

/-- A new task; the structures of the processes and the images stay. -/
lemma runs_taskNewCall (h : Holds s.kernel.memory [] n)
    (hroom : blocksFor taskSize + directoryBlocks ≤ n) :
    Runs (taskNewCall process) s fun _ s' =>
      Holds s'.kernel.memory [] (n - (blocksFor taskSize + directoryBlocks)) ∧
      s'.process = s.process ∧ s'.memory = s.memory ∧ s'.elfFile = s.elfFile := by
  refine runs_kzallocCall_bind h (by decide) (by omega) fun c m _ hm => ?_
  rw [if_neg (blockAddress_ne_zero c)]
  refine (runs_onKernel (s := s.withMemory m) (runs_onMemory
    (runs_pagingNewBlocks hm (by omega)))).bind fun r t ht => ?_
  obtain ⟨_, ⟨m', hm', rfl⟩, rfl⟩ := ht
  rw [Nat.sub_sub] at hm'
  exact ⟨_, _, rfl, hm', rfl, rfl, rfl⟩

/-- The part of a load after the program data starts an image that can be mapped. -/
lemma runs_processStart (h : Holds s.kernel.memory [] n) (hroom : startBlocks ≤ n)
    (htype : (s.process process).filetype = .elf)
    (hmap : processMapElfResult s.memory (s.elfFile (s.process process).data) = 0) :
    Runs (processStart process slot 0) s fun r s' => r = (0, process) ∧
      Holds s'.kernel.memory [] (n - startBlocks) ∧
      (s'.process process).allocations = (s.process process).allocations := by
  have hscreen : blocksFor screenSize = 1 := by decide
  rw [startBlocks] at hroom ⊢
  refine runs_kzallocCall_bind h (by decide) (by omega) fun c m _ hm => ?_
  rw [if_neg (blockAddress_ne_zero c)]
  refine runs_updateSystem_bind ?_
  refine (runs_taskNewCall (s := (s.withMemory m).setProcess process fun q =>
    { q with stack := blockAddress c, id := slot }) hm (by omega)).bind fun task t ht => ?_
  obtain ⟨hm', hprocess, hmemory, helf⟩ := ht
  refine runs_updateSystem_bind ?_
  -- nothing of the image has changed since it was loaded
  have hfields : ∃ f : Process, f.filetype = .elf ∧ f.data = (s.process process).data ∧
      f.allocations = (s.process process).allocations ∧
      (t.setProcess process fun q => { q with task := task }).process process = f := by
    refine ⟨_, ?_, ?_, ?_, Function.update_self _ _ _⟩
    all_goals rw [hprocess, System.setProcess_process, Function.update_self]
    · exact htype
    · rfl
    · rfl
  obtain ⟨f, hftype, hfdata, hfalloc, hf⟩ := hfields
  have hkernel : (t.setProcess process fun q => { q with task := task }).kernel = t.kernel := rfl
  have hmem : (t.setProcess process fun q => { q with task := task }).memory = s.memory := hmemory
  have helfFile : (t.setProcess process fun q => { q with task := task }).elfFile = s.elfFile :=
    helf
  generalize t.setProcess process (fun q => { q with task := task }) = t at *
  refine Runs.bind (P := fun r t' => r = 0 ∧ t' = t) (runs_getSystem_bind ?_) ?_
  · rw [hf, hftype]
    refine runs_pure ⟨?_, rfl⟩
    rw [hfdata, hmem, helfFile]
    exact hmap
  rintro _ _ ⟨rfl, rfl⟩
  rw [if_neg (lt_irrefl 0)]
  refine Runs.bind (P := fun _ t' => Holds t'.kernel.memory [] (n - startBlocks) ∧
    (t'.process process).allocations = f.allocations) ?_ fun _ t' ht' => ?_
  · refine runs_updateSystem_bind ?_
    rw [if_neg (not_not.mpr rfl)]
    refine runs_kzallocCall_bind (hkernel ▸ hm') ?_ ?_ fun c m _ hm => ?_
    · decide
    · omega
    refine ⟨_, _, rfl, hm.mono (by rw [startBlocks]; omega), ?_⟩
    simp [hf]
  · refine runs_updateSystem_bind (runs_pure ⟨rfl, ht'.1, ?_⟩)
    rw [← hfalloc]
    exact ht'.2

/-! ## The whole load -/

/-- The number of blocks for a program of `size` bytes. -/
def programBlocks (filename : List UInt8) (b size : ℕ) : ℕ :=
  blocksFor processSize + imageBlocks filename b size + startBlocks

/-- The image of the program becomes the data of the process. -/
lemma runs_processLoadData (h : ProgramReady s.kernel filename mt item b n)
    (hfile : BareFile mt item content) (hroom : imageBlocks filename b item.filesize ≤ n) :
    Runs (processLoadData filename now process) s fun r s' => r = 0 ∧
      Holds s'.kernel.memory [] (n - imageBlocks filename b item.filesize) ∧
      (s'.process process).filetype = .elf ∧
      (s'.process process).allocations = (s.process process).allocations ∧
      processMapElfResult s'.memory (s'.elfFile (s'.process process).data) = 0 := by
  refine Runs.bind (P := fun r s' => r = 0 ∧
      Holds s'.kernel.memory [] (n - imageBlocks filename b item.filesize) ∧
      (s'.process process).filetype = .elf ∧
      (s'.process process).allocations = (s.process process).allocations ∧
      processMapElfResult s'.memory (s'.elfFile (s'.process process).data) = 0) ?_ ?_
  · refine (runs_elfLoad h hfile hroom).bind fun loaded t ht => ?_
    obtain ⟨hres, hheld, hprocess, hmap⟩ := ht
    rw [hres, if_neg (lt_irrefl 0)]
    refine runs_updateSystem_bind (runs_pure ⟨rfl, hheld, ?_⟩)
    rw [System.setProcess_process, Function.update_self]
    exact ⟨rfl, congrArg (fun g => (g process).allocations) hprocess, hmap⟩
  · rintro _ t ⟨rfl, ht⟩
    rw [if_neg (by decide)]
    exact runs_pure ⟨rfl, ht⟩

/-- With a free slot and room in the heap the program is loaded, and nothing is allocated for it
yet. -/
lemma runs_processLoad (h : ProgramReady s.kernel filename mt item b n)
    (hfile : BareFile mt item content) (hroom : programBlocks filename b item.filesize ≤ n)
    (hslot : processGetFreeSlot s = some slot) :
    Runs (processLoad filename now 0) s fun r s' => r.1 = 0 ∧
      Holds s'.kernel.memory [] (n - programBlocks filename b item.filesize) ∧
      ∀ i, ((s'.process r.2).allocations i).ptr = 0 := by
  have hfree : s.processes slot = 0 :=
    of_decide_eq_true (List.find?_eq_some_iff_append.mp hslot).1
  have hfits : fopenBlocks filename b ≤ imageBlocks filename b item.filesize := by
    rw [imageBlocks]
    omega
  rw [programBlocks] at hroom ⊢
  refine runs_getSystem_bind ?_
  rw [hslot]
  refine runs_getSystem_bind ?_
  rw [if_neg fun htaken => htaken.2 hfree]
  refine (runs_onKernel (h.allocate (by decide) (by omega))).bind fun process t ht => ?_
  obtain ⟨k, ⟨⟨c, rfl, -⟩, hready⟩, rfl⟩ := ht
  rw [if_neg (blockAddress_ne_zero c)]
  refine runs_updateSystem_bind ?_
  refine (runs_processLoadData (s := System.setProcess { s with kernel := k } (blockAddress c)
    fun _ => .zero) hready hfile (by omega)).bind fun res t ht => ?_
  obtain ⟨rfl, hheld, htype, halloc, hmap⟩ := ht
  rw [if_neg (lt_irrefl 0)]
  refine (runs_processStart hheld (by omega) htype hmap).mono fun r s' hr => ?_
  obtain ⟨rfl, hheld', halloc'⟩ := hr
  refine ⟨rfl, hheld'.mono (by omega), fun i => ?_⟩
  rw [halloc', halloc, System.setProcess_process, Function.update_self]
  rfl

/-- A load that succeeds switches to the process. -/
lemma runs_processLoadSwitch {hosting : Ptr} {r : ℤ × Ptr} {t : System}
    (hload : processLoad filename now hosting s = some (r, t)) (hzero : r.1 = 0) :
    Runs (processLoadSwitch filename now hosting) s fun r' _ => r' = r := by
  refine Runs.bind (P := fun r' _ => r' = r) ⟨r, t, hload, rfl⟩ fun r' t' hr => ?_
  subst hr
  rw [if_pos hzero]
  exact runs_processSwitch_bind (runs_updateSystem_bind (runs_pure rfl))

/-- A program in the first location is found. -/
lemma runs_loadCandidates {P T : Ptr → Prop} {program : List UInt8}
    (hname : commandPath program (commandLocations.headD []) = filename)
    (hsafe : LoadsSafe P T (commandLocations.map (commandPath program)) s)
    (hcurrent : P s.currentProcess) (h : ProgramReady s.kernel filename mt item b n)
    (hfile : BareFile mt item content) (hroom : programBlocks filename b item.filesize ≤ n)
    (hslot : processGetFreeSlot s = some slot) :
    Runs (loadCandidates false program now) s fun r s' => ∃ process, r = some process ∧
      Holds s'.kernel.memory [] (n - programBlocks filename b item.filesize) ∧
      ∀ i, ((s'.process process).allocations i).ptr = 0 := by
  have hloads : Runs (processLoad filename now 0) s _ := runs_processLoad h hfile hroom hslot
  obtain ⟨r, t, hload, hzero, hheld, halloc⟩ := hloads
  obtain ⟨r', s', hrun, rfl⟩ := runs_processLoadSwitch hload hzero
  have hmem : filename ∈ commandLocations.map (commandPath program) :=
    hname ▸ List.mem_map_of_mem List.mem_cons_self
  obtain ⟨t', hload', ⟨hneg, -⟩ | ⟨-, hpaint, -⟩⟩ :=
    hsafe.ends_processLoadSwitch hmem (Or.inl rfl) hcurrent r' s' hrun
  · omega
  obtain ⟨-, rfl⟩ := Prod.mk.inj (Option.some.inj (hload.symm.trans hload'))
  refine Runs.bind (P := fun host u => host = 0 ∧ u = s) (runs_pure ⟨rfl, rfl⟩) ?_
  rintro _ _ ⟨rfl, rfl⟩
  refine Runs.bind (P := fun r u => r = r' ∧ u = s') ?_ ?_
  · change Runs (processLoadSwitch (commandPath program (commandLocations.headD [])) now 0) _ _
    rw [hname]
    exact ⟨r', s', hrun, rfl, rfl⟩
  · rintro _ _ ⟨rfl, rfl⟩
    rw [if_neg (not_not.mpr hzero)]
    refine runs_pure ⟨_, rfl, ?_, fun i => ?_⟩
    · rw [hpaint.memory_eq]
      exact hheld
    · rw [hpaint.process_eq _ (Or.inl ⟨rfl, Or.inl rfl⟩)]
      exact halloc i

/-! ## Blocks for a process -/

/-- A block of the heap is mapped. -/
lemma processMallocResult_eq {c : ℕ} (hpos : 0 < size) (hc : c + blocksFor size ≤ kernelBlocks) :
    processMallocResult (blockAddress c) size = 0 := by
  have hpool : InPool ⟨blockAddress c, size⟩ := ⟨hpos, c, rfl, hc⟩
  obtain ⟨directory, hmap, -⟩ := hpool.pagingMapTo (pagingNew4gb 5 lowTables) userPageFlags
  rw [processMallocResult, hmap]

/-- While `process_malloc` has an entry left in the table of the process, it returns the block
that it takes. -/
lemma runs_processMallocCall {P : Kernel → Prop} {used : ℕ}
    (h : Runs (onMemory (allocate size)) s.kernel fun p k =>
      (∃ c, p = blockAddress c ∧ c + blocksFor size ≤ kernelBlocks) ∧ P k) (hpos : 0 < size)
    (hused : used < maxProgramAllocations)
    (hfree : ∀ i, used ≤ i → ((s.process process).allocations i).ptr = 0) :
    Runs (processMallocCall process size) s fun p s' => p ≠ 0 ∧ P s'.kernel ∧
      s'.processes = s.processes ∧
      ∀ i, used + 1 ≤ i → ((s'.process process).allocations i).ptr = 0 := by
  refine (runs_onKernel h).bind fun p t ht => ?_
  obtain ⟨k, ⟨⟨c, rfl, hc⟩, hk⟩, rfl⟩ := ht
  rw [if_neg (blockAddress_ne_zero c)]
  refine runs_getSystem_bind ?_
  cases hfind : (List.range maxProgramAllocations).find? fun i =>
      ((s.process process).allocations i).ptr = 0 with
  | none =>
    have hnone := List.find?_eq_none.mp hfind used (List.mem_range.mpr hused)
    exact absurd (decide_eq_true (hfree used le_rfl)) hnone
  | some index =>
    have hindex : index ≤ used := by
      by_contra hlt
      have hfirst := (List.find?_range_eq_some.mp hfind).2.2 used (by omega)
      simp [hfree used le_rfl] at hfirst
    simp only
    rw [processMallocResult_eq hpos hc, if_neg (lt_irrefl 0)]
    refine runs_updateSystem_bind (runs_pure ⟨blockAddress_ne_zero c, hk, rfl, fun i hi => ?_⟩)
    simp only [System.setProcess_process, Function.update_self]
    rw [Function.update_of_ne (by omega)]
    exact hfree i (by omega)

/-! ## A small volume with a program -/

/-- An item with a short name, attributes, a first cluster and a size. -/
def shortItem (name : List UInt8) (attributes cluster size : UInt8) : FatDirectoryItem :=
  ⟨fun i => if i < 11 then name.getD i 0x20 else if i = 11 then attributes
    else if i = 26 then cluster else if i = 28 then size else 0⟩

/-- The header of a 32-bit little-endian file, with a program header table that is empty. -/
def bareImage : List UInt8 :=
  elfSignature ++ [1, 1] ++ List.replicate 22 0 ++ [52] ++ List.replicate 23 0

/-- A file `Y` of one byte, whose first cluster has the number `0xFFFFFFF8`. -/
def strangeItem : FatDirectoryItem :=
  ⟨fun i => if i = 20 ∨ i = 21 ∨ i = 27 then 0xFF else (shortItem [0x59] 0 0xF8 1).raw i⟩

/-- The items in cluster 2: the directory `BIN`, which is this one, and the files `X` and `Y`. -/
def sysItems (i : ℕ) : FatDirectoryItem :=
  if i = 0 then shortItem [0x42, 0x49, 0x4E] 0x10 2 0
  else if i = 1 then shortItem [0x58] 0 3 52
  else if i = 2 then strangeItem
  else ⟨fun _ => 0⟩

/-- A device that writes nothing, with these items in cluster 2 and the image in cluster 3. -/
def sysDisk : Disk where
  byte a :=
    if a < 2048 then (sysItems ((a - 1536) / itemSize)).raw ((a - 1536) % itemSize)
    else bareImage.getD (a - 2048) 0
  readFault _ := false
  writeFault _ := true
  stale _ := 0

/-- A volume whose root directory has the directory `SYS` in cluster 2. -/
def sysVolume : FatMount :=
  { mountedVolume 1 with
    disk := sysDisk
    root := ⟨fun _ => shortItem [0x53, 0x59, 0x53] 0x10 2 0, 1, 2⟩ }

/-- The path `0:/sys/bin/` with one more character. -/
def pathSysBin (c : UInt8) : List UInt8 :=
  [0x30, 0x3A, 0x2F, 0x73, 0x79, 0x73, 0x2F, 0x62, 0x69, 0x6E, 0x2F, c]

/-- The path `0:/sys/bin/x`. -/
def pathSysBinX : List UInt8 := pathSysBin 0x78

lemma bareImage_bare : BareImage bareImage := ⟨by decide, by decide, by decide⟩

/-- The directory in cluster 2. -/
def sysDirectory : FatDirectory := ⟨itemsOf (slice sysDisk.byte 1536 96), 3, 3⟩

lemma sysVolume_load (hsub : item.attributeBits &&& fatFileSubdirectory ≠ 0)
    (hcluster : item.firstClusterInt = (2 : ℕ)) :
    sysVolume.kind.loadFatDirectory sysVolume.volume sysVolume.disk item =
      some (.ok sysDirectory) := by
  have hat : EntriesAt sysDisk (3 * smallVolume.sectorSize) sysItems 3 := by
    intro i hi
    interval_cases i
    · decide
    · decide
    · decide
    · rfl
  have hterm : Terminated sysItems 3 := by
    refine ⟨fun i hi => ?_, rfl⟩
    interval_cases i
    · decide
    · decide
    · decide
  have hsector : fat16.clusterToSector smallVolume (2 : ℕ) = (3 : ℕ) := by decide
  have hreadable : ∀ lba, sysDisk.readFault lba = false := fun _ => rfl
  exact FatKind.loadFatDirectory_within hreadable hsub hcluster hsector (by decide) hat hterm
    (by decide)

lemma sysFile_find : sysVolume.kind.findItemInDirectory sysDirectory [0x78] =
    some (sysDirectory.item 1) := by
  rfl

lemma sysDirectory_find : sysVolume.kind.findItemInDirectory sysDirectory [0x62, 0x69, 0x6E] =
    some (sysDirectory.item 0) := by
  rfl

lemma sysRoot_find : sysVolume.kind.findItemInDirectory sysVolume.root [0x73, 0x79, 0x73] =
    some (shortItem [0x53, 0x59, 0x53] 0x10 2 0) := by
  rfl

/-- The path leads to a file of the directory. -/
structure SysFile (filename : List UInt8) (item : FatDirectoryItem) : Prop where
  no_nul : (0 : UInt8) ∉ filename
  accepted : PathAccepted filename
  length_eq : filename.length = 12
  below : 2 ≤ (namesOf filename).length
  found : FileAt sysVolume sysVolume.root (namesOf filename) item 8

/-- The path with the character leads to the file with this name. -/
lemma sysFile_of {c : UInt8}
    (hfind : sysVolume.kind.findItemInDirectory sysDirectory [c] = some item)
    (hitem : item.attributeBits &&& fatFileSubdirectory = 0) (hnul : 0 ∉ pathSysBin c)
    (haccepted : PathAccepted (pathSysBin c))
    (hnames : namesOf (pathSysBin c) = [[0x73, 0x79, 0x73], [0x62, 0x69, 0x6E], [c]]) :
    SysFile (pathSysBin c) item := by
  have hfile : FileAt sysVolume sysDirectory [[c]] item 2 := .file hfind (not_not.mpr hitem)
  have hbin : FileAt sysVolume sysDirectory [[0x62, 0x69, 0x6E], [c]] item 5 :=
    .sub sysDirectory_find (by decide) (sysVolume_load (by decide) (by decide)) hfile
  refine ⟨hnul, haccepted, rfl, ?_, ?_⟩
  · rw [hnames]
    exact Nat.le_succ 2
  · rw [hnames]
    exact .sub sysRoot_find (by decide) (sysVolume_load (by decide) (by decide)) hbin

lemma sysFile_x : SysFile pathSysBinX (sysDirectory.item 1) :=
  sysFile_of sysFile_find (by decide) (by decide) (by decide) (by decide)

lemma sysFile_bare : BareFile sysVolume (sysDirectory.item 1) bareImage := by
  have hread : fat16.readInternal smallVolume sysDisk (3 : ℕ) 0 52 = (0, bareImage) :=
    (FatKind.readInternal_within (fun _ => rfl) (by decide : _ = ((2048 : ℕ) : ℤ))
      (by decide)).trans (congrArg (Prod.mk 0) (by decide))
  have hloop : fat16.readFrom smallVolume sysDisk (3 : ℕ) (0 : ℕ) (52 : ℕ) =
      fat16.readInternal smallVolume sysDisk (3 : ℕ) 0 52 :=
    FatKind.readFrom_eq _ (by decide)
  have hcluster : (sysDirectory.item 1).firstClusterInt = (3 : ℕ) := by decide
  have hsize : i32 (sysDirectory.item 1).filesize = (52 : ℕ) := by decide
  refine ⟨?_, by decide, bareImage_bare⟩
  rw [hcluster, hsize]
  exact hloop.trans hread

/-- The program can be loaded next to other allocations. -/
lemma SysFile.programReady {k : Kernel} {R : List Extent} (h : SysFile filename item)
    (hmem : KernelMemory k.memory L) (hroomy : Roomy L n) (hn : 53 ≤ n)
    (hperm : L.Perm (R ++ mountedExtents)) (hstops : StopsBefore k.memory.heap.table.entries)
    (hdisk : diskGet k (driveOf filename) = some (some sysVolume))
    (hfree : k.fileDescriptors 0 = none) :
    ProgramReady k filename sysVolume item 8 n := by
  have hlen := h.length_eq
  refine ⟨⟨L, hmem, h.no_nul, ?_, hroomy, by omega, ?_⟩, hstops, h.accepted, hdisk, fun _ => rfl,
    h.found, h.below, ⟨0, by decide, hfree⟩, ?_⟩
  · intro mt hmt
    cases hdisk.symm.trans hmt
    refine ⟨blockAddress 0, 1, R, ⟨isBlock_blockAddress 0, isBlock_blockAddress 1, Nat.one_pos,
      Nat.le_add_right _ _, Nat.add_lt_add_left (by decide) _⟩, hperm.trans ?_⟩
    exact List.perm_append_comm
  · intro mt item b hmt hfile
    cases hdisk.symm.trans hmt
    obtain ⟨-, rfl⟩ := h.found.unique hfile
    omega
  · rw [fopenBlocks]
    omega

lemma bootSystem_ready (h : SysFile filename item) (hdrive : driveOf filename = 0) :
    ProgramReady (bootSystem sysVolume).kernel filename sysVolume item 8 4996 := by
  obtain ⟨-, hmem, hroomy⟩ := bootedMemory_spec
  refine h.programReady (R := [_, _]) hmem hroomy (by decide) (List.Perm.refl _)
    bootedMemory_stops ?_ rfl
  rw [hdrive]
  rfl

/-! ## The structures of the boot process -/

lemma bootProcess_eq : bootProcess = blockAddress 2 := by decide +kernel

lemma bootScreen_eq : bootScreen = blockAddress 5 := by decide +kernel

lemma bootedMemory_plain : HeapPlain bootedMemory :=
  bootedMemory_spec.2.1.kernelHeap.heapPlain bootedMemory_stops

/-- The blocks of the structure and of the screen of the boot process. -/
def bootBlocks : List Extent := [⟨2, 3⟩, ⟨5, 1⟩]

lemma pinned_bootedMemory {a : Extent} (ha : a ∈ bootBlocks) : Pinned a bootedMemory := by
  have hrecorded : a ∈ bootExtents := by
    rw [bootExtents, bootProcessExtents, bootScreen_eq, bootProcess_eq]
    exact (by decide : ∀ a ∈ bootBlocks, a ∈ extentAt (blockAddress 5) (blocksFor screenSize) ::
      extentAt (blockAddress 2) (blocksFor processSize) :: mountedExtents) a ha
  obtain ⟨hlen, hstart⟩ := (by decide : ∀ a ∈ bootBlocks, 0 < a.len ∧ 0 < a.start) a ha
  exact bootedMemory_spec.2.1.kernelHeap.pinned hrecorded hlen hstart

variable {P : Ptr → Prop}

/-- Where the root directory of the volume that the kernel boots with lies. -/
structure BootRoot (mt : FatMount) : Prop where
  rootPtr : mt.rootPtr = blockAddress 0 + 64
  rootItemPtr : mt.rootItemPtr = blockAddress 1

lemma bootSystem_keptWhole (hmt : BootRoot mt) {q n : ℕ} {a : Extent} (ha : a ∈ bootBlocks)
    (hq : Houses a q n) : (bootSystem mt).KeptWhole q n := by
  refine ⟨a, hq, pinned_bootedMemory ha, fun i mt' hi => ?_⟩
  have hclear : ∀ a ∈ bootBlocks, Clear a (blockAddress 0 + 64) ∧ Clear a (blockAddress 1) := by
    decide
  obtain ⟨hptr, hitem⟩ := hclear a ha
  rw [bootSystem_disks hi]
  exact ⟨hmt.rootPtr ▸ hptr, hmt.rootItemPtr ▸ hitem⟩

/-- The structure and the screen of the boot process are kept, and lie apart. -/
lemma bootSystem_loadsSafe (hmt : BootRoot mt) {l : List (List UInt8)}
    (hP : ∀ q, P q → q = bootProcess) (hnested : ∀ f ∈ l, ¬ mt.RootFile (namesOf f)) :
    LoadsSafe P (fun _ => False) l (bootSystem mt) := by
  refine ⟨⟨?_, fun _ => False.elim, ?_⟩, ⟨?_, fun _ _ _ => False.elim⟩, fun f hf => ⟨?_, ?_, ?_⟩⟩
  · rintro q hq
    rw [hP q hq, bootProcess_eq]
    exact bootSystem_keptWhole hmt List.mem_cons_self ⟨le_rfl, by decide, Or.inl (by decide)⟩
  · rintro q -
    change (bootSystem mt).KeptWhole bootScreen screenSize
    rw [bootScreen_eq]
    exact bootSystem_keptWhole hmt (List.mem_cons_of_mem _ List.mem_cons_self)
      ⟨le_rfl, by decide, Or.inl (by decide)⟩
  · rintro q r - hr
    rw [hP r hr, bootProcess_eq]
    change OffScreen bootScreen _ _
    rw [bootScreen_eq]
    decide
  · exact bootedMemory_plain
  · exact rootsTaken_bootSystem hmt.rootPtr hmt.rootItemPtr
  · intro i mt' hi
    rw [bootSystem_disks hi]
    exact hnested f hf

end SerpaeOS
