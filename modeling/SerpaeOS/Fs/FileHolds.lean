import SerpaeOS.Fs.Fat.OpenHolds
import SerpaeOS.Fs.ReadCodes
import SerpaeOS.Fs.Structures

/-!
# The memory of an open file

What `fopen`, `fread` and `fclose` hold when they return.  A call of `fopen` that fails may leave
blocks taken, but it frees only what it has taken itself, error codes and `NULL`; an open file
holds the blocks of its descriptor until it is closed.
-/

namespace SerpaeOS

open BlockTable Bytes Word Prog

/-- The pointers of an open file are addresses of blocks. -/
structure FileDescriptor.Owned (desc : FileDescriptor) : Prop where
  ptr_block : IsBlock desc.ptr
  file : desc.privateData.Owned
  parts : PartsOk desc.privateData.path

/-- A search along the names takes at most `b` blocks, and does not lead to a file in the root
directory, which `fopen` would free. -/
structure FatMount.OpenFits (mt : FatMount) (names : List (List UInt8)) (b : ℕ) : Prop where
  search : mt.SearchFits names mt.root b
  below : ∀ item c, FileAt mt mt.root names item c → 2 ≤ names.length

/-- The number of blocks that a call of `fopen` takes at most. -/
def fopenBlocks (filename : List UInt8) (b : ℕ) : ℕ := 2 * filename.length + 3 * b + 5

/-- An open file with all its blocks, and a size of `size` bytes.  The index of the last slot
does not lead to its descriptor. -/
structure HoldsFile (k : Kernel) (fd : ℤ) (size : ℕ) (L : List Extent) (n : ℕ) : Prop where
  pos : 0 < fd
  file : ∃ desc : FileDescriptor, desc.Owned ∧ Holds k.memory (desc.extents ++ L) n ∧
    desc.privateData.item.filesize = size ∧
    ∀ desc', fileGetDescriptor k fd = some desc' → desc' = desc

/-- The driver has been asked for the file that the names lead to, and has written at most the
date of access to its disk. -/
def AskedFor (k k' : Kernel) (filename : List UInt8) (size : ℕ) : Prop :=
  ∃ mt item b disk, diskGet k (driveOf filename) = some (some mt) ∧
    FileAt mt mt.root (namesOf filename) item b ∧ item.filesize = size ∧
    mt.Dated (namesOf filename) disk ∧
    k'.disks = Function.update k.disks (driveOf filename) (some (some { mt with disk := disk }))

/-- What a call of `fopen` leaves: it has failed, or the file is open. -/
def FopenHolds (k : Kernel) (filename : List UInt8) (L : List Extent) (n : ℕ) (r : ℤ)
    (k' : Kernel) : Prop :=
  (r < 0 ∧ Holds k'.memory L 0) ∨ ∃ size, HoldsFile k' r size L n ∧ AskedFor k k' filename size

variable {k k' : Kernel} {L : List Extent} {n b size : ℕ} {filename modeStr : List UInt8} {now : ℕ}
  {fd : ℤ} {desc : FileDescriptor} {mt : FatMount} {item : FatDirectoryItem}

lemma KernelMemory.holds {m : KMemory} (h : KernelMemory m L) (hroomy : Roomy L n)
    (hstops : StopsBefore m.heap.table.entries) : Holds m [] n := by
  refine ⟨h.kernelHeap.saddr_eq, h.kernelHeap.total_eq, ⟨L, ?_, hroomy⟩, hstops⟩
  exact h.kernelHeap.records.encodes

lemma Holds.afterKzalloc {m : KMemory} (h : Holds m L n) (hpos : 0 < size)
    (hroom : blocksFor size ≤ n) :
    Holds (m.afterKzalloc size) L (n - blocksFor size) := by
  obtain ⟨p, m', hrun, -, hm⟩ := h.allocate size hpos hroom
  cases hrun
  exact hm.tail

/-- A failed call frees the path, and `NULL` or an error code. -/
lemma Holds.fopenOut {q d : ℕ} {parts : List PathPart} {c : Ptr} {res : ℤ} (hok : PartsOk parts)
    (hq : IsBlock q) (hc : IsCode c)
    (h : Holds k.memory (pathExtents parts ++ extentAt q 1 :: L) n) :
    Runs (SerpaeOS.fopenOut ⟨q, d, parts⟩ c res) k fun r k' => r = res ∧ k'.disks = k.disks ∧
      Holds k'.memory L n := by
  have h' : Holds k.memory ([] ++ (pathExtents parts ++ extentAt q 1 :: L)) n := h
  refine (runs_onMemory (holds_ledger.pathparserFree hok hq h')).bind fun _ k₁ hk₁ => ?_
  obtain ⟨m₁, hm₁, rfl⟩ := hk₁
  by_cases hnull : c = 0
  · rw [if_neg (not_not.mpr hnull)]
    exact runs_pure ⟨rfl, rfl, hm₁⟩
  · rw [if_pos hnull]
    have hrelease := runs_onMemory (k := { k with memory := m₁ }) (Holds.release_code hm₁ hc)
    refine hrelease.bind fun _ k₂ hk₂ => ?_
    obtain ⟨m₂, hm₂, rfl⟩ := hk₂
    exact runs_pure ⟨rfl, rfl, hm₂⟩

/-- With an open file the call finds a descriptor, or it gives back what it has of the file. -/
lemma Holds.fopenEnter {q d mode : ℕ} {f : FatOpenFile} (hok : PartsOk f.path) (hq : IsBlock q)
    (hown : f.Owned) (hroom : 1 ≤ n)
    (h : Holds k.memory (f.extents ++ (pathExtents f.path ++ extentAt q 1 :: L)) n) :
    Ends (SerpaeOS.fopenEnter ⟨q, d, f.path⟩ f mode) k fun r k' =>
      (r < 0 ∧ Holds k'.memory L 0) ∨
        HoldsFile k' r f.item.filesize L (n - 1) ∧ k'.disks = k.disks := by
  intro r k' hrun
  have hdisks := fopenEnter_descriptors hrun
  rcases (holds_ledger.fopenEnter hok hq hown hroom h).of_eq hrun with
    ⟨rfl, -, hfull⟩ | ⟨i, p, hi, -, -, hp, rfl, htable, hopen⟩
  · exact Or.inl ⟨by decide, hfull.tail.tail⟩
  · refine Or.inr ⟨⟨by omega, ⟨p, i + 1, f, d, mode⟩, ⟨hp, hown, hok⟩, ?_, rfl, ?_⟩, ?_⟩
    · rw [FileDescriptor.extents, List.cons_append, List.append_assoc]
      exact hopen
    · intro desc' hget
      have hlt : i + 1 < maxFileDescriptors := by
        by_contra hlast
        rw [fileGetDescriptor, if_pos (by omega)] at hget
        cases hget
      rw [fileGetDescriptor_succ hlt, htable, Function.update_self] at hget
      exact (Option.some.inj hget).symm
    · rcases hdisks with ⟨hneg, -⟩ | ⟨_, _, -, -, -, -, hsame⟩
      · omega
      · exact hsame

/-- The driver opens a file for a parsed path, or fails. -/
lemma Holds.fopenOn {q mode : ℕ} {parts : List PathPart} {u : ℕ}
    (hdisk : diskGet k (driveOf filename) = some (some mt)) (hok : PartsOk parts) (hq : IsBlock q)
    (hnames : parts.map PathPart.part = namesOf filename)
    (hfits : mt.OpenFits (namesOf filename) b) (hu : 3 * b + 2 ≤ u)
    (h : Holds k.memory (pathExtents parts ++ extentAt q 1 :: L) u) :
    Ends (SerpaeOS.fopenOn mt ⟨q, driveOf filename, parts⟩ mode now) k
      (FopenHolds k filename L (u - (3 * b + 2))) := by
  have hopen : Ends (mt.fatOpen parts mode now) k.memory fun r m' =>
      (∃ e, r.1 = .error e ∧ -8 ≤ e ∧ e < 0 ∧
        Holds m' (pathExtents parts ++ extentAt q 1 :: L) (u - (3 * b + 1))) ∨
      ∃ f, r.1 = .ok f ∧ f.path = parts ∧ f.Owned ∧ mt.Dated (namesOf filename) r.2 ∧
        (∃ item c, FileAt mt mt.root (namesOf filename) item c ∧
          item.filesize = f.item.filesize) ∧
        Holds m' (f.extents ++ (pathExtents parts ++ extentAt q 1 :: L)) (u - (3 * b + 1)) := by
    intro r m' hrun
    have hend := h.fatOpen hnames hfits.search hfits.below (by omega) r m' hrun
    obtain ⟨hdated, herror | ⟨f, hf, hpath, hown, hm'⟩⟩ := hend
    · exact Or.inl herror
    · obtain ⟨r, disk⟩ := r
      simp only at hf
      subst hf
      obtain ⟨item, c, hfile, -, hitem, -⟩ := FatMount.fileAt_of_fatOpen hrun
      refine Or.inr ⟨f, rfl, hpath, hown, hdated, ⟨item, c, hnames ▸ hfile, ?_⟩, hm'⟩
      rw [hitem, FatDirectoryItem.filesize_accessed]
  refine (ends_onMemory hopen).bind fun r k₁ hk₁ => ?_
  obtain ⟨m₁, hr, rfl⟩ := hk₁
  refine Ends.bind (P := fun _ k₂ => k₂.memory = m₁ ∧ k₂.disks = Function.update k.disks
    (driveOf filename) (some (some { mt with disk := r.2 }))) ?_ fun _ k₂ hk₂ => ?_
  · intro _ k₂ hupdate
    cases hupdate
    exact ⟨rfl, rfl⟩
  obtain ⟨rfl, hdisks⟩ := hk₂
  obtain ⟨opened, disk⟩ := r
  rcases hr with ⟨e, he, hlow, hneg, hm₁⟩ | ⟨f, hf, rfl, hown, hdated, hfile, hm₁⟩
  · simp only at he
    subst he
    have hout : Runs (SerpaeOS.fopenOut ⟨q, driveOf filename, parts⟩ (u32 e) e) k₂ _ :=
      Holds.fopenOut hok hq ⟨e, hlow, hneg.le, rfl⟩ hm₁
    exact hout.ends.mono fun r k' hr => Or.inl ⟨hr.1 ▸ hneg, hr.2.2.mono (Nat.zero_le _)⟩
  · simp only at hf
    subst hf
    refine (Holds.fopenEnter hok hq hown (by omega) hm₁).mono fun r k' hr => ?_
    rcases hr with hfail | ⟨hopen, hsame⟩
    · exact Or.inl hfail
    · obtain ⟨item, c, hfile, hsize⟩ := hfile
      refine Or.inr ⟨_, ?_, mt, item, c, disk, hdisk, hfile, hsize, hdated, hsame.trans hdisks⟩
      rw [Nat.sub_sub] at hopen
      exact hopen

/-- Opening a file. -/
lemma Holds.fopen (h : Holds k.memory L n)
    (hfits : ∀ mt, diskGet k (driveOf filename) = some (some mt) →
      mt.OpenFits (namesOf filename) b) (hn : fopenBlocks filename b ≤ n) :
    Ends (SerpaeOS.fopen filename modeStr now) k
      (FopenHolds k filename L (n - fopenBlocks filename b)) := by
  rw [fopenBlocks] at hn ⊢
  by_cases hacc : PathAccepted filename
  swap
  · intro r k' hrun
    obtain ⟨root, k₁, hparse, hrun⟩ := bind_eq_some hrun
    obtain ⟨m₁, hparse', rfl⟩ := onMemory_eq_some hparse
    rw [pathparserParse_rejected hacc] at hparse'
    cases hparse'
    cases pure_eq_some hrun
    exact Or.inl ⟨by decide, h.mono (Nat.zero_le n)⟩
  refine (runs_onMemory (holds_ledger.pathparserParse h hacc (by omega))).ends.bind
    fun r k₁ hk₁ => ?_
  obtain ⟨m₁, ⟨q, parts, rfl, hq, hok, hnames, hm₁⟩, rfl⟩ := hk₁
  have hout : ∀ e < 0, Ends (SerpaeOS.fopenOut ⟨q, driveOf filename, parts⟩ 0 e)
      { k with memory := m₁ }
      (FopenHolds k filename L (n - (2 * filename.length + 3 * b + 5))) := by
    intro e he
    have hout : Runs (SerpaeOS.fopenOut ⟨q, driveOf filename, parts⟩ 0 e)
        { k with memory := m₁ } fun r k' => r = e ∧ k'.disks = k.disks ∧
          Holds k'.memory L (n - (2 * filename.length + 3)) :=
      Holds.fopenOut hok hq isCode_null hm₁
    exact hout.ends.mono fun r k' hr => Or.inl ⟨hr.1 ▸ he, hr.2.2.mono (Nat.zero_le _)⟩
  simp only
  refine Ends.ite (fun _ => hout (-einvarg) (by decide)) fun _ => ends_getKernel_bind ?_
  rcases hdisk : diskGet { k with memory := m₁ } (tonumericdigit (filename.getD 0 0))
    with _ | _ | mt
  · exact hout (-eio) (by decide)
  · exact hout (-eio) (by decide)
  · refine Ends.ite (fun _ => hout (-einvarg) (by decide)) fun _ => ?_
    have hlate : Ends (SerpaeOS.fopenOn mt ⟨q, driveOf filename, parts⟩
        (fileGetModeByString modeStr) now) { k with memory := m₁ }
        (FopenHolds { k with memory := m₁ } filename L
          (n - (2 * filename.length + 3) - (3 * b + 2))) :=
      Holds.fopenOn hdisk hok hq hnames (hfits mt hdisk) (by omega) hm₁
    refine hlate.mono fun r k' hr => ?_
    rw [Nat.sub_sub, show 2 * filename.length + 3 + (3 * b + 2) =
      2 * filename.length + 3 * b + 5 by omega] at hr
    exact hr

/-- The path is malformed, or its first name is not in the root directory of its volume. -/
def Missing (k : Kernel) (filename : List UInt8) : Prop :=
  ¬ PathAccepted filename ∨ ∃ mt name rest,
    diskGet k (driveOf filename) = some (some mt) ∧ namesOf filename = name :: rest ∧
      mt.kind.findItemInDirectory mt.root name = none

/-- A missing file is not opened. -/
lemma Holds.fopen_missing (h : Holds k.memory L n) (hmissing : Missing k filename)
    (hmode : fileGetModeByString modeStr ≠ fileModeInvalid)
    (hn : 2 * filename.length + 4 ≤ n) :
    Runs (SerpaeOS.fopen filename modeStr now) k fun res k' => res < 0 ∧ k'.disks = k.disks ∧
      Holds k'.memory L (n - (2 * filename.length + 4)) := by
  by_cases hacc : PathAccepted filename
  swap
  · refine ⟨-einvarg, k, ?_, by decide, rfl, h.mono (Nat.sub_le _ _)⟩
    change ((pathparserParse filename k.memory).map _).bind _ = _
    rw [pathparserParse_rejected hacc]
    rfl
  obtain ⟨mt, name, rest, hdisk, hnames, hfind⟩ := hmissing.resolve_left (not_not.mpr hacc)
  refine (runs_onMemory (holds_ledger.pathparserParse h hacc (by omega))).bind fun r k₁ hk₁ => ?_
  obtain ⟨m₁, ⟨q, parts, rfl, hq, hok, hparts, hm₁⟩, rfl⟩ := hk₁
  have hempty : ¬ parts.isEmpty = true := by
    intro hempty
    rw [List.isEmpty_iff.mp hempty, hnames] at hparts
    cases hparts
  simp only [if_neg hempty]
  refine runs_getKernel.bind fun k₂ k₃ hk => ?_
  obtain ⟨rfl, rfl⟩ := hk
  have hdisk' : diskGet { k with memory := m₁ } (tonumericdigit (filename.getD 0 0)) =
      some (some mt) := hdisk
  simp only [hdisk', if_neg hmode]
  refine (runs_onMemory (k := { k with memory := m₁ }) (holds_ledger.fatOpen_missing
    (hparts.trans hnames) hfind hm₁ (by omega))).bind fun r k₂ hk₂ => ?_
  obtain ⟨m₂, ⟨rfl, hm₂⟩, rfl⟩ := hk₂
  -- the disk of the volume has not been written to
  have hsame : Function.update k.disks (tonumericdigit (filename.getD 0 0)) (some (some mt)) =
      k.disks := by
    rw [diskGet] at hdisk
    split_ifs at hdisk
    exact Function.update_eq_self_iff.mpr hdisk.symm
  refine Runs.bind (P := fun _ k₃ => k₃.memory = m₂ ∧ k₃.disks = k.disks)
    ⟨_, _, rfl, rfl, hsame⟩ fun _ k₃ hk₃ => ?_
  obtain ⟨rfl, hdisks⟩ := hk₃
  have hcode : IsCode (u32 (-eio)) := ⟨-eio, by decide, by decide, rfl⟩
  refine (Holds.fopenOut hok hq hcode hm₂).mono fun res k' hres => ?_
  rw [Nat.sub_sub] at hres
  exact ⟨hres.1 ▸ by decide, hres.2.1.trans hdisks, hres.2.2⟩

/-! ## The open file -/

/-- Closing a file gives back its blocks. -/
lemma HoldsFile.fclose (h : HoldsFile k fd size L n) (hn : 1 ≤ n) :
    Ends (SerpaeOS.fclose fd) k fun _ k' => Holds k'.memory L (n - 1) ∧ k'.disks = k.disks := by
  obtain ⟨desc, hown, hheld, -, honly⟩ := h.file
  rcases hget : fileGetDescriptor k fd with _ | desc'
  · intro r k' hrun
    rw [fclose_none hget] at hrun
    cases hrun
    exact ⟨hheld.drop.mono (Nat.sub_le _ _), rfl⟩
  · obtain rfl := honly desc' hget
    rw [FileDescriptor.extents, List.cons_append, List.append_assoc] at hheld
    refine (holds_ledger.fclose hget hown.ptr_block hown.file hown.parts hn hheld).ends.mono
      fun r k' hk' => ⟨hk'.2.2.2, hk'.2.2.1⟩

/-- The size of a file that is open. -/
lemma HoldsFile.fstat (h : HoldsFile k fd size L n) :
    Ends (SerpaeOS.fstat fd) k fun r k' => k' = k ∧
      ∀ st, r.2 = some st → st.filesize = size := by
  obtain ⟨desc, -, -, hsize, honly⟩ := h.file
  refine ends_getKernel_bind ?_
  rcases hget : fileGetDescriptor k fd with _ | desc'
  · refine ends_pure ⟨rfl, fun st hst => ?_⟩
    cases hst
  · obtain rfl := honly desc' hget
    refine ends_pure ⟨rfl, fun st hst => ?_⟩
    cases hst
    exact hsize

/-- Reading moves the position in the file. -/
lemma HoldsFile.fread (h : HoldsFile k fd size L n) (count : ℕ) :
    Ends (SerpaeOS.fread fd count) k fun r k' => HoldsFile k' fd size L n ∧
      k'.memory = k.memory ∧ k'.disks = k.disks ∧ (count = 0 → r.1 < 0) := by
  refine Ends.ite (fun _ => ends_pure ⟨h, rfl, rfl, fun _ => by decide⟩) fun hne => ?_
  have hpos : count = 0 → ∀ r : ℤ, r < 0 := fun hzero => absurd (Or.inl hzero) hne
  obtain ⟨desc, hown, hheld, hsize, honly⟩ := h.file
  refine ends_getKernel_bind ?_
  rcases hget : fileGetDescriptor k fd with _ | desc'
  · exact ends_pure ⟨h, rfl, rfl, fun _ => by decide⟩
  obtain rfl := honly desc' hget
  simp only
  rcases hdisk : k.disks desc'.disk with _ | _ | mt
  · exact ends_stuck
  · exact ends_stuck
  obtain ⟨p, hp⟩ := mt.fatRead_file desc'.privateData count
  intro r k' hrun
  cases hrun
  refine ⟨⟨h.pos, { desc' with privateData := { desc'.privateData with pos := p } }, ?_⟩, rfl,
    rfl, fun hzero => hpos hzero _⟩
  refine ⟨⟨hown.ptr_block, ⟨hown.file.ptr_block, hown.file.item_block, hown.file.clone_block⟩,
    hown.parts⟩, hheld, hsize, fun desc₂ hget₂ => ?_⟩
  rw [hp] at hget₂
  rw [fileGetDescriptor] at hget₂
  split_ifs at hget₂
  change Function.update k.fileDescriptors (fd - 1).toNat _ (fd - 1).toNat = _ at hget₂
  rw [Function.update_self] at hget₂
  exact (Option.some.inj hget₂).symm

end SerpaeOS
