import SerpaeOS.Fs.Fat.OpenAccounts
import SerpaeOS.Fs.Fat.Write

/-!
# Writing and deleting open files

`fat16_write` and `fat16_delete` for a file that is open on a mounted volume.  Both look up the
directory entry of the file once more, by its path, which takes and gives back memory; what they
do to the disk is what the functions of `SerpaeOS.Fs.Fat.Lookup` and `SerpaeOS.Fs.Fat.Write` say.
-/

namespace SerpaeOS

open Bytes Word Prog

/-- What the functions on the clusters of a file use of its descriptor. -/
def FatOpenFile.descriptor (f : FatOpenFile) : FatFileDescriptor :=
  ⟨f.path.map PathPart.part, f.item, f.pos, f.mode⟩

/-- The part of `struct fat_private` of a FAT16 volume. -/
def FatMount.fatPrivate (mt : FatMount) : FatPrivate := ⟨mt.root, 0, fun _ => 0⟩

/-- The number of clusters that a write adds to a file. -/
def clustersToAdd (v : FatVolume) (oldFilesize : ℕ) (size : ℤ) : ℕ :=
  let newFilesize := u32 (oldFilesize + size)
  let oldClusterCount := filesizeToClusterCount v oldFilesize
  if newFilesize > u32 (oldClusterCount * v.clusterBytes) then
    u32 (filesizeToClusterCount v newFilesize - oldClusterCount)
  else 0

/-- `fat16_write` for an open file: the result, the file and the volume. -/
def FatMount.fat16Write (mt : FatMount) (f : FatOpenFile) (buf : ℕ → UInt8) (size : ℤ) :
    KProg (ℤ × FatOpenFile × FatMount) :=
  if size = 0 then return (-einvarg, f, mt)
  else if f.mode &&& fileModeWrite = 0 then return (-erdonly, f, mt)
  else
    let firstCluster := f.item.firstCluster % 2 ^ 16
    match fat16.findLastClusterOfChain mt.volume mt.disk firstCluster with
    | none => stuck
    | some firstClusterToWrite =>
      match fat16Driver.growLoop mt.volume firstCluster
        (clustersToAdd mt.volume f.item.filesize size) mt.fatPrivate mt.disk with
      | none => stuck
      | some grown =>
        if grown.1 < 0 then return (grown.1, f, { mt with disk := grown.2.2 })
        else do
          let mt : FatMount := { mt with disk := grown.2.2 }
          let item := f.item.setFilesize (u32 (f.item.filesize + size))
          let entry ← mt.writeDirectoryEntry (f.path.map PathPart.part) item
          if entry.1 ≤ 0 then
            return (entry.1, { f with item := item }, { mt with disk := entry.2 })
          else
            let written := fat16Driver.writeData mt.volume grown.2.1 entry.2
              { f.descriptor with item := item } buf size firstClusterToWrite
            return (written.res, { f with item := item }, { mt with disk := written.disk })

/-- The loop of `erase_cluster_chain` over the entries of the table.  It stops behind the entry
`last` only, and goes on behind the other entries that end a chain. -/
def eraseLoop (code : Disk → ℕ → ℕ) (erase : Disk → ℕ → Disk) (last : ℕ) (disk : Disk)
    (curr : ℕ) : Option Disk :=
  Loop.run ⟨fun (disk, curr) => some <|
    if code disk curr = last then .inr (erase disk curr)
    else .inl (erase disk curr, code disk curr)⟩ (disk, curr)

lemma eraseLoop_step (code : Disk → ℕ → ℕ) (erase : Disk → ℕ → Disk) (last : ℕ) (disk : Disk)
    (curr : ℕ) :
    eraseLoop code erase last disk curr =
      if code disk curr = last then some (erase disk curr)
      else eraseLoop code erase last (erase disk curr) (code disk curr) := by
  by_cases h : code disk curr = last
  · rw [if_pos h]
    exact Loop.run_leave (congrArg some (if_pos h))
  · rw [if_neg h]
    exact Loop.run_next (congrArg some (if_neg h))

/-- `fat16_erase_cluster_chain`: the result and the disk. -/
def fat16EraseClusterChain (v : FatVolume) (disk : Disk) (first : ℕ) : Option (ℤ × Disk) :=
  if first ≤ 2 then some (-einvarg, disk)
  else
    (eraseLoop (fat16.entryCode v) (fun disk curr => (fat16.writeFatEntry v disk curr 0x00).2)
      0xFFFF disk first).map fun disk => (0, disk)

/-- The directory entry of a deleted file. -/
def FatDirectoryItem.markDeleted (item : FatDirectoryItem) : FatDirectoryItem :=
  ⟨store item.raw 0 [0xE5]⟩

/-- `fat16_delete` for an open file: the result and the disk. -/
def FatMount.fat16Delete (mt : FatMount) (f : FatOpenFile) : KProg (ℤ × Disk) :=
  if f.mode &&& fileModeWrite = 0 ∨ f.item.attributeBits &&& fatFileReadOnly ≠ 0 then
    return (-einvarg, mt.disk)
  else do
    let item := f.item.markDeleted
    let written ← mt.writeDirectoryEntry (f.path.map PathPart.part) item
    if written.1 < 0 then return (-eio, written.2)
    else
      match fat16EraseClusterChain mt.volume written.2 item.low16BitsFirstCluster with
      | none => stuck
      | some erased => do
        fatItemFree (.file f.itemPtr f.clonePtr item)
        release f.ptr
        return erased

/-! ## The directory entry -/

variable {mt : FatMount} {d d' : FatDirectory} {names : List (List UInt8)} {name : List UInt8}

/-- A directory found in a directory, as far as it concerns the volume. -/
lemma FoundIn.findFatItem {p dp ip : Ptr}
    (h : FoundIn mt d name (some (.directory p (.loaded dp ip d')))) :
    mt.kind.findFatItem mt.volume mt.disk d name = some (some (.directory (.ok d'))) := by
  cases h with
  | directory hfind hsub hload =>
    rw [FatKind.findFatItem, hfind]
    simp only [FatKind.newFatItem, if_pos hsub, hload _ _ _ rfl, Option.map_some]

/-- The directory at the end of a path. -/
lemma FatMount.getDirectoryEntryLoop_pure {p dp ip : Ptr} :
    ∀ {rest : List (List UInt8)} {d : FatDirectory} {r : Option HeapItem} {m m' : KMemory}
      {name : List UInt8}, FoundIn mt d name r →
      mt.getDirectoryEntryLoop r rest m = some (some (.directory p (.loaded dp ip d')), m') →
      ∃ item, mt.kind.findFatItem mt.volume mt.disk d name = some (some item) ∧
        mt.kind.getDirectoryEntryLoop mt.volume mt.disk (some item) rest =
          some (some (.directory (.ok d'))) := by
  intro rest
  induction rest with
  | nil =>
    intro d r m m' name hfound h
    rw [FatMount.getDirectoryEntryLoop] at h
    cases pure_eq_some h
    exact ⟨_, hfound.findFatItem, by rw [FatKind.getDirectoryEntryLoop]⟩
  | cons name' rest ih =>
    intro d r m m' name hfound h
    cases hfound with
    | none => cases h
    | file hfind hfile => cases pure_eq_some h
    | @directory p handle sub hfind hsub hload =>
      cases handle with
      | null => cases h
      | freed => cases h
      | loaded dp ip d₁ =>
        rw [FatMount.getDirectoryEntryLoop] at h
        obtain ⟨tmp, m₁, htmp, h⟩ := bind_eq_some h
        obtain ⟨_, m₂, -, h⟩ := bind_eq_some h
        obtain ⟨item, hitem, hrest⟩ := ih (FatMount.findFatItem_foundIn htmp) h
        have hdir : FoundIn mt d name (some (.directory p (.loaded dp ip d₁))) :=
          .directory hfind hsub hload
        refine ⟨_, hdir.findFatItem, ?_⟩
        rw [FatKind.getDirectoryEntryLoop, hitem, Option.bind_some, hrest]

/-- The parent directory of a path, as far as it concerns the volume. -/
lemma FatMount.getParentDir_pure {p dp ip : Ptr} {m m' : KMemory}
    (h : mt.getParentDir names m = some (some (.directory p (.loaded dp ip d)), m')) :
    mt.kind.getParentDir mt.volume mt.disk mt.root names =
      some (some (.directory (.ok d))) := by
  match names with
  | [] => cases pure_eq_some h
  | [_] =>
    obtain ⟨q, m₁, -, h⟩ := bind_eq_some h
    split_ifs at h
    · cases h
    · cases pure_eq_some h
      rfl
  | name :: name' :: rest =>
    have h : mt.getDirectoryEntry (name :: (name' :: rest).dropLast) m =
      some (some (.directory p (.loaded dp ip d)), m') := h
    change mt.kind.getDirectoryEntry mt.volume mt.disk mt.root
      (name :: (name' :: rest).dropLast) = _
    obtain ⟨r, m₁, hr, h⟩ := bind_eq_some h
    cases r with
    | none => cases pure_eq_some h
    | some r =>
      obtain ⟨item, hitem, hrest⟩ :=
        FatMount.getDirectoryEntryLoop_pure (FatMount.findFatItem_foundIn hr) h
      rw [FatKind.getDirectoryEntry, hitem, Option.bind_some]
      exact hrest

/-- Storing the entry of a path: either as on the volume, or the parent directory could not be
loaded. -/
lemma FatMount.ends_writeDirectoryEntry (item : FatDirectoryItem) (m : KMemory) :
    Ends (mt.writeDirectoryEntry names item) m fun r _ =>
      r = (-ebadpath, mt.disk) ∨
        mt.kind.writeDirectoryEntry mt.volume mt.disk mt.root names item = some r := by
  intro r m' h
  obtain ⟨parent, m₁, hparent, h⟩ := bind_eq_some h
  rcases parent with _ | ⟨p, q, file⟩ | ⟨p, _ | _ | ⟨dp, ip, d⟩⟩
  · cases h
  · cases h
  · cases pure_eq_some h
    exact Or.inl rfl
  · cases h
  · have hpure := FatMount.getParentDir_pure hparent
    rw [FatKind.writeDirectoryEntry, FatKind.entryLocation, hpure, Option.bind_some]
    simp only at h
    rcases hindex : FatKind.entryIndex d (names.getLastD []) with _ | i
    · rw [hindex] at h
      cases pure_eq_some h
      exact Or.inr (by simp only [hindex, Option.map_none, Option.map_some])
    · rw [hindex] at h
      obtain ⟨_, m₂, -, h⟩ := bind_eq_some h
      cases pure_eq_some h
      exact Or.inr (by simp only [hindex, Option.map_some])

/-! ## Writing -/

/-- Adding a cluster does not change the directory in memory. -/
lemma fat16AddClusterToChain_priv {v : FatVolume} {priv : FatPrivate} {disk : Disk} {first : ℕ}
    {added : ℤ × FatPrivate × Disk}
    (h : fat16Driver.addClusterToChain v priv disk first = some added) : added.2.1 = priv := by
  rw [fat16AddClusterToChain_eq] at h
  obtain ⟨last, -, rfl⟩ := Option.map_eq_some_iff.mp h
  dsimp only
  split_ifs
  · rfl
  · rfl

lemma fat16GrowLoop_priv {v : FatVolume} {first : ℕ} (count : ℕ) :
    ∀ {priv : FatPrivate} {disk : Disk} {grown : ℤ × FatPrivate × Disk},
      fat16Driver.growLoop v first count priv disk = some grown → grown.2.1 = priv := by
  induction count with
  | zero =>
    intro priv disk grown h
    cases h
    rfl
  | succ count ih =>
    intro priv disk grown h
    obtain ⟨added, hadd, h⟩ := Option.bind_eq_some_iff.mp h
    have hpriv := fat16AddClusterToChain_priv hadd
    split_ifs at h
    · cases h
      exact hpriv
    · rw [hpriv] at h
      exact ih h

/-- The steps of a write that is not rejected. -/
lemma fat16Write_bind {v : FatVolume} {priv : FatPrivate} {disk : Disk}
    {desc : FatFileDescriptor} {size : ℤ} (buf : ℕ → UInt8) (hsize : size ≠ 0)
    (hmode : desc.mode &&& fileModeWrite ≠ 0) :
    fat16Write v priv disk desc buf size =
      (fat16.findLastClusterOfChain v disk (desc.item.firstCluster % 2 ^ 16)).bind fun last =>
      (fat16Driver.growLoop v (desc.item.firstCluster % 2 ^ 16)
        (clustersToAdd v desc.item.filesize size) priv disk).bind fun grown =>
      if grown.1 < 0 then some ⟨grown.1, grown.2.1, grown.2.2, desc, 0⟩
      else (fat16.writeDirectoryEntry v grown.2.2 grown.2.1.rootDirectory desc.path
        (desc.item.setFilesize (u32 (desc.item.filesize + size)))).bind fun entry =>
        if entry.1 ≤ 0 then some ⟨entry.1, grown.2.1, entry.2,
          { desc with item := desc.item.setFilesize (u32 (desc.item.filesize + size)) }, 0⟩
        else some (fat16Driver.writeData v grown.2.1 entry.2
          { desc with item := desc.item.setFilesize (u32 (desc.item.filesize + size)) } buf size
          last) := by
  rw [fat16Write, FatDriver.write, if_neg hsize, if_neg hmode]
  rfl

/-- Writing an open file: either as on the volume, or the parent directory could not be loaded
after the clusters were added. -/
lemma FatMount.ends_fat16Write (hkind : mt.kind = fat16) (f : FatOpenFile) (buf : ℕ → UInt8)
    (size : ℤ) (m : KMemory) :
    Ends (mt.fat16Write f buf size) m fun r _ =>
      (∃ w, SerpaeOS.fat16Write mt.volume mt.fatPrivate mt.disk f.descriptor buf size = some w ∧
        r = (w.res, { f with item := w.desc.item }, { mt with disk := w.disk })) ∨
      ∃ grown, size ≠ 0 ∧ f.mode &&& fileModeWrite ≠ 0 ∧
        fat16Driver.growLoop mt.volume (f.item.firstCluster % 2 ^ 16)
          (clustersToAdd mt.volume f.item.filesize size) mt.fatPrivate mt.disk = some grown ∧
        0 ≤ grown.1 ∧ r.1 = -ebadpath ∧ r.2.2 = { mt with disk := grown.2.2 } ∧
        r.2.1 = { f with item := f.item.setFilesize (u32 (f.item.filesize + size)) } := by
  intro r m' h
  rw [FatMount.fat16Write] at h
  by_cases hsize : size = 0
  · rw [if_pos hsize] at h
    cases pure_eq_some h
    exact Or.inl ⟨_, by rw [SerpaeOS.fat16Write, FatDriver.write, if_pos hsize], rfl⟩
  rw [if_neg hsize] at h
  by_cases hmode : f.mode &&& fileModeWrite = 0
  · rw [if_pos hmode] at h
    cases pure_eq_some h
    refine Or.inl ⟨⟨-erdonly, mt.fatPrivate, mt.disk, f.descriptor, 0⟩, ?_, rfl⟩
    rw [SerpaeOS.fat16Write, FatDriver.write, if_neg hsize]
    exact if_pos hmode
  rw [if_neg hmode] at h
  simp only at h
  rw [fat16Write_bind buf hsize hmode]
  rcases hlast : fat16.findLastClusterOfChain mt.volume mt.disk (f.item.firstCluster % 2 ^ 16)
    with _ | last
  · rw [hlast] at h
    cases h
  rw [hlast] at h
  simp only at h
  rcases hgrow : fat16Driver.growLoop mt.volume (f.item.firstCluster % 2 ^ 16)
    (clustersToAdd mt.volume f.item.filesize size) mt.fatPrivate mt.disk with _ | grown
  · rw [hgrow] at h
    cases h
  have hpriv := fat16GrowLoop_priv _ hgrow
  have hbind : ∀ {α : Type} (g : ℤ × FatPrivate × Disk → Option α),
      (fat16Driver.growLoop mt.volume (f.descriptor.item.firstCluster % 2 ^ 16)
        (clustersToAdd mt.volume f.descriptor.item.filesize size) mt.fatPrivate mt.disk).bind g =
        g grown := fun g => congrArg (·.bind g) hgrow
  have hfind : ∀ {α : Type} (g : ℕ → Option α),
      (fat16.findLastClusterOfChain mt.volume mt.disk
        (f.descriptor.item.firstCluster % 2 ^ 16)).bind g = g last :=
    fun g => congrArg (·.bind g) hlast
  rw [hgrow] at h
  rw [hfind, hbind]
  simp only at h
  by_cases hneg : grown.1 < 0
  · rw [if_pos hneg] at h
    cases pure_eq_some h
    exact Or.inl ⟨_, if_pos hneg, rfl⟩
  rw [if_neg hneg] at h
  obtain ⟨entry, m₁, hentry, h⟩ := bind_eq_some h
  rcases FatMount.ends_writeDirectoryEntry _ _ entry m₁ hentry with rfl | hstored
  · -- the item of the file in memory has its new size, the entry on the disk does not
    have hbad : (-ebadpath : ℤ) ≤ 0 := by decide
    rw [if_pos hbad] at h
    cases pure_eq_some h
    exact Or.inr ⟨grown, hsize, hmode, rfl, Int.not_lt.mp hneg, rfl, rfl, rfl⟩
  · simp only [hkind] at hstored
    rw [if_neg hneg, hpriv]
    have hentry : fat16.writeDirectoryEntry mt.volume grown.2.2 mt.fatPrivate.rootDirectory
      f.descriptor.path (f.descriptor.item.setFilesize (u32 (f.descriptor.item.filesize + size))) =
        some entry := hstored
    rw [hentry, Option.bind_some]
    by_cases hres : entry.1 ≤ 0
    · rw [if_pos hres] at h
      cases pure_eq_some h
      exact Or.inl ⟨_, if_pos hres, rfl⟩
    · rw [if_neg hres] at h
      cases pure_eq_some h
      refine Or.inl ⟨_, if_neg hres, ?_⟩
      rw [hpriv]
      rfl

end SerpaeOS
