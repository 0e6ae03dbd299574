import SerpaeOS.Fs.Fat.Delete
import SerpaeOS.Fs.Fat.WriteFrame
import SerpaeOS.Fs.FileSpec

/-!
# Writes that fail

`fat16_write` adds the clusters it needs one after the other, then changes the size of the file in
memory, and then stores the directory entry.  None of these steps is taken back when a later one
fails.  So a failed write leaves everything as it was only when it fails before the first change.
-/

namespace SerpaeOS

open Bytes Word FatKind Prog

variable {v : FatVolume} {priv : FatPrivate} {disk disk' : Disk} {desc : FatFileDescriptor}
  {mt : FatMount} {f : FatOpenFile} {buf : ℕ → UInt8} {size : ℤ} {first : ℕ}

/-- The table, the rest of the volume and the size of the file in memory are as before.  Entries
have the numbers of 16 bits. -/
structure WriteKeeps (v : FatVolume) (disk disk' : Disk) (filesize filesize' : ℕ) : Prop where
  fat : ∀ c < 2 ^ 16, fat16.fatEntry v disk' c = fat16.fatEntry v disk c
  rest : ∀ a, ¬ fat16.InEntries v (List.range (2 ^ 16)) a → disk'.byte a = disk.byte a
  filesize_eq : filesize' = filesize

lemma WriteKeeps.refl (v : FatVolume) (disk : Disk) (filesize : ℕ) :
    WriteKeeps v disk disk filesize filesize :=
  ⟨fun _ _ => rfl, fun _ _ => rfl, rfl⟩

/-- An entry determines its bytes. -/
lemma WriteKeeps.byte_eq {filesize filesize' : ℕ}
    (h : WriteKeeps v disk disk' filesize filesize') : disk'.byte = disk.byte := by
  funext a
  by_cases hin : fat16.InEntries v (List.range (2 ^ 16)) a
  · obtain ⟨c, hc, hle, hlt⟩ := hin
    have hslice := number_inj (by rw [length_slice, length_slice]) (h.fat c (List.mem_range.mp hc))
    rw [slice_eq_iff] at hslice
    have hbyte := hslice (a - fat16.tablePos v c) (by omega)
    have hpos : v.reservedSectors * v.sectorSize + c * fat16.entrySize +
        (a - fat16.tablePos v c) = a := Nat.add_sub_cancel' hle
    rwa [hpos] at hbyte
  · exact h.rest a hin

/-! ## Growing the chain -/

/-- The search for a free cluster depends on the bytes of the volume. -/
lemma entryCode_congr (hf : disk.FaultFree) (hf' : disk'.FaultFree)
    (hbyte : disk'.byte = disk.byte) (c : ℕ) :
    fat16.entryCode v disk' c = fat16.entryCode v disk c := by
  have hread : diskstreamerRead disk' (i32 (fat16.entryPos v c)) fat16.entrySize =
      diskstreamerRead disk (i32 (fat16.entryPos v c)) fat16.entrySize := by
    rcases Int.lt_or_le (i32 (fat16.entryPos v c)) 0 with hneg | hpos
    · rw [diskstreamerRead, diskstreamerReadLoop, if_pos hneg, diskstreamerRead,
        diskstreamerReadLoop, if_pos hneg]
    · obtain ⟨n, hn⟩ := Int.eq_ofNat_of_zero_le hpos
      rw [hn, diskstreamerRead_ok hf', diskstreamerRead_ok hf, hbyte]
  rw [entryCode, entryCode, getFatEntry, getFatEntry, hread]

lemma getFirstFirstCluster_congr (hf : disk.FaultFree) (hf' : disk'.FaultFree)
    (hbyte : disk'.byte = disk.byte) :
    (fat16GetFirstFirstCluster v priv disk').1 = (fat16GetFirstFirstCluster v priv disk).1 := by
  have hcode : fat16.entryCode v disk' = fat16.entryCode v disk :=
    funext (entryCode_congr hf hf' hbyte)
  rw [fat16GetFirstFirstCluster, fat16GetFirstFirstCluster, freeCluster, freeCluster, hcode]

lemma enodiskspace_neg : -enodiskspace < 0 := by decide

/-- `fat16_add_cluster_to_chain` fails before it changes anything, or succeeds. -/
lemma fat16AddClusterToChain_cases (hf : disk.FaultFree) {added : ℤ × FatPrivate × Disk}
    (h : fat16Driver.addClusterToChain v priv disk first = some added) :
    ((fat16GetFirstFirstCluster v priv disk).1 = 0 ∧ added = (-enodiskspace, priv, disk)) ∨
      ((fat16GetFirstFirstCluster v priv disk).1 ≠ 0 ∧ added.1 = 0 ∧ added.2.1 = priv ∧
        added.2.2.FaultFree) := by
  rw [fat16AddClusterToChain_eq] at h
  obtain ⟨last, -, rfl⟩ := Option.map_eq_some_iff.mp h
  have hframe : ∀ (d : Disk) (c val : ℕ), d.FaultFree →
      (fat16.writeFatEntry v d c val).2.FaultFree :=
    fun _ _ _ hd => (diskstreamerWrite_frame _ hd _).1
  dsimp only
  by_cases hzero : (fat16GetFirstFirstCluster v priv disk).1 = 0
  · rw [if_pos hzero]
    exact Or.inl ⟨hzero, rfl⟩
  · rw [if_neg hzero]
    refine Or.inr ⟨hzero, rfl, rfl, ?_⟩
    dsimp only
    exact hframe _ _ _ (hframe _ _ _ hf)

/-- The loop after its first addition. -/
lemma growLoop_succ {d : FatDriver} {count : ℕ} {added : ℤ × FatPrivate × Disk}
    (h : d.addClusterToChain v priv disk first = some added) :
    d.growLoop v first (count + 1) priv disk =
      if added.1 < 0 then some added else d.growLoop v first count added.2.1 added.2.2 := by
  rw [FatDriver.growLoop, h, Option.bind_some]

/-- The loop fails in a state without a free cluster. -/
lemma fat16GrowLoop_fails {count : ℕ} : ∀ {disk : Disk} {grown : ℤ × FatPrivate × Disk},
    disk.FaultFree → fat16Driver.growLoop v first count priv disk = some grown → grown.1 < 0 →
      grown.2.2.FaultFree ∧ (fat16GetFirstFirstCluster v priv grown.2.2).1 = 0 := by
  induction count with
  | zero =>
    intro disk grown _ h hneg
    cases h
    exact absurd hneg (lt_irrefl 0)
  | succ count ih =>
    intro disk grown hf h hneg
    obtain ⟨added, hadd, h⟩ := Option.bind_eq_some_iff.mp h
    rcases fat16AddClusterToChain_cases hf hadd with ⟨hnone, rfl⟩ | ⟨-, hzero, hpriv, hf'⟩
    · rw [if_pos enodiskspace_neg] at h
      cases h
      exact ⟨hf, hnone⟩
    · rw [hzero, if_neg (lt_irrefl 0), hpriv] at h
      exact ih hf' h hneg

/-- The loop fails at once when there is no free cluster. -/
lemma fat16GrowLoop_full (hf : disk.FaultFree) {count : ℕ} (hcount : count ≠ 0)
    (hnone : (fat16GetFirstFirstCluster v priv disk).1 = 0) {grown : ℤ × FatPrivate × Disk}
    (h : fat16Driver.growLoop v first count priv disk = some grown) :
    grown = (-enodiskspace, priv, disk) := by
  obtain ⟨count, rfl⟩ := Nat.exists_eq_succ_of_ne_zero hcount
  obtain ⟨added, hadd, h⟩ := Option.bind_eq_some_iff.mp h
  rcases fat16AddClusterToChain_cases hf hadd with ⟨-, rfl⟩ | ⟨hsome, -⟩
  · rw [if_pos enodiskspace_neg] at h
    exact (Option.some.inj h).symm
  · exact absurd hnone hsome

/-! ## The steps of a write -/

/-- The call is rejected, or the first of the clusters that it needs cannot be had. -/
def WriteRefused (v : FatVolume) (priv : FatPrivate) (disk : Disk) (filesize mode : ℕ)
    (size : ℤ) : Prop :=
  size = 0 ∨ mode &&& fileModeWrite = 0 ∨
    (clustersToAdd v filesize size ≠ 0 ∧ (fat16GetFirstFirstCluster v priv disk).1 = 0)

/-- The size in memory after step 2 of a write is another one. -/
lemma filesize_changes (item : FatDirectoryItem) (hsize : size ≠ 0) (hlow : -2 ^ 31 ≤ size)
    (hhigh : size < 2 ^ 31) :
    (item.setFilesize (u32 (item.filesize + size))).filesize ≠ item.filesize := by
  have hlt : item.filesize < 2 ^ 32 := u32le_lt _ _
  rw [item.filesize_setFilesize (u32_lt _)]
  simp only [u32]
  omega

/-- A write whose chain has grown is not refused, and does not keep the size. -/
lemma not_writeRefused_of_grown (hf : disk.FaultFree) {filesize mode : ℕ} (hsize : size ≠ 0)
    (hmode : mode &&& fileModeWrite ≠ 0) {grown : ℤ × FatPrivate × Disk}
    (hgrow : fat16Driver.growLoop v first (clustersToAdd v filesize size) priv disk = some grown)
    (hok : ¬ grown.1 < 0) : ¬ WriteRefused v priv disk filesize mode size := by
  rintro (hzero | hmode' | ⟨hcount, hnone⟩)
  · exact hsize hzero
  · exact hmode hmode'
  · rw [fat16GrowLoop_full hf hcount hnone hgrow] at hok
    exact hok enodiskspace_neg

lemma writeLoop_nonneg {k : FatKind} {calls : ℕ} : ∀ {disk : Disk} {c : ℕ} {res : ℤ} {p : ℕ}
    {size : ℤ}, 0 ≤ res → 0 ≤ (k.writeLoop v buf calls disk c res p size).1 := by
  induction calls with
  | zero => exact fun h => h
  | succ calls ih =>
    intro disk c res p size h
    rw [writeLoop]
    by_cases hdone : size ≤ 0
    · rw [if_pos hdone]
      exact h
    rw [if_neg hdone]
    simp only
    by_cases hend : k.endOfChain ≤ k.entryCode v disk c
    · rw [if_pos hend]
      exact h
    · rw [if_neg hend]
      exact ih (Int.natCast_nonneg _)

/-- A write that has got to its third step does not fail. -/
lemma writeData_nonneg {d : FatDriver} {last : ℕ} :
    0 ≤ (d.writeData v priv disk desc buf size last).res :=
  writeLoop_nonneg (Int.natCast_nonneg _)

/-- A failed write on the volume. -/
lemma fat16Write_keeps_iff (hf : disk.FaultFree) (hlow : -2 ^ 31 ≤ size) (hhigh : size < 2 ^ 31)
    {w : WriteResult} (h : fat16Write v priv disk desc buf size = some w) (hneg : w.res < 0) :
    WriteKeeps v disk w.disk desc.item.filesize w.desc.item.filesize ↔
      WriteRefused v priv disk desc.item.filesize desc.mode size := by
  by_cases hsize : size = 0
  · rw [fat16Write, FatDriver.write, if_pos hsize] at h
    cases h
    exact iff_of_true (WriteKeeps.refl v disk _) (Or.inl hsize)
  by_cases hmode : desc.mode &&& fileModeWrite = 0
  · rw [fat16Write, FatDriver.write, if_neg hsize, if_pos hmode] at h
    cases h
    exact iff_of_true (WriteKeeps.refl v disk _) (Or.inr (Or.inl hmode))
  rw [fat16Write_bind buf hsize hmode] at h
  obtain ⟨last, -, h⟩ := Option.bind_eq_some_iff.mp h
  obtain ⟨grown, hgrow, h⟩ := Option.bind_eq_some_iff.mp h
  by_cases hfail : grown.1 < 0
  · rw [if_pos hfail] at h
    cases h
    constructor
    · -- the state at the failure has no free cluster, and is the one before the write
      intro hkeeps
      obtain ⟨hf', hnone⟩ := fat16GrowLoop_fails hf hgrow hfail
      rw [getFirstFirstCluster_congr hf hf' hkeeps.byte_eq] at hnone
      refine Or.inr (Or.inr ⟨fun hcount => ?_, hnone⟩)
      rw [hcount] at hgrow
      cases hgrow
      exact absurd hfail (lt_irrefl 0)
    · rintro (hzero | hmode' | ⟨hcount, hnone⟩)
      · exact absurd hzero hsize
      · exact absurd hmode' hmode
      · rw [fat16GrowLoop_full hf hcount hnone hgrow]
        exact WriteKeeps.refl v disk _
  rw [if_neg hfail] at h
  obtain ⟨entry, -, h⟩ := Option.bind_eq_some_iff.mp h
  by_cases hstored : entry.1 ≤ 0
  · -- the entry was not stored, and the size in memory is the new one
    rw [if_pos hstored] at h
    cases h
    refine iff_of_false (fun hkeeps => ?_) (not_writeRefused_of_grown hf hsize hmode hgrow hfail)
    exact filesize_changes desc.item hsize hlow hhigh hkeeps.filesize_eq
  · rw [if_neg hstored] at h
    cases h
    exact absurd hneg (not_lt.mpr writeData_nonneg)

/-- **Writes that fail.**  On a volume without faults, a call of `fat16_write` that returns a
negative value leaves the volume and the size of the file in memory as they were if and only if
it was rejected, or needed clusters and did not find the first one. -/
theorem fat16_write_failed_iff (hkind : mt.kind = fat16) (hf : mt.disk.FaultFree)
    (hlow : -2 ^ 31 ≤ size) (hhigh : size < 2 ^ 31) {m m' : KMemory} {res : ℤ}
    {f' : FatOpenFile} {mt' : FatMount}
    (hrun : mt.fat16Write f buf size m = some ((res, f', mt'), m')) (hneg : res < 0) :
    WriteKeeps mt.volume mt.disk mt'.disk f.item.filesize f'.item.filesize ↔
      WriteRefused mt.volume mt.fatPrivate mt.disk f.item.filesize f.mode size := by
  rcases FatMount.ends_fat16Write hkind f buf size m _ _ hrun with
    ⟨w, hwrite, heq⟩ | ⟨grown, hsize, hmode, hgrow, hok, -, -, hitem⟩
  · cases heq
    exact fat16Write_keeps_iff hf hlow hhigh hwrite hneg
  · -- the parent directory could not be loaded
    simp only at hitem
    refine iff_of_false (fun hkeeps => ?_)
      (not_writeRefused_of_grown hf hsize hmode hgrow (Int.not_lt.mpr hok))
    rw [hitem] at hkeeps
    exact filesize_changes f.item hsize hlow hhigh hkeeps.filesize_eq

/-- A volume on which one cluster alone is marked as free, with the file `A` of 100 bytes in
cluster 3. -/
def crowdedVolume (free : ℕ) : FatMount :=
  { mountedVolume 1 with
    disk := diskWith fun a =>
      if a = 512 + 2 * free ∨ a = 513 + 2 * free then 0
      else if 512 ≤ a ∧ a < 1024 then 0xFF
      else if 1024 ≤ a ∧ a < 1056 then (fileItem 100).raw (a - 1024)
      else 0
    root := ⟨fun _ => fileItem 100, 1, 2⟩ }

/-- The file, opened for writing. -/
def crowdedFile : FatOpenFile where
  ptr := 0
  path := [⟨[0x41], 0, 0⟩]
  itemPtr := 0
  clonePtr := 0
  item := fileItem 100
  pos := 0
  mode := fileModeWrite

/-- 1500 bytes need three clusters more. -/
lemma crowded_write {free : ℕ} (buf : ℕ → UInt8) (m : KMemory)
    (hlast : 0xFFF8 ≤ fat16.fatEntry smallVolume (crowdedVolume free).disk 3)
    {res : ℤ} {priv' : FatPrivate} (hneg : res < 0)
    (hgrow : fat16Driver.growLoop smallVolume 3 3 (crowdedVolume free).fatPrivate
      (crowdedVolume free).disk = some (res, priv', disk')) :
    (crowdedVolume free).fat16Write crowdedFile buf 1500 m =
      some ((res, crowdedFile, { crowdedVolume free with disk := disk' }), m) := by
  have hfind := (isChain_singleton dataCluster_three.toOnVolume hlast).findLast_eq
    (diskWith_faultFree _) 0 0 rfl
  have hfirst : crowdedFile.item.firstCluster % 2 ^ 16 = 3 := by decide
  have hcount : clustersToAdd smallVolume crowdedFile.item.filesize 1500 = 3 := by decide
  have hfind' : fat16.findLastClusterOfChain (crowdedVolume free).volume (crowdedVolume free).disk
      (crowdedFile.item.firstCluster % 2 ^ 16) = some 3 := by
    rw [hfirst]
    exact hfind
  have hgrow' : fat16Driver.growLoop (crowdedVolume free).volume
      (crowdedFile.item.firstCluster % 2 ^ 16)
      (clustersToAdd (crowdedVolume free).volume crowdedFile.item.filesize 1500)
      (crowdedVolume free).fatPrivate (crowdedVolume free).disk = some (res, priv', disk') := by
    rw [hfirst]
    exact hcount.symm ▸ hgrow
  rw [FatMount.fat16Write, if_neg (by decide), if_neg (by decide)]
  simp only [hfind', hgrow']
  rw [if_pos hneg]
  rfl

/-- No cluster that the search tries is free. -/
theorem fat16_write_failed_iff_full : ∃ r m', (crowdedVolume 2).fat16Write crowdedFile
      (fun _ => 0x42) 1500 mountedMemory = some (r, m') ∧ r.1 < 0 ∧
    WriteKeeps smallVolume (crowdedVolume 2).disk r.2.2.disk 100 r.2.1.item.filesize := by
  have hf : (crowdedVolume 2).disk.FaultFree := diskWith_faultFree _
  have hlast : 0xFFF8 ≤ fat16.fatEntry smallVolume (crowdedVolume 2).disk 3 := by decide +kernel
  have hchain := (isChain_singleton dataCluster_three.toOnVolume hlast).linked
  have hfree : fat16.freeCluster smallVolume (crowdedVolume 2).disk 3 = none := by decide +kernel
  have hadd : fat16Driver.addClusterToChain smallVolume (crowdedVolume 2).fatPrivate
      (crowdedVolume 2).disk 3 =
        some (-enodiskspace, (crowdedVolume 2).fatPrivate, (crowdedVolume 2).disk) :=
    fat16AddClusterToChain_full hchain (by decide) (by decide) (by decide) hf hfree
  have hgrow := (@growLoop_succ _ _ _ _ _ 2 _ hadd).trans (if_pos enodiskspace_neg)
  have hrun := crowded_write (fun _ => 0x42) mountedMemory hlast enodiskspace_neg hgrow
  have hnone : (fat16GetFirstFirstCluster smallVolume (crowdedVolume 2).fatPrivate
      (crowdedVolume 2).disk).1 = 0 := by
    rw [fat16GetFirstFirstCluster, hfree]
    rfl
  exact ⟨_, _, hrun, enodiskspace_neg,
    (fat16_write_failed_iff rfl hf (by decide) (by decide) hrun enodiskspace_neg).mpr
      (Or.inr (Or.inr ⟨by decide, hnone⟩))⟩

/-- One cluster is free where three are needed: the call fails, and leaves that one in the chain
of the file. -/
theorem not_fat16_write_failed_partway : (crowdedVolume 5).disk.FaultFree ∧
    ∃ r m', (crowdedVolume 5).fat16Write crowdedFile (fun _ => 0x42) 1500 mountedMemory =
        some (r, m') ∧ r.1 < 0 ∧
      ¬ WriteKeeps smallVolume (crowdedVolume 5).disk r.2.2.disk 100 r.2.1.item.filesize := by
  have hf : (crowdedVolume 5).disk.FaultFree := diskWith_faultFree _
  have hlast : 0xFFF8 ≤ fat16.fatEntry smallVolume (crowdedVolume 5).disk 3 := by decide +kernel
  have hchain := (isChain_singleton dataCluster_three.toOnVolume hlast).linked
  have hfree : fat16.freeCluster smallVolume (crowdedVolume 5).disk 3 = some 5 := by
    decide +kernel
  let grown := fat16.setEntry smallVolume (fat16.setEntry smallVolume (crowdedVolume 5).disk 3 5) 5
    0xFFFF
  have hadd : fat16Driver.addClusterToChain smallVolume (crowdedVolume 5).fatPrivate
      (crowdedVolume 5).disk 3 = some (0, (crowdedVolume 5).fatPrivate, grown) :=
    fat16AddClusterToChain_free _ hchain (by decide) (by decide) (by decide) hf hfree (by decide)
      (by decide) (by decide)
  have hchain' := hchain.append (by decide) (show 5 < 256 ^ fat16.entrySize by decide)
    (by decide) (show fat16.endOfChain ≤ 0xFFFF by decide) (by decide)
  have hfull : fat16Driver.addClusterToChain smallVolume (crowdedVolume 5).fatPrivate grown 3 =
      some (-enodiskspace, (crowdedVolume 5).fatPrivate, grown) :=
    fat16AddClusterToChain_full hchain' (by decide) (by decide) (by decide)
      (FaultFree.setEntry (FaultFree.setEntry hf)) (by decide +kernel)
  have hgrow := (@growLoop_succ _ _ _ _ _ 1 _ hfull).trans (if_pos enodiskspace_neg)
  have hgrow' := (@growLoop_succ _ _ _ _ _ 2 _ hadd).trans ((if_neg (lt_irrefl 0)).trans hgrow)
  refine ⟨hf, _, _, crowded_write _ _ hlast enodiskspace_neg hgrow', enodiskspace_neg, ?_⟩
  intro hkeeps
  have hthree := hkeeps.fat 3 (by decide)
  exact absurd hthree (by decide +kernel)

end SerpaeOS
