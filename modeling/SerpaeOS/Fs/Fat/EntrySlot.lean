import SerpaeOS.Fs.Fat.PathWalk
import Mathlib.Data.List.GetD

/-!
# Where directory entries are stored

`write_directory_entry` looks for the entry of a path a second time.  It does not skip the volume
labels that `fat32_find_item_in_directory` skips, and takes the entries to lie one behind the other
on the disk, where they were read along the chain of clusters of the directory.
-/

namespace SerpaeOS

open Bytes Word

/-- A directory in memory, with the disk that it was read from and where its entries lay. -/
structure ReadDirectory where
  dir : FatDirectory
  disk : Disk
  slot : ℕ → ℤ

namespace FatKind

variable (k : FatKind) (v : FatVolume) (disk : Disk)

/-- Where a byte lies that is read from a chain of clusters, in steps of whole clusters. -/
def chainPos (cluster : ℤ) (offset : ℕ) : ℤ :=
  i32 (k.clusterPos v (k.getClusterForOffset v disk cluster offset)) +
    (offset % v.clusterBytes : ℕ)

/-- A directory that was read from the chain that starts with a cluster. -/
def chainDirectory (cluster : ℤ) (dir : FatDirectory) : ReadDirectory :=
  ⟨dir, disk, fun j => k.chainPos v disk cluster (j * itemSize)⟩

/-- The FAT16 root directory, which was read in one piece. -/
def areaDirectory (dir : FatDirectory) : ReadDirectory :=
  ⟨dir, disk, fun j => i32 (fat16RootSector v * v.sectorSize) + (j * itemSize : ℕ)⟩

/-- The root directory, as it is read when the volume is mounted. -/
inductive RootRead : FatKind → ReadDirectory → Prop
  | fat16 {disk₀ : Disk} {dir : FatDirectory}
      (hload : fat16GetRootDirectory v disk₀ = some (.ok dir)) :
      RootRead fat16 (areaDirectory v disk₀ dir)
  | fat32 {disk₀ : Disk} {dir : FatDirectory}
      (hload : fat32LoadRootDir v disk₀ = some (.ok dir)) :
      RootRead fat32 (fat32.chainDirectory v disk₀ v.rootCluster dir)

/-- The names lead from a directory through its subdirectories, which are read on the way. -/
inductive ReadsTo : ReadDirectory → List (List UInt8) → ReadDirectory → Prop
  | here (s : ReadDirectory) : ReadsTo s [] s
  | sub {s t : ReadDirectory} {dir : FatDirectory} {item : FatDirectoryItem} {name : List UInt8}
      {rest : List (List UInt8)} (hfind : k.findItemInDirectory s.dir name = some item)
      (hsub : item.attributeBits &&& fatFileSubdirectory ≠ 0)
      (hload : k.loadFatDirectory v disk item = some (.ok dir))
      (hrest : ReadsTo (k.chainDirectory v disk item.firstClusterInt dir) rest t) :
      ReadsTo s (name :: rest) t

/-- Whatever is stored as the entry of the path goes to the 32 bytes at a position, and no other
byte of the disk changes. -/
def OverwritesSlot (root : FatDirectory) (path : List (List UInt8)) (pos : ℤ) : Prop :=
  ∀ newItem : FatDirectoryItem, ∃ res disk',
    k.writeDirectoryEntry v disk root path newItem = some (res, disk') ∧
      (∀ a : ℕ, ¬ (pos ≤ a ∧ a < pos + itemSize) → disk'.byte a = disk.byte a) ∧
      ∀ j < itemSize, disk'.byte (pos.toNat + j) = newItem.raw j

end FatKind

namespace ReadDirectory

/-- The bytes of an entry are those of the disk. -/
structure Holds (s : ReadDirectory) (j : ℕ) : Prop where
  slot_nonneg : 0 ≤ s.slot j
  raw_eq : ∀ i < itemSize, (s.dir.item j).raw i = s.disk.byte ((s.slot j).toNat + i)

/-- The entry lies as far behind the first entry of the directory as there are entries, in front
of the first one of its name, and the device reads and writes its block. -/
structure InPlace (s : ReadDirectory) (disk : Disk) (name : List UInt8) (j : ℕ) : Prop where
  slot_eq : ∃ i, FirstNamed s.dir name i ∧ i32 (s.slot 0 + (i * itemSize : ℕ)) = s.slot j
  good : disk.GoodAt (s.slot j).toNat

/-- What a directory that was read from the disk satisfies.  An entry without a name may be one
behind the region of the FAT16 root directory, which nothing was read into. -/
structure Sound (v : FatVolume) (s : ReadDirectory) : Prop where
  base : s.slot 0 = i32 (s.dir.sectorPos * v.sectorSize)
  dvd : ∀ j, (itemSize : ℤ) ∣ s.slot j
  holds : ∀ j < s.dir.total.toNat, (s.dir.item j).fullRelativeFilename ≠ [] → s.Holds j

end ReadDirectory

variable {k : FatKind} {v : FatVolume} {disk : Disk} {cluster : ℤ} {dir : FatDirectory}
  {s t root : ReadDirectory} {name : List UInt8} {path : List (List UInt8)}
  {item : FatDirectoryItem} {i j : ℕ}

/-! ## What was read -/

lemma dvd_i32 {d : ℕ} (hd : d ∣ 2 ^ 32) {x : ℤ} (h : (d : ℤ) ∣ x) : (d : ℤ) ∣ i32 x := by
  have hpow : (d : ℤ) ∣ 2 ^ 32 := by exact_mod_cast hd
  rw [i32, Int.bmod_eq_self_sub_mul_bdiv]
  exact Int.dvd_sub h (Dvd.dvd.mul_right (by exact_mod_cast hpow) _)

namespace FatKind

lemma itemSize_dvd_clusterBytes (hsector : v.sectorSize = defaultSectorSize) :
    itemSize ∣ v.clusterBytes := by
  rw [FatVolume.clusterBytes, hsector]
  exact Dvd.dvd.mul_left (by decide) _

/-- An entry lies in one cluster. -/
lemma itemSize_mod_add_le (hsector : v.sectorSize = defaultSectorSize) (j : ℕ) :
    j * itemSize % v.clusterBytes + itemSize ≤ v.clusterBytes := by
  have hB : 0 < v.clusterBytes := v.clusterBytes_pos
  obtain ⟨m, hm⟩ := itemSize_dvd_clusterBytes hsector
  have hlt : j % m < m := Nat.mod_lt j (Nat.pos_of_mul_pos_left (hm ▸ hB))
  have hle : itemSize * (j % m + 1) ≤ itemSize * m := Nat.mul_le_mul_left _ hlt
  rwa [hm, Nat.mul_comm j, Nat.mul_mod_mul_left, ← Nat.mul_succ]

/-- Positions in one cluster follow each other. -/
lemma chainPos_add {offset n : ℕ} (hstart : offset % v.clusterBytes + n < v.clusterBytes) :
    k.chainPos v disk cluster (offset + n) = k.chainPos v disk cluster offset + n := by
  have hB : 0 < v.clusterBytes := v.clusterBytes_pos
  have hsplit : offset + n =
      v.clusterBytes * (offset / v.clusterBytes) + (offset % v.clusterBytes + n) := by
    rw [← Nat.add_assoc, Nat.div_add_mod]
  have hdiv : (offset + n) / v.clusterBytes = offset / v.clusterBytes := by
    rw [hsplit, Nat.mul_add_div hB, Nat.div_eq_of_lt hstart, Nat.add_zero]
  have hmod : (offset + n) % v.clusterBytes = offset % v.clusterBytes + n := by
    rw [hsplit, Nat.mul_add_mod, Nat.mod_eq_of_lt hstart]
  rw [chainPos, chainPos, getClusterForOffset, getClusterForOffset, hdiv, hmod]
  push_cast
  ring

lemma chainPos_zero : k.chainPos v disk cluster 0 = i32 (k.clusterPos v cluster) := by
  rw [chainPos, getClusterForOffset, Nat.zero_mod, Nat.zero_div, Nat.cast_zero, add_zero]
  rfl

lemma itemSize_dvd_chainPos (hsector : v.sectorSize = defaultSectorSize) (j : ℕ) :
    (itemSize : ℤ) ∣ k.chainPos v disk cluster (j * itemSize) := by
  refine Int.dvd_add (dvd_i32 (by decide) ?_) ?_
  · rw [clusterPos, hsector]
    exact Dvd.dvd.mul_left (by decide) _
  · exact_mod_cast (Nat.dvd_mod_iff (itemSize_dvd_clusterBytes hsector)).mpr
      (Nat.dvd_mul_left itemSize j)

/-- A read that succeeds delivers the bytes at their positions in the chain. -/
lemma readInternalLoop_of_succeeds : ∀ {calls offset total : ℕ}, total < calls →
    offset % v.clusterBytes = 0 →
      (k.readInternalLoop v disk cluster calls offset total).1 = 0 → ∀ i < total,
        0 ≤ k.chainPos v disk cluster (offset + i) ∧
          (k.readInternalLoop v disk cluster calls offset total).2.getD i 0 =
            disk.byte (k.chainPos v disk cluster (offset + i)).toNat := by
  intro calls
  induction calls with
  | zero => exact fun hlt => absurd hlt (by omega)
  | succ calls ih =>
    intro offset total hlt hstart hres i hi
    have hB : 0 < v.clusterBytes := v.clusterBytes_pos
    rw [readInternalLoop] at hres ⊢
    simp only at hres ⊢
    by_cases hneg : k.getClusterForOffset v disk cluster offset < 0
    · rw [if_pos hneg] at hres
      exact absurd hres hneg.ne
    rw [if_neg hneg] at hres ⊢
    obtain ⟨n, hn⟩ : ∃ n, (if total > v.clusterBytes then v.clusterBytes else total) = n := ⟨_, rfl⟩
    have hpos : i32 (k.clusterPos v (k.getClusterForOffset v disk cluster offset) +
        (offset % v.clusterBytes : ℕ)) = k.chainPos v disk cluster offset := by
      rw [chainPos, hstart, Nat.cast_zero, add_zero, add_zero]
    rw [hn, hpos] at hres ⊢
    by_cases hread : (diskstreamerRead disk (k.chainPos v disk cluster offset) n).1 ≠ 0
    · rw [if_pos hread] at hres
      exact absurd hres hread
    rw [if_neg hread] at hres ⊢
    obtain ⟨hnonneg, hbytes⟩ := diskstreamerRead_of_succeeds (not_not.mp hread)
    -- the bytes of this step
    have hfirst : ∀ i < n, 0 ≤ k.chainPos v disk cluster (offset + i) ∧
        (diskstreamerRead disk (k.chainPos v disk cluster offset) n).2.1.getD i 0 =
          disk.byte (k.chainPos v disk cluster (offset + i)).toNat := by
      intro i hi
      have hin : offset % v.clusterBytes + i < v.clusterBytes := by
        split_ifs at hn
        · omega
        · omega
      rw [chainPos_add hin, hbytes, getD_slice hi, Int.toNat_add hnonneg (Int.natCast_nonneg i)]
      exact ⟨by omega, rfl⟩
    by_cases hmore : total - n > 0
    · rw [if_pos hmore] at hres ⊢
      have hfull : n = v.clusterBytes := by
        split_ifs at hn
        · exact hn.symm
        · omega
      rcases Nat.lt_or_ge i n with hin | hin
      · rw [List.getD_append _ _ _ _ (by rwa [hbytes, length_slice])]
        exact hfirst i hin
      · -- the byte belongs to a later step, which starts at the next cluster
        have hnext : (offset + n) % v.clusterBytes = 0 := by
          rw [hfull, Nat.add_mod_right, hstart]
        have hrest := ih (by omega) hnext hres (i - n) (by omega)
        rw [Nat.add_assoc, Nat.add_sub_cancel' hin] at hrest
        rw [List.getD_append_right _ _ _ _ (by rwa [hbytes, length_slice]), hbytes, length_slice]
        exact hrest
    · rw [if_neg hmore]
      exact hfirst i (by omega)

/-- An item of a directory in a chain has the bytes at its slot. -/
lemma loadDirectory_sound (hsector : v.sectorSize = defaultSectorSize)
    (h : k.loadDirectory v disk cluster = some (.ok dir)) :
    (k.chainDirectory v disk cluster dir).Sound v := by
  obtain ⟨total, -, h⟩ := Option.bind_eq_some_iff.mp h
  simp only at h
  by_cases hread : (k.readInternal v disk cluster 0 (total.toNat * itemSize)).1 ≠ 0
  · rw [if_pos hread] at h
    cases h
  rw [if_neg hread] at h
  obtain rfl := Except.ok.inj (Option.some.inj h)
  refine ⟨?_, itemSize_dvd_chainPos hsector, fun j hj _ => ?_⟩
  · exact (congrArg (k.chainPos v disk cluster) (Nat.zero_mul _)).trans chainPos_zero
  · have hbytes := readInternalLoop_of_succeeds (Nat.lt_succ_self _) (Nat.zero_mod _)
      (not_not.mp hread)
    have hlast : (j + 1) * itemSize ≤ total.toNat * itemSize := Nat.mul_le_mul_right _ hj
    rw [Nat.succ_mul] at hlast
    have hin := itemSize_mod_add_le hsector j
    have hpos : ∀ i < itemSize, 0 ≤ k.chainPos v disk cluster (j * itemSize) + i ∧
        (itemsOf (k.readInternal v disk cluster 0 (total.toNat * itemSize)).2 j).raw i =
          disk.byte (k.chainPos v disk cluster (j * itemSize) + i).toNat := by
      intro i hi
      have h := hbytes (j * itemSize + i) (by omega)
      rwa [Nat.zero_add, chainPos_add (by omega)] at h
    have hnonneg := (hpos 0 (by decide)).1
    rw [Nat.cast_zero, add_zero] at hnonneg
    refine ⟨hnonneg, fun i hi => (hpos i hi).2.trans ?_⟩
    rw [Int.toNat_add hnonneg (Int.natCast_nonneg i)]
    rfl

/-- An entry without bytes has no name. -/
lemma fullRelativeFilename_of_zero (h : ∀ i < itemSize, item.raw i = 0) :
    item.fullRelativeFilename = [] := by
  have hhead : item.filename = 0 :: slice item.raw 1 7 := by
    rw [FatDirectoryItem.filename, show 8 = 1 + 7 from rfl, slice_add]
    exact congrArg (· :: _) (h 0 (by decide))
  rw [FatDirectoryItem.fullRelativeFilename, hhead, FatDirectoryItem.toProperString,
    List.takeWhile_cons_of_neg (by decide), if_neg]
  · rfl
  · exact fun hext => hext.1 (h 8 (by decide))

lemma rootDirectory_sound (hsector : v.sectorSize = defaultSectorSize)
    (h : fat16GetRootDirectory v disk = some (.ok dir)) : (areaDirectory v disk dir).Sound v := by
  obtain ⟨total, -, h⟩ := Option.bind_eq_some_iff.mp h
  simp only at h
  by_cases hread : (diskstreamerRead disk (i32 (fat16RootSector v * v.sectorSize))
      (v.rootDirEntries * itemSize)).1 ≠ 0
  · rw [if_pos hread] at h
    cases h
  rw [if_neg hread] at h
  obtain rfl := Except.ok.inj (Option.some.inj h)
  obtain ⟨hnonneg, hbytes⟩ := diskstreamerRead_of_succeeds (not_not.mp hread)
  refine ⟨?_, fun j => ?_, fun j _ hname => ?_⟩
  · simp only [areaDirectory, Nat.zero_mul, Nat.cast_zero, add_zero]
  · refine Int.dvd_add (dvd_i32 (by decide) ?_) ?_
    · rw [hsector]
      exact Dvd.dvd.mul_left (by decide) _
    · exact_mod_cast Nat.dvd_mul_left itemSize j
  · -- behind the entries that were read the items have no name
    have hlt : j < v.rootDirEntries := by
      by_contra hge
      have hle : v.rootDirEntries * itemSize ≤ j * itemSize :=
        Nat.mul_le_mul_right _ (Nat.not_lt.mp hge)
      refine hname (fullRelativeFilename_of_zero fun i _ => ?_)
      have hzero : (itemsOf (diskstreamerRead disk (i32 (fat16RootSector v * v.sectorSize))
          (v.rootDirEntries * itemSize)).2.1 j).raw i = 0 := by
        rw [itemsOf, hbytes]
        exact List.getD_eq_default _ _ (by rw [length_slice]; omega)
      exact hzero
    have hle : (j + 1) * itemSize ≤ v.rootDirEntries * itemSize := Nat.mul_le_mul_right _ hlt
    rw [Nat.succ_mul] at hle
    refine ⟨Int.add_nonneg hnonneg (Int.natCast_nonneg _), fun i hi => ?_⟩
    have hget : (itemsOf (diskstreamerRead disk (i32 (fat16RootSector v * v.sectorSize))
        (v.rootDirEntries * itemSize)).2.1 j).raw i =
          disk.byte ((i32 (fat16RootSector v * v.sectorSize)).toNat + (j * itemSize + i)) := by
      rw [itemsOf, hbytes]
      exact getD_slice (by omega)
    have hslot : (i32 (fat16RootSector v * v.sectorSize) + (j * itemSize : ℕ)).toNat =
        (i32 (fat16RootSector v * v.sectorSize)).toNat + j * itemSize := by
      rw [Int.toNat_add hnonneg (Int.natCast_nonneg _), Int.toNat_natCast]
    rw [← Nat.add_assoc, ← hslot] at hget
    exact hget

lemma RootRead.sound (hsector : v.sectorSize = defaultSectorSize) (h : RootRead v k s) :
    s.Sound v := by
  cases h with
  | fat16 hload => exact rootDirectory_sound hsector hload
  | fat32 hload => exact loadDirectory_sound hsector hload

/-- A directory found is loaded from its chain. -/
lemma loadFatDirectory_sound (hsector : v.sectorSize = defaultSectorSize)
    (h : k.loadFatDirectory v disk item = some (.ok dir)) :
    (k.chainDirectory v disk item.firstClusterInt dir).Sound v := by
  rw [loadFatDirectory] at h
  by_cases hsub : item.attributeBits &&& fatFileSubdirectory = 0
  · rw [if_pos hsub] at h
    cases h
  · rw [if_neg hsub] at h
    exact loadDirectory_sound hsector h

lemma ReadsTo.sound (hsector : v.sectorSize = defaultSectorSize) (h : k.ReadsTo v disk s path t) :
    s.Sound v → t.Sound v := by
  induction h with
  | here => exact fun hs => hs
  | sub _ _ hload _ ih => exact fun _ => ih (loadFatDirectory_sound hsector hload)

/-! ## Following the path -/

lemma ReadsTo.eq_of_nil (h : k.ReadsTo v disk s [] t) : t = s := by
  cases h
  rfl

lemma ReadsTo.dirsTo (h : k.ReadsTo v disk s path t) : k.DirsTo v disk s.dir path t.dir := by
  induction h with
  | here s => exact .here s.dir
  | sub hfind hsub hload _ ih => exact .sub ⟨_, hfind, hsub, hload⟩ ih

/-- A path that leads from a directory to a file leads to the directory of the file. -/
lemma exists_readsTo_of_loop (hpath : path ≠ []) : ∀ {s : ReadDirectory},
    k.getDirectoryEntryLoop v disk (some (.directory (.ok s.dir))) path =
      some (some (.file item)) →
    ∃ t, k.ReadsTo v disk s path.dropLast t ∧
      k.findItemInDirectory t.dir (path.getLastD []) = some item := by
  induction path with
  | nil => exact absurd rfl hpath
  | cons name rest ih =>
    intro s h
    rw [getDirectoryEntryLoop] at h
    obtain ⟨found, hfound, h⟩ := Option.bind_eq_some_iff.mp h
    rw [findFatItem] at hfound
    rcases hfind : k.findItemInDirectory s.dir name with _ | entry
    · -- the loop goes on from a null pointer, or returns it
      rw [hfind] at hfound
      obtain rfl := Option.some.inj hfound
      cases rest with
      | nil => cases h
      | cons => cases h
    rw [hfind] at hfound
    obtain ⟨next, hnext, rfl⟩ := Option.map_eq_some_iff.mp hfound
    rw [newFatItem] at hnext
    by_cases hsub : entry.attributeBits &&& fatFileSubdirectory ≠ 0
    · rw [if_pos hsub] at hnext
      obtain ⟨loaded, hload, rfl⟩ := Option.map_eq_some_iff.mp hnext
      cases rest with
      | nil => cases h
      | cons name' rest =>
        -- a directory that could not be loaded is a null pointer to the next round
        cases loaded with
        | error => cases h
        | ok dir =>
          obtain ⟨t, hreads, hlast⟩ := ih (List.cons_ne_nil _ _)
            (s := k.chainDirectory v disk entry.firstClusterInt dir) h
          exact ⟨t, .sub hfind hsub hload hreads, hlast⟩
    · rw [if_neg hsub] at hnext
      obtain rfl := Option.some.inj hnext
      cases rest with
      | nil =>
        cases h
        exact ⟨s, .here s, hfind⟩
      | cons => cases h

/-- The call begins as its loop goes on. -/
lemma getDirectoryEntry_eq_loop (h : k.getDirectoryEntry v disk root.dir path =
    some (some (.file item))) : path ≠ [] ∧
      k.getDirectoryEntryLoop v disk (some (.directory (.ok root.dir))) path =
        some (some (.file item)) := by
  cases path with
  | nil => cases h
  | cons name rest =>
    obtain ⟨found, hfound, h⟩ := Option.bind_eq_some_iff.mp h
    refine ⟨List.cons_ne_nil _ _, ?_⟩
    rw [getDirectoryEntryLoop, hfound, Option.bind_some]
    cases found with
    | none => cases h
    | some item => exact h

lemma DirsTo.getDirectoryEntryLoop {d d' : FatDirectory} (h : k.DirsTo v disk d path d') :
    k.getDirectoryEntryLoop v disk (some (.directory (.ok d))) path =
      some (some (.directory (.ok d'))) := by
  induction h with
  | here => rfl
  | sub hsub _ ih => rw [FatKind.getDirectoryEntryLoop, hsub.findFatItem, Option.bind_some, ih]

lemma DirsTo.getDirectoryEntry {d d' : FatDirectory} (hpath : path ≠ [])
    (h : k.DirsTo v disk d path d') :
    k.getDirectoryEntry v disk d path = some (some (.directory (.ok d'))) := by
  cases h with
  | here => exact absurd rfl hpath
  | sub hsub hrest =>
    rw [FatKind.getDirectoryEntry, hsub.findFatItem, Option.bind_some]
    exact hrest.getDirectoryEntryLoop

/-- The parent directory of a path is the one that the path leads to. -/
lemma DirsTo.getParentDir {d d' : FatDirectory} (hpath : path ≠ [])
    (h : k.DirsTo v disk d path.dropLast d') :
    k.getParentDir v disk d path = some (some (.directory (.ok d'))) := by
  match path, hpath, h with
  | [_], _, h =>
    cases h
    rfl
  | name :: next :: rest, _, h => exact h.getDirectoryEntry (List.cons_ne_nil _ _)

/-! ## Storing the entry -/

/-- The entry of a path is stored where the first one of its name would lie if the directory lay
in one piece. -/
lemma DirsTo.writeDirectoryEntry {d : FatDirectory} (h : k.DirsTo v disk d path.dropLast dir)
    (hpath : path ≠ []) (hfirst : FirstNamed dir (path.getLastD []) i)
    (hname : 0 ∉ path.getLastD []) (newItem : FatDirectoryItem) :
    k.writeDirectoryEntry v disk d path newItem = some (diskstreamerWrite disk
      (i32 (i32 (dir.sectorPos * v.sectorSize) + (i * itemSize : ℕ)))
      (slice newItem.raw 0 itemSize)) := by
  rw [FatKind.writeDirectoryEntry, entryLocation, h.getParentDir hpath, Option.bind_some]
  simp only [hfirst.entryIndex_eq hname, Option.map_some, i32_u32, i32_add_i32, Nat.cast_mul]

/-- Items are always found at a position after they were written, and no other byte changes, if and
only if they are written there, in a block without faults. -/
lemma writes_slot_iff {pos : ℕ} {dest : ℤ} (hdvd : itemSize ∣ pos) :
    (∀ item : FatDirectoryItem,
      (∀ a : ℕ, ¬ (pos ≤ a ∧ a < pos + itemSize) →
        (diskstreamerWrite disk dest (slice item.raw 0 itemSize)).2.byte a = disk.byte a) ∧
      ∀ j < itemSize, (diskstreamerWrite disk dest (slice item.raw 0 itemSize)).2.byte (pos + j) =
        item.raw j) ↔ dest = pos ∧ disk.GoodAt pos := by
  have hblock : ∀ j < itemSize, (pos + j) / defaultSectorSize = pos / defaultSectorSize := by
    obtain ⟨m, rfl⟩ := hdvd
    intro j hj
    simp only [itemSize, defaultSectorSize] at hj ⊢
    omega
  constructor
  · intro h
    -- what is stored is not the same for two items that differ in each byte
    have hdiffer : ∀ j < itemSize,
        (diskstreamerWriteLoop disk dest (slice (fun _ => 0) 0 itemSize)).byte (pos + j) ≠
          (diskstreamerWriteLoop disk dest (slice (fun _ => 1) 0 itemSize)).byte (pos + j) := by
      intro j hj heq
      have hzero := (h ⟨fun _ => 0⟩).2 j hj
      have hone := (h ⟨fun _ => 1⟩).2 j hj
      exact absurd (show (0 : UInt8) = 1 from (hzero.symm.trans heq).trans hone) (by decide)
    have hrange : ∀ j < itemSize, dest ≤ (pos + j : ℕ) ∧ (pos + j : ℕ) < dest + itemSize := by
      intro j hj
      by_contra hout
      refine hdiffer j hj (((Disk.EqualOutside.refl dest (dest + itemSize) disk).writeLoop _ ?_
        (le_refl _) ?_).byte_eq _ hout)
      · rw [length_slice, length_slice]
      · rw [length_slice]
    have hdest : dest = pos := by
      have h0 := hrange 0 (by decide)
      have h31 := hrange 31 (by decide)
      simp only [itemSize] at h0 h31
      omega
    subst hdest
    refine ⟨rfl, ?_⟩
    -- with a fault the second byte takes the first one with it
    by_contra hbad
    have hsplit : ∀ c : UInt8,
        slice (fun _ => c) 0 itemSize = c :: c :: slice (fun _ => c) 2 30 := fun _ => rfl
    have hlen : (slice (fun _ => 0) 2 30).length = (slice (fun _ => 1) 2 30).length := rfl
    have hfirst := hdiffer 0 (by decide)
    rw [hsplit, hsplit, Nat.add_zero] at hfirst
    exact hfirst ((diskstreamerWriteLoop_of_not_goodAt hbad (hblock 1 (by decide)) hlen).byte_eq pos
      (by omega))
  · rintro ⟨rfl, hgood⟩ item
    have hwrite : (diskstreamerWrite disk pos (slice item.raw 0 itemSize)).2 =
        { disk with byte := store disk.byte pos (slice item.raw 0 itemSize) } := by
      simp only [diskstreamerWrite]
      refine diskstreamerWriteLoop_of_goodAt pos _ fun x hx hx' => ?_
      rw [length_slice] at hx'
      have hsame := hblock (x - pos) (by omega)
      rw [Nat.add_sub_cancel' hx] at hsame
      exact ⟨by rw [hsame]; exact hgood.read_ok, by rw [hsame]; exact hgood.write_ok⟩
    rw [hwrite]
    refine ⟨fun a ha => store_of_lt ?_, fun j hj => ?_⟩
    · rw [length_slice]
      omega
    · exact (store_add (by rwa [length_slice])).trans ((getD_slice hj).trans (by rw [Nat.zero_add]))

/-- Storing the entry of a path overwrites the slot of an entry of its directory if and only if that
entry is in place. -/
lemma ReadsTo.overwritesSlot_iff (h : k.ReadsTo v disk s path.dropLast t) (hsound : t.Sound v)
    (hpath : path ≠ []) (hname : 0 ∉ path.getLastD [])
    (hfind : k.FindsEntry t.dir (path.getLastD []) j) (hslot : 0 ≤ t.slot j) :
    k.OverwritesSlot v disk s.dir path (t.slot j) ↔ t.InPlace disk (path.getLastD []) j := by
  obtain ⟨i, -, hfirst⟩ := hfind.exists_firstNamed
  have hwrite := h.dirsTo.writeDirectoryEntry hpath hfirst hname
  obtain ⟨pos, hpos⟩ := Int.eq_ofNat_of_zero_le hslot
  have hdvd : itemSize ∣ pos := by
    have := hsound.dvd j
    rw [hpos] at this
    exact_mod_cast this
  rw [← hsound.base] at hwrite
  rw [hpos]
  constructor
  · intro hover
    obtain ⟨hdest, hgood⟩ := (writes_slot_iff hdvd).mp fun newItem => by
      obtain ⟨res, disk', hstored, houtside, hinside⟩ := hover newItem
      obtain rfl := congrArg Prod.snd (Option.some.inj ((hwrite newItem).symm.trans hstored))
      exact ⟨fun a ha => houtside a (by exact_mod_cast ha), hinside⟩
    refine ⟨⟨i, hfirst, hdest.trans hpos.symm⟩, ?_⟩
    rw [hpos]
    exact hgood
  · rintro ⟨⟨i', hfirst', hdest⟩, hgood⟩ newItem
    obtain rfl : i = i' := Option.some.inj
      ((hfirst.entryIndex_eq hname).symm.trans (hfirst'.entryIndex_eq hname))
    rw [hpos] at hdest hgood
    obtain ⟨houtside, hinside⟩ := (writes_slot_iff hdvd).mpr ⟨hdest, hgood⟩ newItem
    exact ⟨_, _, hwrite newItem, fun a ha => houtside a (by exact_mod_cast ha), hinside⟩

end FatKind

open FatKind

/-- **Where an entry is stored.**  A path that `fat16_open` or `fat32_open` resolves to a file leads
to an entry of a directory that was read from a slot on the disk.  What `write_directory_entry`
stores for the path overwrites that slot, and no other byte, if and only if the entry is in
place. -/
theorem write_directory_entry_slot_iff (hsector : v.sectorSize = defaultSectorSize)
    (hroot : RootRead v k root) (hparts : ∀ part ∈ path, part ≠ [] ∧ 0 ∉ part)
    (hopen : k.getDirectoryEntry v disk root.dir path = some (some (.file item))) :
    ∃ t j, k.ReadsTo v disk root path.dropLast t ∧ k.FindsEntry t.dir (path.getLastD []) j ∧
      t.dir.item j = item ∧ t.Holds j ∧
      (k.OverwritesSlot v disk root.dir path (t.slot j) ↔
        t.InPlace disk (path.getLastD []) j) := by
  obtain ⟨hpath, hloop⟩ := getDirectoryEntry_eq_loop hopen
  obtain ⟨t, hreads, hitem⟩ := exists_readsTo_of_loop hpath hloop
  obtain ⟨j, hfind, rfl⟩ := findItem_iff.mp hitem
  have hlast : path.getLastD [] ∈ path := by
    rw [List.getLastD_eq_getLast?, List.getLast?_eq_some_getLast hpath]
    exact List.getLast_mem hpath
  obtain ⟨hne, hname⟩ := hparts _ hlast
  have hsound := hreads.sound hsector (hroot.sound hsector)
  have hnamed := (istrncmp_eq_zero_iff_of_lt (t.dir.item j).zero_notMem_fullRelativeFilename hname
    (lt_of_le_of_lt (t.dir.item j).length_fullRelativeFilename_le (by decide))).mp hfind.named
  have hholds : t.Holds j := hsound.holds j hfind.lt fun hempty => by
    rw [hempty] at hnamed
    exact hne (List.map_eq_nil_iff.mp hnamed.symm)
  exact ⟨t, j, hreads, hfind, rfl, hholds,
    hreads.overwritesSlot_iff hsound hpath hname hfind hholds.slot_nonneg⟩

/-- The root directory of the volume with the file `A`, which is its first entry. -/
def oneFileRoot : FatDirectory := ⟨itemsOf (slice oneFileDisk.byte 1024 512), 1, 2⟩

lemma oneFileRoot_load :
    fat16GetRootDirectory smallVolume oneFileDisk = some (.ok oneFileRoot) := by
  have hroot : RootDirectory smallVolume oneFileDisk 1 :=
    ⟨⟨by decide, by decide⟩, by decide, by decide⟩
  exact hroot.load_eq (diskWith_faultFree _)

/-- The entry of a file found first in its directory under its name is found. -/
lemma getDirectoryEntry_of_findsEntry {dir : FatDirectory} (h : k.FindsEntry dir name j)
    (hfile : (dir.item j).attributeBits &&& fatFileSubdirectory = 0) :
    k.getDirectoryEntry v disk dir [name] = some (some (.file (dir.item j))) := by
  have hitem := findItem_iff.mpr ⟨j, h, rfl⟩
  rw [getDirectoryEntry, findFatItem]
  simp only [hitem, newFatItem]
  rw [if_neg (not_not.mpr hfile)]
  rfl

/-- The file `A` at the beginning of a FAT16 root directory. -/
theorem write_directory_entry_slot_iff_oneFile :
    fat16.OverwritesSlot smallVolume oneFileDisk oneFileRoot [[0x41]] 1024 := by
  have hnamed : istrncmp (oneFileRoot.item 0).fullRelativeFilename [0x41] maxPath = 0 := by
    decide +kernel
  have hfirst : ∀ i < 0, istrncmp (oneFileRoot.item i).fullRelativeFilename [0x41] maxPath ≠ 0 :=
    fun i hi => absurd hi (Nat.not_lt_zero i)
  have hfinds : fat16.FindsEntry oneFileRoot [0x41] 0 :=
    ⟨by decide, rfl, hnamed, fun i hi => absurd hi (Nat.not_lt_zero i)⟩
  have hfile : (oneFileRoot.item 0).attributeBits &&& fatFileSubdirectory = 0 := by decide +kernel
  have hopen : fat16.getDirectoryEntry smallVolume oneFileDisk oneFileRoot [[0x41]] =
      some (some (.file (oneFileRoot.item 0))) := getDirectoryEntry_of_findsEntry hfinds hfile
  obtain ⟨t, j, hreads, hfind, -, -, hiff⟩ :=
    write_directory_entry_slot_iff rfl (.fat16 oneFileRoot_load) (by decide) hopen
  obtain rfl := hreads.eq_of_nil
  obtain rfl : j = 0 := Nat.lt_one_iff.mp hfind.lt
  have hslot : (areaDirectory smallVolume oneFileDisk oneFileRoot).slot 0 = 1024 := by decide
  have hplace : (areaDirectory smallVolume oneFileDisk oneFileRoot).InPlace oneFileDisk [0x41] 0 :=
    ⟨⟨0, ⟨by decide, hnamed, hfirst⟩, by decide⟩, ⟨rfl, rfl⟩⟩
  exact hslot ▸ hiff.mpr hplace

/-- A FAT32 root directory with the volume label `A` and the file `A` behind it. -/
def labelledDisk : Disk :=
  diskWith fun a => if a = 1035 then 0x08 else if a = 1056 then 0x41 else oneFileDisk.byte a

def labelledRoot : FatDirectory := ⟨itemsOf (slice labelledDisk.byte 1024 64), 2, 2⟩

lemma labelledRoot_load : fat32LoadRootDir smallVolume labelledDisk = some (.ok labelledRoot) := by
  let e : ℕ → FatDirectoryItem := fun i =>
    ⟨fun j => labelledDisk.byte (2 * smallVolume.sectorSize + i * itemSize + j)⟩
  have hterm : Terminated e 2 := ⟨by decide, by decide⟩
  have hlive : liveCount e 2 = 2 := by decide
  have hload := @loadDirectory_within fat32 smallVolume labelledDisk 2 2 2 e (fun _ => rfl)
    (by decide) (by decide) (fun i _ => rfl) hterm (by decide)
  rw [hlive] at hload
  exact hload

/-- The file is opened, and what is stored for it overwrites the label. -/
theorem not_write_directory_entry_slot_label :
    RootRead smallVolume fat32 (fat32.chainDirectory smallVolume labelledDisk 2 labelledRoot) ∧
      fat32.FindsEntry labelledRoot [0x41] 1 ∧
      fat32.getDirectoryEntry smallVolume labelledDisk labelledRoot [[0x41]] =
        some (some (.file (labelledRoot.item 1))) ∧
      ¬ fat32.OverwritesSlot smallVolume labelledDisk labelledRoot [[0x41]]
        ((fat32.chainDirectory smallVolume labelledDisk 2 labelledRoot).slot 1) := by
  have hnamed : ∀ i < 2,
      istrncmp (labelledRoot.item i).fullRelativeFilename [0x41] maxPath = 0 := by decide +kernel
  have hlabel : ∀ i < 1, (labelledRoot.item i).Label := by decide +kernel
  have hfinds : fat32.FindsEntry labelledRoot [0x41] 1 :=
    ⟨by decide, by decide +kernel, hnamed 1 (by decide),
      fun i hi => Or.inl (decide_eq_true (hlabel i hi))⟩
  have hfile : (labelledRoot.item 1).attributeBits &&& fatFileSubdirectory = 0 := by decide +kernel
  refine ⟨.fat32 labelledRoot_load, hfinds, getDirectoryEntry_of_findsEntry hfinds hfile, ?_⟩
  have hfirst : FirstNamed labelledRoot [0x41] 0 :=
    ⟨by decide, hnamed 0 (by decide), fun i hi => absurd hi (Nat.not_lt_zero i)⟩
  intro hover
  obtain ⟨res, disk', hstored, -, hinside⟩ := hover ⟨fun _ => 0x42⟩
  have hf : labelledDisk.FaultFree := diskWith_faultFree _
  have hdirs : fat32.DirsTo smallVolume labelledDisk labelledRoot [[0x41]].dropLast labelledRoot :=
    .here labelledRoot
  have hwrite := hdirs.writeDirectoryEntry (by decide) hfirst (by decide) ⟨fun _ => 0x42⟩
  have hdest : i32 (i32 (labelledRoot.sectorPos * smallVolume.sectorSize) + (0 * itemSize : ℕ)) =
      (1024 : ℕ) := by decide
  rw [hdest, diskstreamerWrite_ok hf] at hwrite
  obtain rfl := congrArg Prod.snd (Option.some.inj (hwrite.symm.trans hstored))
  exact absurd (hinside 0 (by decide)) (by decide +kernel)

end SerpaeOS
