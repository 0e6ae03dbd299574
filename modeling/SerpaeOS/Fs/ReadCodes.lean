import SerpaeOS.Fs.FileOps

/-!
# Result codes of reading

The drivers pass the number of a cluster and an error code in the same variable.  A cluster
number that is negative as an `int` is taken for an error code, and `fread` returns it.
-/

namespace SerpaeOS

open Bytes Word Prog

/-- A result that is not an error, or a failed transfer, or a chain that ends too early. -/
def IsReadCode (res : ℤ) : Prop := 0 ≤ res ∨ res = -eio ∨ res = -etimedout

instance (res : ℤ) : Decidable (IsReadCode res) := inferInstanceAs (Decidable (_ ∨ _))

lemma diskstreamerReadLoop_code (disk : Disk) (calls : ℕ) : ∀ (pos : ℤ) (total : ℕ),
    (diskstreamerReadLoop disk calls pos total).1 = 0 ∨
      (diskstreamerReadLoop disk calls pos total).1 = -etimedout := by
  induction calls with
  | zero => exact fun pos total => Or.inl rfl
  | succ calls ih =>
    intro pos total
    rw [diskstreamerReadLoop]
    by_cases hpos : pos < 0
    · rw [if_pos hpos]
      exact Or.inr rfl
    rw [if_neg hpos]
    have hblock : (diskReadBlock disk (pos.toNat / defaultSectorSize)).1 = 0 ∨
        (diskReadBlock disk (pos.toNat / defaultSectorSize)).1 = -etimedout := by
      rw [diskReadBlock]
      split_ifs
      · exact Or.inr rfl
      · exact Or.inl rfl
    simp only
    split_ifs
    · exact hblock
    · simp only
      exact ih _ _
    · exact hblock

lemma diskstreamerRead_code (disk : Disk) (pos : ℤ) (total : ℕ) :
    (diskstreamerRead disk pos total).1 = 0 ∨ (diskstreamerRead disk pos total).1 = -etimedout :=
  diskstreamerReadLoop_code disk _ pos total

namespace FatKind

variable {k : FatKind} {v : FatVolume} {disk : Disk}

/-- The two drivers. -/
def IsDriver (k : FatKind) : Prop := k = fat16 ∨ k = fat32

lemma IsDriver.getFatEntry_code (h : k.IsDriver) (cluster : ℤ) :
    IsReadCode (k.getFatEntry v disk cluster) := by
  rw [getFatEntry]
  split_ifs with hread
  · rcases h with rfl | rfl
    · rcases diskstreamerRead_code disk (i32 (fat16.entryPos v cluster)) fat16.entrySize with
        hcode | hcode
      · rw [hcode] at hread
        exact absurd hread (lt_irrefl 0)
      · exact Or.inr (Or.inr hcode)
    · exact Or.inl (by decide : (0 : ℤ) ≤ 0xFFFFFFFF)
  · exact Or.inl (Int.natCast_nonneg _)

/-- The walk along a chain ends with the cluster it started from, or with a table entry. -/
lemma IsDriver.clusterLoop_code (h : k.IsDriver) (n : ℕ) : ∀ cluster : ℤ,
    k.clusterLoop v disk n cluster = cluster ∨ IsReadCode (k.clusterLoop v disk n cluster) := by
  induction n with
  | zero => exact fun cluster => Or.inl rfl
  | succ n ih =>
    intro cluster
    rw [clusterLoop]
    split_ifs
    · exact Or.inr (Or.inr (Or.inl rfl))
    · rcases ih (k.getFatEntry v disk cluster) with heq | hcode
      · rw [heq]
        exact Or.inr (h.getFatEntry_code cluster)
      · exact Or.inr hcode

lemma IsDriver.readFromLoop_code (h : k.IsDriver) (cluster : ℤ) (calls : ℕ) :
    ∀ offset total : ℤ, (k.readFromLoop v disk cluster calls offset total).1 = cluster ∨
      IsReadCode (k.readFromLoop v disk cluster calls offset total).1 := by
  induction calls with
  | zero => exact fun offset total => Or.inr (Or.inl le_rfl)
  | succ calls ih =>
    intro offset total
    rw [readFromLoop]
    simp only
    by_cases hneg : k.getClusterForOffset v disk cluster offset.toNat < 0
    · rw [if_pos hneg]
      exact h.clusterLoop_code _ cluster
    rw [if_neg hneg]
    generalize hr : diskstreamerRead disk _ _ = read
    have hcode : read.1 = 0 ∨ read.1 = -etimedout := by
      rw [← hr]
      exact diskstreamerRead_code disk _ _
    by_cases hread : read.1 ≠ 0
    · rw [if_pos hread]
      exact Or.inr (Or.inr (hcode.imp_left fun hzero => absurd hzero hread))
    rw [if_neg hread]
    split_ifs
    · exact ih _ _
    · exact Or.inr (Or.inl (not_not.mp hread).ge)

lemma IsDriver.readFrom_code (h : k.IsDriver) {d : Disk} (cluster offset total : ℤ) :
    (k.readFrom v d cluster offset total).1 = cluster ∨
      IsReadCode (k.readFrom v d cluster offset total).1 :=
  h.readFromLoop_code cluster _ offset total

end FatKind

lemma fst_ite_neg {α β : Type} (r : ℤ × α) (f g : β) :
    (if r.1 < 0 then (r.1, r.2, f) else (r.1, r.2, g)).1 = r.1 := by
  split_ifs
  · rfl
  · rfl

/-- The driver returns a code of its own, or the number of the first cluster. -/
lemma FatMount.fatRead_code {mt : FatMount} (h : mt.kind.IsDriver) (f : FatOpenFile) (size : ℕ) :
    (mt.fatRead f size).1 = f.item.firstClusterInt ∨ IsReadCode (mt.fatRead f size).1 := by
  have hread : (mt.fatRead f size).1 = (mt.kind.readFrom mt.volume mt.disk
      f.item.firstClusterInt (i32 f.pos) (i32 size)).1 := fst_ite_neg _ _ _
  rw [hread]
  exact h.readFrom_code _ _ _

lemma FatKind.readFrom_negative {k : FatKind} {v : FatVolume} {disk : Disk} {cluster : ℤ}
    (h : cluster < 0) (total : ℤ) : k.readFrom v disk cluster 0 total = (cluster, []) := by
  have hcluster : k.getClusterForOffset v disk cluster 0 = cluster := by
    rw [getClusterForOffset, Nat.zero_div]
    rfl
  rw [readFrom, readFromLoop, Int.toNat_zero]
  simp only [hcluster, if_pos h]

/-- From the beginning of a file whose first cluster has a negative number nothing is read, and
the number is returned. -/
lemma FatMount.fatRead_negative (mt : FatMount) {f : FatOpenFile} (hpos : f.pos = 0)
    (hneg : f.item.firstClusterInt < 0) (size : ℕ) :
    mt.fatRead f size = (f.item.firstClusterInt, [], f) := by
  have hread : mt.kind.readFrom mt.volume mt.disk f.item.firstClusterInt (i32 f.pos)
      (i32 size) = (f.item.firstClusterInt, []) := by
    rw [hpos]
    exact FatKind.readFrom_negative hneg _
  simp only [fatRead, hread, if_pos hneg]

/-- The date of access is not part of the number of the first cluster. -/
lemma FatDirectoryItem.firstClusterInt_accessed (item : FatDirectoryItem) (now : ℕ) :
    FatDirectoryItem.firstClusterInt ⟨store item.raw 18 (numberBytes 2 now)⟩ =
      item.firstClusterInt := by
  have hsame : ∀ a, 20 ≤ a →
      u16le (store item.raw 18 (numberBytes 2 now)) a = u16le item.raw a := by
    intro a ha
    refine u16le_congr fun i _ => store_of_lt ?_
    rw [length_numberBytes]
    omega
  rw [firstClusterInt, firstClusterInt, firstCluster, firstCluster, high16BitsFirstCluster,
    high16BitsFirstCluster, low16BitsFirstCluster, low16BitsFirstCluster, hsame 20 (by omega),
    hsame 26 (by omega)]

lemma FatDirectoryItem.filesize_accessed (item : FatDirectoryItem) (now : ℕ) :
    FatDirectoryItem.filesize ⟨store item.raw 18 (numberBytes 2 now)⟩ = item.filesize := by
  refine u32le_congr fun i _ => store_of_lt ?_
  rw [length_numberBytes]
  omega

/-! ## Reading a file that has just been opened -/

/-- The volume of the drive belongs to one of the drivers, and the number of the first cluster
of the file is not the code `-EISTKN`. -/
def ReadableProgram (k : Kernel) (filename : List UInt8) : Prop :=
  ∀ mt, diskGet k (driveOf filename) = some (some mt) → mt.kind.IsDriver ∧
    ∀ item b, FileAt mt mt.root (namesOf filename) item b → item.firstClusterInt ≠ -eistkn

/-- An open file for which no read returns `-EISTKN`. -/
def ReadsSafely (k : Kernel) (fd : ℤ) : Prop :=
  ∀ desc mt, fileGetDescriptor k fd = some desc → k.disks desc.disk = some (some mt) →
    mt.kind.IsDriver ∧ desc.privateData.item.firstClusterInt ≠ -eistkn

variable {k k' : Kernel} {filename modeStr : List UInt8} {now size : ℕ} {fd res : ℤ}

lemma ReadableProgram.fopen (h : ReadableProgram k filename) (hfd : 0 < fd)
    (hopen : SerpaeOS.fopen filename modeStr now k = some (fd, k')) : ReadsSafely k' fd := by
  rcases fopen_cases hopen with ⟨hneg, -⟩ | ⟨i, desc, rfl, hent, hfrom⟩
  · omega
  obtain ⟨mt, item, b, now', disk, hdisk, hfile, hitem, -, hdrive, hdisks⟩ := hfrom
  obtain ⟨hkind, hcluster⟩ := h mt hdisk
  intro desc' mt' hget hmt'
  have hlt : i + 1 < maxFileDescriptors := by
    by_contra hlast
    rw [fileGetDescriptor, if_pos (by omega)] at hget
    cases hget
  rw [fileGetDescriptor_succ hlt, hent.table_eq, Function.update_self] at hget
  cases hget
  rw [hdisks, hdrive, Function.update_self] at hmt'
  cases hmt'
  refine ⟨hkind, ?_⟩
  rw [hitem, FatDirectoryItem.firstClusterInt_accessed]
  exact hcluster item b hfile

lemma ends_pure_fst {r : ℤ × List UInt8 × FatOpenFile} {c : ℤ} (h : r.1 ≠ c) :
    Ends (pure (r.1, r.2.1) : KernelProg (ℤ × List UInt8)) k fun a _ => a.1 ≠ c :=
  ends_pure h

lemma ReadsSafely.fread (h : ReadsSafely k fd) :
    Ends (SerpaeOS.fread fd size) k fun r _ => r.1 ≠ -eistkn := by
  refine Ends.ite (fun _ => ends_pure (by decide)) fun _ => ?_
  refine Ends.bind (P := fun a k₁ => a = k ∧ k₁ = k) ?_ fun a k₁ hk => ?_
  · intro a k₁ hget
    cases hget
    exact ⟨rfl, rfl⟩
  obtain ⟨rfl, rfl⟩ := hk
  rcases hget : fileGetDescriptor k₁ fd with _ | desc
  · exact ends_pure (by decide)
  simp only
  rcases hdisk : k₁.disks desc.disk with _ | _ | mt
  · exact ends_stuck
  · exact ends_stuck
  obtain ⟨hkind, hcluster⟩ := h desc mt hget hdisk
  have hne : (mt.fatRead desc.privateData size).1 ≠ -eistkn := by
    rcases FatMount.fatRead_code hkind desc.privateData size with hcode | hcode
    · rw [hcode]
      exact hcluster
    · intro heq
      rw [heq] at hcode
      exact absurd hcode (by decide)
  refine Ends.bind (P := fun _ _ => True) (fun _ _ _ => trivial) fun _ k₂ _ => ?_
  exact ends_pure_fst hne

end SerpaeOS
