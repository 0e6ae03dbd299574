import SerpaeOS.Config
import SerpaeOS.Lib.Word
import Mathlib.Algebra.Group.Nat.Defs
import Mathlib.Logic.Function.Basic
import Mathlib.Tactic.Common

/-!
# The search for disks

`disk_search_and_init` of `disk.c`.  The array `disks` gets an entry for the boot disk and for
each of three further positions, at which a device may be absent, hold a volume, or hold a
table of up to four partitions.  Partition `i` of a device goes to the entry `i` behind that of
the device, but the next device only comes behind as many entries as partitions were mounted.
`disk_search_iff` says for which devices every volume keeps an entry of its own.

An absent device is not passed over: `enum device_type` is unsigned, and `ata_identify` returns
a negative number for it.  There is no boot sector to read then, and the loop goes over the table
that the buffer holds from the position before.

The results of `ata_identify` and of `fs_resolve` and what is read to the buffer are given.  Behind
the entries of the array there are further ones, which stand for the memory behind it.
-/

namespace SerpaeOS

open Word

/-! ## The array of disks -/

def unknownDevType : ℕ := 0
def pata : ℕ := 3
def sata : ℕ := 4

def cdSectorSize : ℕ := 2048

/-- `SERPAEOS_DISK_TYPE_PARTITION`. -/
def diskTypePartition : ℕ := 2

/-- The arguments `primary_secondary` and `master_slave`. -/
structure DiskPosition where
  primarySecondary : ℕ
  masterSlave : ℕ
deriving DecidableEq

def primaryMaster : DiskPosition := ⟨1, 1⟩
def primarySlave : DiskPosition := ⟨1, 2⟩
def secondaryMaster : DiskPosition := ⟨2, 1⟩
def secondarySlave : DiskPosition := ⟨2, 2⟩

/-- `struct disk`, without the private data of the filesystem. -/
structure DiskEntry where
  type : ℕ
  sectorSize : ℕ
  /-- An `enum device_type`, which is unsigned. -/
  dev : ℕ
  id : ℕ
  filesystem : Ptr
  position : DiskPosition
  offset : ℕ
deriving DecidableEq

/-- `struct partition_entry`, as far as it is used. -/
structure PartitionEntry where
  lba : ℕ
  size : ℕ

/-- What there is at a position: the result of `ata_identify` and the result of `fs_resolve` for the
whole disk and for the partitions, where `NULL` is no filesystem.  `identifyData` and `bootsect`
are the tables that lie at `entries` once `ata_identify` and `disk_read_block` have stored to the
buffer, if they do. -/
structure Device where
  identify : ℤ
  identifyData : Option (ℕ → PartitionEntry)
  whole : Ptr
  bootsect : Option (ℕ → PartitionEntry)
  resolve : ℕ → Ptr

/-- What the search finds at a position, with the table that the buffer holds then. -/
structure Probe where
  dev : ℕ
  whole : Ptr
  entries : ℕ → PartitionEntry
  resolve : ℕ → Ptr

namespace Device

variable (d : Device) (entries : ℕ → PartitionEntry)

/-- The value of the assignment to `dev`. -/
def dev : ℕ := u32 d.identify

/-- The table in the buffer after the call of `ata_identify`. -/
def identified : ℕ → PartitionEntry := d.identifyData.getD entries

/-- The table that the loop goes over. -/
def scanned : ℕ → PartitionEntry := d.bootsect.getD (d.identified entries)

def probe : Probe := ⟨d.dev, d.whole, d.scanned entries, d.resolve⟩

/-- The table that the buffer holds for the next position. -/
def leaves : ℕ → PartitionEntry :=
  if d.dev = unknownDevType ∨ d.whole ≠ 0 then d.identified entries else d.scanned entries

end Device

/-- A volume that was mounted, with the index of its entry, and the first sector if it is in a
partition. -/
structure FoundVolume where
  slot : ℕ
  position : DiskPosition
  dev : ℕ
  start : Option ℕ
  filesystem : Ptr
deriving DecidableEq

/-- The array, the indices of the entries that were assigned to, and the volumes that were
mounted. -/
structure DiskSearch where
  disks : ℕ → DiskEntry
  touched : List ℕ
  found : List FoundVolume

namespace DiskSearch

/-- An assignment to fields of `disks[i]`. -/
def write (s : DiskSearch) (i : ℕ) (f : DiskEntry → DiskEntry) : DiskSearch :=
  { s with disks := Function.update s.disks i (f (s.disks i)), touched := i :: s.touched }

/-- The volume is recorded. -/
def record (s : DiskSearch) (v : FoundVolume) : DiskSearch := { s with found := v :: s.found }

end DiskSearch

/-- `init_disk`, with the result of `fs_resolve`. -/
def initDisk (s : DiskSearch) (i : ℕ) (position : DiskPosition) (filesystem : Ptr) : DiskSearch :=
  s.write i fun d =>
    { d with
      id := i
      position := position
      sectorSize := if d.dev = pata ∨ d.dev = sata then defaultSectorSize else cdSectorSize
      filesystem := filesystem }

/-- One turn of the loop over the table of partitions, with the number of partitions mounted. -/
def searchPartition (position : DiskPosition) (p : Probe) (diskOffset : ℕ) (s : DiskSearch × ℕ)
    (i : ℕ) : DiskSearch × ℕ :=
  if (p.entries i).size = 0 then s
  else
    let t := s.1.write (diskOffset + i) fun d =>
      { d with type := diskTypePartition, dev := p.dev, offset := (p.entries i).lba }
    let t := initDisk t (diskOffset + i) position (p.resolve i)
    if p.resolve i ≠ 0 then
      (t.record ⟨diskOffset + i, position, p.dev, some (p.entries i).lba, p.resolve i⟩, s.2 + 1)
    else (t.write (diskOffset + i) fun d => { d with dev := unknownDevType }, s.2)

/-- The part of `disk_search_and_init` for one of the three positions, from the assignment to
`disks[++disk_offset]` on. -/
def searchDevice (position : DiskPosition) (p : Probe) (s : DiskSearch) (diskOffset : ℕ) :
    DiskSearch × ℕ :=
  let diskOffset := diskOffset + 1
  let s := s.write diskOffset fun d => { d with dev := p.dev }
  if p.dev ≤ unknownDevType then (s, diskOffset)
  else
    let s := initDisk s diskOffset position p.whole
    if p.whole ≠ 0 then (s.record ⟨diskOffset, position, p.dev, none, p.whole⟩, diskOffset)
    else
      let r := (List.range 4).foldl (searchPartition position p diskOffset) (s, 0)
      (r.1, diskOffset + r.2)

/-- The array after the call of `memset`. -/
def DiskSearch.zero : DiskSearch := ⟨fun _ => ⟨0, 0, 0, 0, 0, ⟨0, 0⟩, 0⟩, [], []⟩

/-- The first lines of `disk_search_and_init`, for the boot disk. -/
def searchMaster (whole : Ptr) : DiskSearch :=
  let s := DiskSearch.zero.write 0 fun d => { d with dev := pata }
  let s := initDisk s 0 primaryMaster whole
  if whole ≠ 0 then s.record ⟨0, primaryMaster, pata, none, whole⟩ else s

/-- The search at the three positions behind the boot disk. -/
def searchProbes (master : Ptr) (p₁ p₂ p₃ : Probe) : DiskSearch :=
  let s₁ := searchDevice primarySlave p₁ (searchMaster master) 0
  let s₂ := searchDevice secondaryMaster p₂ s₁.1 s₁.2
  (searchDevice secondarySlave p₃ s₂.1 s₂.2).1

/-- `disk_search_and_init`, with the table that lies in the buffer at first. -/
def diskSearchAndInit (master : Ptr) (entries : ℕ → PartitionEntry) (d₁ d₂ d₃ : Device) :
    DiskSearch :=
  let entries₁ := d₁.leaves entries
  let entries₂ := d₂.leaves entries₁
  searchProbes master (d₁.probe entries) (d₂.probe entries₁) (d₃.probe entries₂)

/-- The sector of a device that `disk_read_block` reads. -/
def diskReadSector (d : DiskEntry) (lba : ℕ) : Option (DiskPosition × ℕ) :=
  if d.dev ≤ unknownDevType then none
  else some (d.position, (lba + if d.type = diskTypePartition then d.offset else 0) % 2 ^ 32)

/-- The sector of a device that `disk_write_block` writes. -/
def diskWriteSector (d : DiskEntry) (lba : ℕ) : Option (DiskPosition × ℕ) :=
  if d.dev ≤ unknownDevType then none else some (d.position, (lba + d.offset) % 2 ^ 32)

/-! ## Volumes and their entries -/

/-- The entry of a volume that was mounted. -/
structure FoundVolume.KeptIn (v : FoundVolume) (d : DiskEntry) : Prop where
  dev_eq : d.dev = v.dev
  filesystem_eq : d.filesystem = v.filesystem
  position_eq : d.position = v.position
  type_iff : d.type = diskTypePartition ↔ v.start ≠ none
  offset_eq : d.offset = v.start.getD 0

/-- Only entries of the array are assigned to, every volume has an entry of its own that
describes it, reads through this entry address the sectors of the volume, and writes through any
entry address the sectors that reads do. -/
structure DisksOk (s : DiskSearch) : Prop where
  inside : ∀ i ∈ s.touched, i < maxDisks
  own : ∀ v ∈ s.found, ∀ w ∈ s.found, v.slot = w.slot → v = w
  kept : ∀ v ∈ s.found, v.KeptIn (s.disks v.slot)
  sectors : ∀ v ∈ s.found, ∀ lba,
    diskReadSector (s.disks v.slot) lba = some (v.position, (lba + v.start.getD 0) % 2 ^ 32)
  agree : ∀ i lba, diskWriteSector (s.disks i) lba = diskReadSector (s.disks i) lba

/-- A device at the index where the search has come to. -/
structure Placed where
  base : ℕ
  position : DiskPosition
  probe : Probe

namespace Placed

variable (a : Placed)

/-- The device holds a volume. -/
def MountsWhole : Prop := 0 < a.probe.dev ∧ a.probe.whole ≠ 0

/-- The table of partitions of the device is searched. -/
def Scans : Prop := 0 < a.probe.dev ∧ a.probe.whole = 0

/-- The entry `x` is used for a partition of the device. -/
def Partitions (x : ℕ) : Prop :=
  a.Scans ∧ ∃ i < 4, (a.probe.entries i).size ≠ 0 ∧ x = a.base + i

/-- The entry `x` is assigned to for the device. -/
def Touches (x : ℕ) : Prop := x = a.base ∨ a.Partitions x

/-- The volume is mounted for the device. -/
def Finds (v : FoundVolume) : Prop :=
  (a.MountsWhole ∧ v = ⟨a.base, a.position, a.probe.dev, none, a.probe.whole⟩) ∨
    a.Scans ∧ ∃ i < 4, (a.probe.entries i).size ≠ 0 ∧ a.probe.resolve i ≠ 0 ∧
      v = ⟨a.base + i, a.position, a.probe.dev, some (a.probe.entries i).lba,
        a.probe.resolve i⟩

/-- A volume is mounted in the entry `x` for the device. -/
def Mounts (x : ℕ) : Prop := ∃ v, a.Finds v ∧ v.slot = x

end Placed

/-- The number of partitions of a device that are mounted. -/
def Probe.used (p : Probe) : ℕ :=
  if 0 < p.dev ∧ p.whole = 0 then
    ((List.range 4).filter fun i => (p.entries i).size ≠ 0 ∧ p.resolve i ≠ 0).length
  else 0

/-- The devices with their indices: behind each of them as many entries as partitions are mounted
are passed over. -/
def placements (p₁ p₂ p₃ : Probe) : List Placed :=
  [⟨1, primarySlave, p₁⟩, ⟨2 + p₁.used, secondaryMaster, p₂⟩,
    ⟨3 + p₁.used + p₂.used, secondarySlave, p₃⟩]

/-- The devices do not need entries behind the array, no device needs one in which a volume of
an earlier one was mounted, and a device with one volume does not come to one that was used for
a partition. -/
structure SearchFits (ds : List Placed) : Prop where
  inside : ∀ a ∈ ds, ∀ x, a.Touches x → x < maxDisks
  apart : ds.Pairwise fun a b => (∀ x, a.Mounts x → ¬ b.Touches x) ∧
    (b.MountsWhole → ¬ a.Partitions b.base)

/-! ## The search at one position -/

namespace DiskSearch

variable {s : DiskSearch} {i : ℕ} {f g : DiskEntry → DiskEntry}

lemma write_self : (s.write i f).disks i = f (s.disks i) := Function.update_self _ _ _

lemma write_of_ne {x : ℕ} (h : x ≠ i) : (s.write i f).disks x = s.disks x :=
  Function.update_of_ne h _ _

lemma mem_write_touched {x : ℕ} : x ∈ (s.write i f).touched ↔ x = i ∨ x ∈ s.touched :=
  List.mem_cons

lemma record_disks {v : FoundVolume} : (s.record v).disks = s.disks := rfl

lemma record_touched {v : FoundVolume} : (s.record v).touched = s.touched := rfl

lemma mem_record_found {v w : FoundVolume} :
    w ∈ (s.record v).found ↔ w = v ∨ w ∈ s.found := List.mem_cons

end DiskSearch

variable {position : DiskPosition} {p : Probe} {base : ℕ} {s s' : DiskSearch} {a b : Placed}
  {v w : FoundVolume}

/-- What the turn for a partition makes of its entry. -/
def partitionEntry (position : DiskPosition) (p : Probe) (base i : ℕ) : DiskEntry where
  type := diskTypePartition
  sectorSize :=
    if p.dev = pata ∨ p.dev = sata then defaultSectorSize else cdSectorSize
  dev := if p.resolve i ≠ 0 then p.dev else unknownDevType
  id := base + i
  filesystem := p.resolve i
  position := position
  offset := (p.entries i).lba

/-- The volume that is mounted in a partition. -/
def partitionVolume (position : DiskPosition) (p : Probe) (base i : ℕ) : FoundVolume :=
  ⟨base + i, position, p.dev, some (p.entries i).lba, p.resolve i⟩

/-- What the turns for the first `n` entries of the table do. -/
structure Scanned (position : DiskPosition) (p : Probe) (base : ℕ) (s : DiskSearch) (n : ℕ)
    (r : DiskSearch × ℕ) : Prop where
  used : r.2 = ((List.range n).filter fun i => (p.entries i).size ≠ 0 ∧ p.resolve i ≠ 0).length
  entry : ∀ i < n, (p.entries i).size ≠ 0 →
    r.1.disks (base + i) = partitionEntry position p base i
  other : ∀ x, (∀ i < n, (p.entries i).size ≠ 0 → x ≠ base + i) → r.1.disks x = s.disks x
  touched : ∀ x, x ∈ r.1.touched ↔ x ∈ s.touched ∨ ∃ i < n, (p.entries i).size ≠ 0 ∧ x = base + i
  found : ∀ v, v ∈ r.1.found ↔ v ∈ s.found ∨ ∃ i < n, (p.entries i).size ≠ 0 ∧ p.resolve i ≠ 0 ∧
    v = partitionVolume position p base i

/-- One turn of the loop for an entry that is used. -/
lemma searchPartition_used {n : ℕ} (hsize : (p.entries n).size ≠ 0) (r : DiskSearch × ℕ) :
    ∃ t, searchPartition position p base r n = t ∧
      t.2 = r.2 + (if p.resolve n ≠ 0 then 1 else 0) ∧
      t.1.disks (base + n) = partitionEntry position p base n ∧
      (∀ x, x ≠ base + n → t.1.disks x = r.1.disks x) ∧
      (∀ x, x ∈ t.1.touched ↔ x = base + n ∨ x ∈ r.1.touched) ∧
      ∀ v, v ∈ t.1.found ↔ v ∈ r.1.found ∨
        p.resolve n ≠ 0 ∧ v = partitionVolume position p base n := by
  refine ⟨_, rfl, ?_⟩
  rw [searchPartition, if_neg hsize]
  by_cases hres : p.resolve n = 0
  · simp only [hres, ne_eq, not_true_eq_false, if_false]
    refine ⟨rfl, ?_, fun x hx => ?_, fun x => ?_, fun v => ?_⟩
    · rw [DiskSearch.write_self, initDisk, DiskSearch.write_self, DiskSearch.write_self,
        partitionEntry]
      simp only [hres, ne_eq, not_true_eq_false, if_false]
    · rw [DiskSearch.write_of_ne hx, initDisk, DiskSearch.write_of_ne hx,
        DiskSearch.write_of_ne hx]
    · rw [DiskSearch.mem_write_touched, initDisk, DiskSearch.mem_write_touched,
        DiskSearch.mem_write_touched]
      tauto
    · exact (or_iff_left fun h => h.1).symm
  · simp only [ne_eq, hres, not_false_eq_true, if_true]
    refine ⟨trivial, ?_, fun x hx => ?_, fun x => ?_, fun v => ?_⟩
    · rw [DiskSearch.record_disks, initDisk, DiskSearch.write_self, DiskSearch.write_self,
        partitionEntry]
      simp only [ne_eq, hres, not_false_eq_true, if_true]
    · rw [DiskSearch.record_disks, initDisk, DiskSearch.write_of_ne hx, DiskSearch.write_of_ne hx]
    · rw [DiskSearch.record_touched, initDisk, DiskSearch.mem_write_touched,
        DiskSearch.mem_write_touched]
      tauto
    · rw [DiskSearch.mem_record_found, or_comm, true_and]
      exact Iff.rfl

/-- The loop over the table. -/
lemma scanned_foldl (n : ℕ) : Scanned position p base s n
    ((List.range n).foldl (searchPartition position p base) (s, 0)) := by
  induction n with
  | zero =>
    refine ⟨rfl, fun i hi => absurd hi (Nat.not_lt_zero i), fun x _ => rfl, fun x => ?_,
      fun v => ?_⟩
    · exact (or_iff_left fun ⟨i, hi, _⟩ => absurd hi (Nat.not_lt_zero i)).symm
    · exact (or_iff_left fun ⟨i, hi, _⟩ => absurd hi (Nat.not_lt_zero i)).symm
  | succ n ih =>
    rw [List.range_succ, List.foldl_append, List.foldl_cons, List.foldl_nil]
    generalize (List.range n).foldl (searchPartition position p base) (s, 0) = r at ih ⊢
    by_cases hsize : (p.entries n).size = 0
    · rw [searchPartition, if_pos hsize]
      have hlt : ∀ i, i < n + 1 → (p.entries i).size ≠ 0 → i < n := fun i hi hne =>
        Nat.lt_of_le_of_ne (Nat.lt_succ_iff.mp hi) fun heq => hne (heq ▸ hsize)
      refine ⟨?_, fun i hi hne => ih.entry i (hlt i hi hne) hne, fun x hx => ih.other x fun i hi =>
        hx i (Nat.lt_succ_of_lt hi), fun x => (ih.touched x).trans (or_congr_right ?_),
        fun v => (ih.found v).trans (or_congr_right ?_)⟩
      · rw [ih.used, List.range_succ, List.filter_append, List.length_append]
        simp [hsize]
      · exact ⟨fun ⟨i, hi, h⟩ => ⟨i, Nat.lt_succ_of_lt hi, h⟩,
          fun ⟨i, hi, h⟩ => ⟨i, hlt i hi h.1, h⟩⟩
      · exact ⟨fun ⟨i, hi, h⟩ => ⟨i, Nat.lt_succ_of_lt hi, h⟩,
          fun ⟨i, hi, h⟩ => ⟨i, hlt i hi h.1, h⟩⟩
    · obtain ⟨t, ht, hused, hentry, hother, htouched, hfound⟩ :=
        @searchPartition_used position p base n hsize r
      rw [ht]
      refine ⟨?_, fun i hi hne => ?_, fun x hx => ?_, fun x => ?_, fun v => ?_⟩
      · rw [hused, ih.used, List.range_succ, List.filter_append, List.length_append]
        by_cases hres : p.resolve n = 0
        · simp [hres]
        · simp [hres, hsize]
      · by_cases heq : i = n
        · rw [heq, hentry]
        · rw [hother _ (by omega)]
          exact ih.entry i (by omega) hne
      · rw [hother x (hx n (Nat.lt_succ_self n) hsize)]
        exact ih.other x fun i hi => hx i (Nat.lt_succ_of_lt hi)
      · rw [htouched, ih.touched, Nat.exists_lt_succ_right, and_iff_right (Ne.intro hsize), or_comm,
          or_assoc]
      · rw [hfound, ih.found, Nat.exists_lt_succ_right, and_iff_right (Ne.intro hsize), or_assoc]

/-- What the search at one position does. -/
structure Searched (a : Placed) (s s' : DiskSearch) : Prop where
  other : ∀ x, ¬ a.Touches x → s'.disks x = s.disks x
  touched : ∀ x, x ∈ s'.touched ↔ x ∈ s.touched ∨ a.Touches x
  found : ∀ v, v ∈ s'.found ↔ v ∈ s.found ∨ a.Finds v
  type_iff : ∀ x, (s'.disks x).type = diskTypePartition ↔
    (s.disks x).type = diskTypePartition ∨ a.Partitions x
  offset_eq : ∀ x, ¬ a.Partitions x → (s'.disks x).offset = (s.disks x).offset
  kept : ∀ v, a.Finds v → (s'.disks v.slot).dev = v.dev ∧
    (s'.disks v.slot).filesystem = v.filesystem ∧ (s'.disks v.slot).position = v.position ∧
    ∀ lba, v.start = some lba → (s'.disks v.slot).offset = lba
  lost : ∀ x, a.Touches x → ¬ a.Mounts x →
    (s'.disks x).dev ≤ unknownDevType ∨ (s'.disks x).filesystem = 0

/-- There is no device. -/
lemma searched_absent (hdev : a.probe.dev ≤ unknownDevType) :
    Searched a s (s.write a.base fun d => { d with dev := a.probe.dev }) := by
  have hwhole : ¬ a.MountsWhole := fun h => absurd h.1 (Nat.not_lt.mpr hdev)
  have hscan : ¬ a.Scans := fun h => absurd h.1 (Nat.not_lt.mpr hdev)
  have hpart : ∀ x, ¬ a.Partitions x := fun x h => hscan h.1
  have hfinds : ∀ v, ¬ a.Finds v := fun v h => h.elim (fun h => hwhole h.1) fun h => hscan h.1
  refine ⟨fun x hx => ?_, fun x => ?_, fun v => ?_, fun x => ?_, fun x _ => ?_,
    fun v hv => absurd hv (hfinds v), fun x hx _ => ?_⟩
  · exact DiskSearch.write_of_ne fun h => hx (Or.inl h)
  · rw [DiskSearch.mem_write_touched, Placed.Touches, or_iff_left (hpart x), or_comm]
  · exact (or_iff_left (hfinds v)).symm
  · rw [or_iff_left (hpart x)]
    by_cases hx : x = a.base
    · rw [hx, DiskSearch.write_self]
    · rw [DiskSearch.write_of_ne hx]
  · by_cases hx : x = a.base
    · rw [hx, DiskSearch.write_self]
    · rw [DiskSearch.write_of_ne hx]
  · obtain rfl := hx.resolve_right (hpart x)
    rw [DiskSearch.write_self]
    exact Or.inl hdev

/-- The entry of a device before its table of partitions is searched. -/
def deviceSearch (a : Placed) (s : DiskSearch) : DiskSearch :=
  initDisk (s.write a.base fun d => { d with dev := a.probe.dev }) a.base a.position
    a.probe.whole

lemma deviceSearch_other {x : ℕ} (hx : x ≠ a.base) : (deviceSearch a s).disks x = s.disks x := by
  rw [deviceSearch, initDisk, DiskSearch.write_of_ne hx, DiskSearch.write_of_ne hx]

lemma mem_deviceSearch_touched {x : ℕ} :
    x ∈ (deviceSearch a s).touched ↔ x ∈ s.touched ∨ x = a.base := by
  rw [deviceSearch, initDisk, DiskSearch.mem_write_touched, DiskSearch.mem_write_touched]
  tauto

/-- The entry has the device and what is mounted on it, and keeps its type and its offset. -/
lemma deviceSearch_base : ((deviceSearch a s).disks a.base).dev = a.probe.dev ∧
    ((deviceSearch a s).disks a.base).filesystem = a.probe.whole ∧
    ((deviceSearch a s).disks a.base).position = a.position ∧
    ((deviceSearch a s).disks a.base).type = (s.disks a.base).type ∧
    ((deviceSearch a s).disks a.base).offset = (s.disks a.base).offset := by
  rw [deviceSearch, initDisk, DiskSearch.write_self, DiskSearch.write_self]
  exact ⟨rfl, rfl, rfl, rfl, rfl⟩

lemma deviceSearch_kept (x : ℕ) : ((deviceSearch a s).disks x).type = (s.disks x).type ∧
    ((deviceSearch a s).disks x).offset = (s.disks x).offset := by
  by_cases hx : x = a.base
  · rw [hx]
    exact deviceSearch_base.2.2.2
  · rw [deviceSearch_other hx]
    exact ⟨rfl, rfl⟩

/-- The device holds a volume. -/
lemma searched_whole (hdev : 0 < a.probe.dev) (hfs : a.probe.whole ≠ 0) :
    Searched a s ((deviceSearch a s).record
      ⟨a.base, a.position, a.probe.dev, none, a.probe.whole⟩) := by
  have hwhole : a.MountsWhole := ⟨hdev, hfs⟩
  have hscan : ¬ a.Scans := fun h => hfs h.2
  have hpart : ∀ x, ¬ a.Partitions x := fun x h => hscan h.1
  have hfinds : ∀ v, a.Finds v ↔
      v = ⟨a.base, a.position, a.probe.dev, none, a.probe.whole⟩ := fun v =>
    ⟨fun h => h.elim (fun h => h.2) fun h => absurd h.1 hscan, fun h => Or.inl ⟨hwhole, h⟩⟩
  refine ⟨fun x hx => ?_, fun x => ?_, fun v => ?_, fun x => ?_, fun x _ => ?_, fun v hv => ?_,
    fun x hx hmount => ?_⟩
  · exact deviceSearch_other fun h => hx (Or.inl h)
  · rw [DiskSearch.record_touched, mem_deviceSearch_touched, Placed.Touches,
      or_iff_left (hpart x)]
  · rw [DiskSearch.mem_record_found, hfinds, or_comm]
    exact Iff.rfl
  · rw [or_iff_left (hpart x), DiskSearch.record_disks, (deviceSearch_kept x).1]
  · rw [DiskSearch.record_disks, (deviceSearch_kept x).2]
  · rw [(hfinds v).mp hv, DiskSearch.record_disks]
    obtain ⟨h₁, h₂, h₃, -⟩ := deviceSearch_base (a := a) (s := s)
    exact ⟨h₁, h₂, h₃, fun lba hlba => by cases hlba⟩
  · obtain rfl := hx.resolve_right (hpart x)
    exact absurd ⟨_, (hfinds _).mpr rfl, rfl⟩ hmount

/-- The table of partitions of the device is searched. -/
lemma searched_scan (hdev : 0 < a.probe.dev) (hfs : a.probe.whole = 0)
    {r : DiskSearch × ℕ}
    (hr : Scanned a.position a.probe a.base (deviceSearch a s) 4 r) : Searched a s r.1 := by
  have hwhole : ¬ a.MountsWhole := fun h => h.2 hfs
  have hscan : a.Scans := ⟨hdev, hfs⟩
  have hfinds : ∀ v, a.Finds v ↔ ∃ i < 4, (a.probe.entries i).size ≠ 0 ∧
      a.probe.resolve i ≠ 0 ∧ v = partitionVolume a.position a.probe a.base i := fun v =>
    ⟨fun h => h.elim (fun h => absurd h.1 hwhole) fun h => h.2, fun h => Or.inr ⟨hscan, h⟩⟩
  have hother : ∀ x, ¬ a.Partitions x → r.1.disks x = (deviceSearch a s).disks x := fun x hx =>
    hr.other x fun i hi hsize heq => hx ⟨hscan, i, hi, hsize, heq⟩
  have hentry : ∀ x, a.Partitions x → ∃ i < 4, (a.probe.entries i).size ≠ 0 ∧ x = a.base + i ∧
      r.1.disks x = partitionEntry a.position a.probe a.base i := by
    rintro x ⟨-, i, hi, hsize, rfl⟩
    exact ⟨i, hi, hsize, rfl, hr.entry i hi hsize⟩
  refine ⟨fun x hx => ?_, fun x => ?_, fun v => ?_, fun x => ?_, fun x hx => ?_, fun v hv => ?_,
    fun x hx hmount => ?_⟩
  · rw [hother x fun h => hx (Or.inr h), deviceSearch_other fun h => hx (Or.inl h)]
  · rw [hr.touched, mem_deviceSearch_touched, Placed.Touches, or_assoc, Placed.Partitions,
      and_iff_right hscan]
  · rw [hr.found, hfinds]
    exact Iff.rfl
  · by_cases hx : a.Partitions x
    · obtain ⟨i, hi, hsize, rfl, heq⟩ := hentry x hx
      rw [heq]
      exact iff_of_true rfl (Or.inr hx)
    · rw [or_iff_left hx, hother x hx, (deviceSearch_kept x).1]
  · rw [hother x hx, (deviceSearch_kept x).2]
  · obtain ⟨i, hi, hsize, hres, rfl⟩ := (hfinds v).mp hv
    have heq := hr.entry i hi hsize
    rw [show (partitionVolume a.position a.probe a.base i).slot = a.base + i from rfl, heq]
    refine ⟨if_pos hres, rfl, rfl, fun lba hlba => ?_⟩
    exact Option.some.inj hlba
  · by_cases hpart : a.Partitions x
    · obtain ⟨i, hi, hsize, rfl, heq⟩ := hentry x hpart
      rw [heq]
      by_cases hres : a.probe.resolve i = 0
      · exact Or.inr hres
      · exact absurd ⟨_, (hfinds _).mpr ⟨i, hi, hsize, hres, rfl⟩, rfl⟩ hmount
    · obtain rfl := hx.resolve_right hpart
      rw [hother _ hpart, deviceSearch_base.2.1]
      exact Or.inr hfs

lemma searchDevice_searched (position : DiskPosition) (p : Probe) (s : DiskSearch)
    (diskOffset : ℕ) :
    Searched ⟨diskOffset + 1, position, p⟩ s (searchDevice position p s diskOffset).1 ∧
      (searchDevice position p s diskOffset).2 = diskOffset + 1 + p.used := by
  rw [searchDevice]
  by_cases hdev : p.dev ≤ unknownDevType
  · have hused : p.used = 0 := if_neg fun h => absurd h.1 (Nat.not_lt.mpr hdev)
    rw [if_pos hdev, hused]
    exact ⟨searched_absent (a := ⟨diskOffset + 1, position, p⟩) hdev, rfl⟩
  have hpos : 0 < p.dev := Nat.not_le.mp hdev
  rw [if_neg hdev]
  by_cases hfs : p.whole = 0
  · have hscan := @scanned_foldl position p (diskOffset + 1)
      (deviceSearch ⟨diskOffset + 1, position, p⟩ s) 4
    have hused : p.used = ((List.range 4).filter fun i =>
      (p.entries i).size ≠ 0 ∧ p.resolve i ≠ 0).length := if_pos ⟨hpos, hfs⟩
    rw [if_neg (not_not.mpr hfs), hused, ← hscan.used]
    have hsearched := searched_scan (a := ⟨diskOffset + 1, position, p⟩) hpos hfs hscan
    exact ⟨hsearched, rfl⟩
  · have hused : p.used = 0 := if_neg fun h => hfs h.2
    rw [if_pos hfs, hused]
    exact ⟨searched_whole (a := ⟨diskOffset + 1, position, p⟩) hpos hfs, rfl⟩

/-! ## The whole search -/

/-- What is known of the array after the devices `past`. -/
structure SearchInv (past : List Placed) (s : DiskSearch) : Prop where
  touched : ∀ x, x ∈ s.touched ↔ x = 0 ∨ ∃ a ∈ past, a.Touches x
  found : ∀ v ∈ s.found, (v.slot = 0 ∧ v.position = primaryMaster ∧ v.start = none) ∨
    ∃ a ∈ past, a.Finds v
  mounted : ∀ a ∈ past, ∀ v, a.Finds v → v ∈ s.found
  mounts : ∀ v ∈ s.found, 0 < v.dev ∧ v.filesystem ≠ 0
  type_iff : ∀ x, (s.disks x).type = diskTypePartition ↔ ∃ a ∈ past, a.Partitions x
  offset_eq : ∀ x, (s.disks x).type ≠ diskTypePartition → (s.disks x).offset = 0

lemma Placed.Finds.position_eq (h : a.Finds v) : v.position = a.position := by
  rcases h with ⟨-, rfl⟩ | ⟨-, i, -, -, -, rfl⟩
  · rfl
  · rfl

lemma Placed.Finds.touches (h : a.Finds v) : a.Touches v.slot := by
  rcases h with ⟨-, rfl⟩ | ⟨hscan, i, hi, hsize, -, rfl⟩
  · exact Or.inl rfl
  · exact Or.inr ⟨hscan, i, hi, hsize, rfl⟩

lemma Placed.Finds.mounts (h : a.Finds v) : 0 < v.dev ∧ v.filesystem ≠ 0 := by
  rcases h with ⟨hwhole, rfl⟩ | ⟨hscan, i, hi, hsize, hres, rfl⟩
  · exact hwhole
  · exact ⟨hscan.1, hres⟩

/-- Two volumes of a device are in different entries. -/
lemma Placed.Finds.unique (hv : a.Finds v) (hw : a.Finds w) (hslot : v.slot = w.slot) : v = w := by
  rcases hv with ⟨hwhole, rfl⟩ | ⟨hscan, i, hi, hsize, hres, rfl⟩
  · rcases hw with ⟨-, rfl⟩ | ⟨hscan, -⟩
    · rfl
    · exact absurd hscan.2 hwhole.2
  · rcases hw with ⟨hwhole, -⟩ | ⟨-, j, hj, hsize', hres', rfl⟩
    · exact absurd hscan.2 hwhole.2
    · have hij : i = j := Nat.add_left_cancel hslot
      rw [hij]

lemma SearchInv.step {past : List Placed} (h : SearchInv past s) (hs : Searched a s s') :
    SearchInv (past ++ [a]) s' := by
  have hmem : ∀ P : Placed → Prop, (∃ m ∈ past ++ [a], P m) ↔ (∃ m ∈ past, P m) ∨ P a := by
    intro P
    simp only [List.mem_append, List.mem_singleton, or_and_right, exists_or, exists_eq_left]
  refine ⟨fun x => ?_, fun v hv => ?_, fun m hm v hv => ?_, fun v hv => ?_, fun x => ?_,
    fun x hx => ?_⟩
  · rw [hs.touched, h.touched, hmem, or_assoc]
  · rw [hmem]
    rcases (hs.found v).mp hv with hv | hv
    · exact (h.found v hv).imp_right Or.inl
    · exact Or.inr (Or.inr hv)
  · rw [hs.found]
    rcases List.mem_append.mp hm with hm | hm
    · exact Or.inl (h.mounted m hm v hv)
    · rw [List.mem_singleton.mp hm] at hv
      exact Or.inr hv
  · rcases (hs.found v).mp hv with hv | hv
    · exact h.mounts v hv
    · exact hv.mounts
  · rw [hs.type_iff, h.type_iff, hmem]
  · have hnot := mt (hs.type_iff x).mpr hx
    rw [not_or] at hnot
    rw [hs.offset_eq x hnot.2]
    exact h.offset_eq x hnot.1

lemma searchMaster_disks (whole : Ptr) (x : ℕ) :
    ((searchMaster whole).disks x).type = 0 ∧ ((searchMaster whole).disks x).offset = 0 := by
  have hkept : (searchMaster whole).disks =
      (initDisk (DiskSearch.zero.write 0 fun d => { d with dev := pata }) 0 primaryMaster
        whole).disks := by
    rw [searchMaster]
    split_ifs
    · rfl
    · rfl
  rw [hkept, initDisk]
  by_cases hx : x = 0
  · rw [hx, DiskSearch.write_self, DiskSearch.write_self]
    exact ⟨rfl, rfl⟩
  · rw [DiskSearch.write_of_ne hx, DiskSearch.write_of_ne hx]
    exact ⟨rfl, rfl⟩

lemma mem_searchMaster_touched {whole : Ptr} {x : ℕ} :
    x ∈ (searchMaster whole).touched ↔ x = 0 := by
  have htouched : (searchMaster whole).touched = [0, 0] := by
    rw [searchMaster]
    split_ifs
    · rfl
    · rfl
  rw [htouched]
  simp

lemma mem_searchMaster_found {whole : Ptr} :
    v ∈ (searchMaster whole).found ↔ whole ≠ 0 ∧ v = ⟨0, primaryMaster, pata, none, whole⟩ := by
  rw [searchMaster]
  by_cases hfs : whole = 0
  · rw [if_neg (not_not.mpr hfs)]
    exact iff_of_false List.not_mem_nil fun h => h.1 hfs
  · rw [if_pos hfs, DiskSearch.mem_record_found, and_iff_right hfs]
    exact or_iff_left List.not_mem_nil

lemma searchInv_master (whole : Ptr) : SearchInv [] (searchMaster whole) := by
  have hnone : ∀ P : Placed → Prop, ¬ ∃ m ∈ ([] : List Placed), P m := by
    rintro P ⟨m, hm, -⟩
    cases hm
  refine ⟨fun x => ?_, fun v hv => ?_, fun m hm => ?_, fun v hv => ?_, fun x => ?_, fun x _ => ?_⟩
  · rw [mem_searchMaster_touched, or_iff_left (hnone _)]
  · obtain ⟨-, rfl⟩ := mem_searchMaster_found.mp hv
    exact Or.inl ⟨rfl, rfl, rfl⟩
  · cases hm
  · obtain ⟨hfs, rfl⟩ := mem_searchMaster_found.mp hv
    exact ⟨(by decide : 0 < pata), hfs⟩
  · rw [(searchMaster_disks whole x).1]
    exact iff_of_false (by decide) (hnone _)
  · exact (searchMaster_disks whole x).2

/-- Reads through the entry of a volume address its sectors. -/
lemma FoundVolume.KeptIn.sectors {d : DiskEntry} (h : v.KeptIn d) (hdev : 0 < v.dev) (lba : ℕ) :
    diskReadSector d lba = some (v.position, (lba + v.start.getD 0) % 2 ^ 32) := by
  have hne : ¬ d.dev ≤ unknownDevType := by
    rw [h.dev_eq]
    exact Nat.not_le.mpr hdev
  have hread : (if d.type = diskTypePartition then d.offset else 0) = d.offset := by
    by_cases htype : d.type = diskTypePartition
    · rw [if_pos htype]
    · have hnone : v.start = none := not_not.mp (mt h.type_iff.mpr htype)
      rw [if_neg htype, h.offset_eq, hnone]
      rfl
  rw [diskReadSector, if_neg hne, hread, h.position_eq, h.offset_eq]

/-- Only the entries of partitions have an offset, so reads and writes address the same sectors. -/
lemma SearchInv.agree {past : List Placed} (h : SearchInv past s) (i lba : ℕ) :
    diskWriteSector (s.disks i) lba = diskReadSector (s.disks i) lba := by
  rw [diskWriteSector, diskReadSector]
  by_cases htype : (s.disks i).type = diskTypePartition
  · rw [if_pos htype]
  · rw [if_neg htype, h.offset_eq i htype]

lemma disksOk_master (whole : Ptr) : DisksOk (searchMaster whole) := by
  have hkept : ∀ v ∈ (searchMaster whole).found, v.KeptIn ((searchMaster whole).disks v.slot) := by
    intro v hv
    obtain ⟨hfs, rfl⟩ := mem_searchMaster_found.mp hv
    rw [searchMaster, if_pos hfs, DiskSearch.record_disks, initDisk, DiskSearch.write_self,
      DiskSearch.write_self]
    exact ⟨rfl, rfl, rfl, iff_of_false (by decide : ¬ 0 = diskTypePartition) fun h => h rfl, rfl⟩
  refine ⟨fun i hi => ?_, fun v hv w hw _ => ?_, hkept, fun v hv lba => ?_,
    (searchInv_master whole).agree⟩
  · rw [mem_searchMaster_touched.mp hi]
    decide
  · rw [(mem_searchMaster_found.mp hv).2, (mem_searchMaster_found.mp hw).2]
  · exact (hkept v hv).sectors ((searchInv_master whole).mounts v hv).1 lba

section

variable {past : List Placed} (h : SearchInv past s) (hs : Searched a s s')

include h hs

/-- If the search is right after a device, then the device has left the entries of the volumes
alone. -/
lemma SearchInv.not_touches (hpos : ∀ m ∈ past, m.position ≠ a.position)
    (hmaster : a.position ≠ primaryMaster) (hok : DisksOk s') :
    ∀ v ∈ s.found, ¬ a.Touches v.slot := by
  intro v hv ht
  have hv' : v ∈ s'.found := (hs.found v).mpr (Or.inl hv)
  have hkept := hok.kept v hv'
  obtain ⟨hdev, hfs⟩ := h.mounts v hv
  by_cases hm : a.Mounts v.slot
  · -- the entry would belong to two volumes
    obtain ⟨w, hw, hslot⟩ := hm
    obtain rfl := hok.own v hv' w ((hs.found w).mpr (Or.inr hw)) hslot.symm
    rcases h.found v hv with ⟨-, hposition, -⟩ | ⟨m, hm, hfinds⟩
    · exact hmaster (hw.position_eq.symm.trans hposition)
    · exact hpos m hm (hfinds.position_eq.symm.trans hw.position_eq)
  · rcases hs.lost _ ht hm with hlost | hlost
    · rw [hkept.dev_eq] at hlost
      exact absurd hdev (Nat.not_lt.mpr hlost)
    · exact hfs (hkept.filesystem_eq.symm.trans hlost)

/-- The entries that the device has left alone are as they were. -/
lemma SearchInv.ok_before (hok : DisksOk s') (hkeep : ∀ v ∈ s.found, ¬ a.Touches v.slot) :
    DisksOk s := by
  have hfound : ∀ v ∈ s.found, v ∈ s'.found := fun v hv => (hs.found v).mpr (Or.inl hv)
  have hkept : ∀ v ∈ s.found, v.KeptIn (s.disks v.slot) := by
    intro v hv
    rw [← hs.other _ (hkeep v hv)]
    exact hok.kept v (hfound v hv)
  refine ⟨fun i hi => hok.inside i ((hs.touched i).mpr (Or.inl hi)), fun v hv w hw =>
    hok.own v (hfound v hv) w (hfound w hw), hkept, fun v hv lba => ?_, h.agree⟩
  exact (hkept v hv).sectors (h.mounts v hv).1 lba

/-- A volume that is mounted for the device has an entry that describes it, if the entry of the
device was not used for a partition. -/
lemma SearchInv.kept_device (hfresh : a.MountsWhole → ∀ m ∈ past, ¬ m.Partitions a.base)
    (hv : a.Finds v) : v.KeptIn (s'.disks v.slot) := by
  obtain ⟨hdev, hfs, hposition, hoffset⟩ := hs.kept v hv
  refine ⟨hdev, hfs, hposition, ?_, ?_⟩
  · rw [hs.type_iff, h.type_iff]
    rcases hv with ⟨hwhole, rfl⟩ | ⟨hscan, i, hi, hsize, -, rfl⟩
    · refine iff_of_false ?_ fun hne => hne rfl
      rintro (⟨m, hm, hpart⟩ | hpart)
      · exact hfresh hwhole m hm hpart
      · exact hwhole.2 hpart.1.2
    · exact iff_of_true (Or.inr ⟨hscan, i, hi, hsize, rfl⟩) (Option.some_ne_none _)
  · rcases hv with ⟨hwhole, rfl⟩ | ⟨-, i, -, -, -, rfl⟩
    · rw [hs.offset_eq _ fun hpart => hwhole.2 hpart.1.2]
      refine h.offset_eq _ fun htype => ?_
      obtain ⟨m, hm, hpart⟩ := (h.type_iff _).mp htype
      exact hfresh hwhole m hm hpart
    · exact hoffset _ rfl

/-- A search up to the device `a` is right exactly if it is right before the device, and the
device takes nothing away. -/
lemma SearchInv.ok_iff (hbase : 0 < a.base) (hpos : ∀ m ∈ past, m.position ≠ a.position)
    (hmaster : a.position ≠ primaryMaster) :
    DisksOk s' ↔ DisksOk s ∧ (∀ x, a.Touches x → x < maxDisks) ∧
      ∀ m ∈ past, (∀ x, m.Mounts x → ¬ a.Touches x) ∧
        (a.MountsWhole → ¬ m.Partitions a.base) := by
  constructor
  · intro hok
    have hkeep := h.not_touches hs hpos hmaster hok
    refine ⟨h.ok_before hs hok hkeep, fun x hx => ?_, fun m hm => ⟨?_, fun hwhole hpart => ?_⟩⟩
    · exact hok.inside x ((hs.touched x).mpr (Or.inr hx))
    · rintro x ⟨v, hv, rfl⟩
      exact hkeep v (h.mounted m hm v hv)
    · -- the entry keeps the type of a partition
      have htype : (s'.disks a.base).type = diskTypePartition :=
        (hs.type_iff _).mpr (Or.inl ((h.type_iff _).mpr ⟨m, hm, hpart⟩))
      have hfound := (hs.found ⟨a.base, a.position, a.probe.dev, none, a.probe.whole⟩).mpr
        (Or.inr (Or.inl ⟨hwhole, rfl⟩))
      exact (hok.kept _ hfound).type_iff.mp htype rfl
  · rintro ⟨hok, hinside, hapart⟩
    have hkeep : ∀ v ∈ s.found, ¬ a.Touches v.slot := by
      intro v hv ht
      rcases h.found v hv with ⟨hzero, -⟩ | ⟨m, hm, hfinds⟩
      · rw [hzero] at ht
        rcases ht with ht | ⟨-, i, -, -, ht⟩
        · omega
        · omega
      · exact (hapart m hm).1 _ ⟨v, hfinds, rfl⟩ ht
    have hkept : ∀ v ∈ s'.found, v.KeptIn (s'.disks v.slot) := by
      intro v hv
      rcases (hs.found v).mp hv with hv | hv
      · rw [hs.other _ (hkeep v hv)]
        exact hok.kept v hv
      · exact h.kept_device hs (fun hwhole m hm => (hapart m hm).2 hwhole) hv
    refine ⟨fun i hi => ?_, fun v hv w hw hslot => ?_, hkept, fun v hv lba => ?_,
      (h.step hs).agree⟩
    · exact ((hs.touched i).mp hi).elim (hok.inside i) (hinside i)
    · rcases (hs.found v).mp hv with hv | hv
      · rcases (hs.found w).mp hw with hw | hw
        · exact hok.own v hv w hw hslot
        · exact absurd (hslot ▸ hw.touches) (hkeep v hv)
      · rcases (hs.found w).mp hw with hw | hw
        · exact absurd (hslot ▸ hv.touches) (hkeep w hw)
        · exact hv.unique hw hslot
    · exact (hkept v hv).sectors ((h.step hs).mounts v hv).1 lba

end

lemma searchProbes_iff (master : Ptr) (p₁ p₂ p₃ : Probe) :
    DisksOk (searchProbes master p₁ p₂ p₃) ↔ SearchFits (placements p₁ p₂ p₃) := by
  rw [searchProbes]
  obtain ⟨hs₁, hoffset₁⟩ := searchDevice_searched primarySlave p₁ (searchMaster master) 0
  generalize searchDevice primarySlave p₁ (searchMaster master) 0 = r₁ at hs₁ hoffset₁ ⊢
  obtain ⟨hs₂, hoffset₂⟩ := searchDevice_searched secondaryMaster p₂ r₁.1 r₁.2
  have hbase₂ : r₁.2 + 1 = 2 + p₁.used := by omega
  rw [hbase₂] at hs₂ hoffset₂
  generalize searchDevice secondaryMaster p₂ r₁.1 r₁.2 = r₂ at hs₂ hoffset₂ ⊢
  obtain ⟨hs₃, -⟩ := searchDevice_searched secondarySlave p₃ r₂.1 r₂.2
  have hbase₃ : r₂.2 + 1 = 3 + p₁.used + p₂.used := by omega
  rw [hbase₃] at hs₃
  have h₁ := (searchInv_master master).step hs₁
  have h₂ := h₁.step hs₂
  have hmem : ∀ m ∈ [(⟨1, primarySlave, p₁⟩ : Placed)], m.position = primarySlave := by
    intro m hm
    rw [List.mem_singleton.mp hm]
  have hok₁ := (searchInv_master master).ok_iff hs₁ Nat.one_pos
    (fun m hm => absurd hm List.not_mem_nil) (by decide : primarySlave ≠ primaryMaster)
  have hok₂ := h₁.ok_iff hs₂ (by change 0 < 2 + p₁.used; omega)
    (fun m hm => by rw [hmem m hm]; exact (by decide : primarySlave ≠ secondaryMaster))
    (by decide : secondaryMaster ≠ primaryMaster)
  have hok₃ := h₂.ok_iff hs₃ (by change 0 < 3 + p₁.used + p₂.used; omega)
    (fun m hm => by
      rcases List.mem_append.mp hm with hm | hm
      · rw [hmem m hm]
        exact (by decide : primarySlave ≠ secondarySlave)
      · rw [List.mem_singleton.mp hm]
        exact (by decide : secondaryMaster ≠ secondarySlave))
    (by decide : secondarySlave ≠ primaryMaster)
  simp only [List.nil_append, List.cons_append, List.forall_mem_cons, List.not_mem_nil,
    false_implies, implies_true, and_true] at hok₁ hok₂ hok₃
  rw [hok₃, hok₂, hok₁, and_iff_right (disksOk_master master)]
  constructor
  · rintro ⟨⟨hin₁, hin₂, hap₁₂⟩, hin₃, hap₁₃, hap₂₃⟩
    exact ⟨by simpa [placements] using ⟨hin₁, hin₂, hin₃⟩,
      by simpa [placements] using ⟨⟨hap₁₂, hap₁₃⟩, hap₂₃⟩⟩
  · rintro ⟨hin, hap⟩
    simp only [placements, List.forall_mem_cons, List.pairwise_cons, List.not_mem_nil,
      false_implies, implies_true, and_true, List.Pairwise.nil] at hin hap
    exact ⟨⟨hin.1, hin.2.1, hap.1.1⟩, hin.2.2, hap.1.2, hap.2⟩

/-- The search gives every volume an entry of its own exactly if the devices fit. -/
theorem disk_search_iff (master : Ptr) (entries : ℕ → PartitionEntry) (d₁ d₂ d₃ : Device) :
    DisksOk (diskSearchAndInit master entries d₁ d₂ d₃) ↔
      SearchFits (placements (d₁.probe entries) (d₂.probe (d₁.leaves entries))
        (d₃.probe (d₂.leaves (d₁.leaves entries)))) :=
  searchProbes_iff master _ _ _

/-- The only partition of the primary slave is in the third line of its table, and the secondary
master is absent; its entry is that of the partition. -/
theorem not_disk_search_gap :
    ¬ DisksOk (diskSearchAndInit 0 (fun _ => ⟨0, 0⟩)
      ⟨pata, some fun _ => ⟨0, 0⟩, 0, some fun i => if i = 2 then ⟨2048, 4096⟩ else ⟨0, 0⟩,
        fun _ => 0x1000⟩
      ⟨-enodiskspace, none, 0, none, fun _ => 0⟩ ⟨-enodiskspace, none, 0, none, fun _ => 0⟩) := by
  intro h
  have hkept := h.kept ⟨3, primarySlave, pata, some 2048, 0x1000⟩ (by decide)
  exact absurd hkept.dev_eq (by decide)

end SerpaeOS
