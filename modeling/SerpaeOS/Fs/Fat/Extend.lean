import SerpaeOS.Fs.Fat.Alloc

/-!
# Extending a chain on a FAT32 volume

`fat32_add_cluster_to_chain` links the last cluster of a chain to a free one and then ends the
chain there.  After each of the two stores it compares the number of bytes written with `2`, the
size of an entry of the other driver, and gives up after the first one.  So it fails whenever
there is a cluster to add, and leaves the chain without an end.
-/

namespace SerpaeOS

open Bytes Word

/-- The ranges of the fields `reserved_sectors` and `sector_size`. -/
structure HeaderRanges (v : FatVolume) : Prop where
  reserved_lt : v.reservedSectors < 2 ^ 16
  sectorSize_le : v.sectorSize ≤ 2048

namespace FatKind

/-- The clusters of the chain that starts with `first`: none comes twice, the entry of each one
is the number of the next, and that of the last one is a marker. -/
structure StartsChain (k : FatKind) (v : FatVolume) (disk : Disk) (first : ℕ)
    (chain : List ℕ) : Prop where
  first_eq : chain.head? = some first
  linked : k.Linked v disk chain
  clusters : ∀ c ∈ chain, c < k.endOfChain

variable {k : FatKind} {v : FatVolume} {disk disk' : Disk} {first c val : ℕ} {chain : List ℕ}

lemma StartsChain.ne_nil (h : k.StartsChain v disk first chain) : chain ≠ [] := by
  rintro rfl
  exact absurd h.first_eq (by simp)

lemma StartsChain.getD_zero (h : k.StartsChain v disk first chain) : chain.getD 0 0 = first := by
  have hfirst := h.first_eq
  cases chain with
  | nil => exact absurd hfirst (by simp)
  | cons c rest => exact Option.some.inj hfirst

/-- The entries of a table of the FAT32 driver lie below the position `2 ^ 31`. -/
lemma fat32_tablePos_lt (hv : HeaderRanges v) (hc : c < 2 ^ 28) :
    fat32.tablePos v c + fat32.entrySize < 2 ^ 31 := by
  have hreserved : v.reservedSectors * v.sectorSize ≤ 2 ^ 16 * 2048 :=
    Nat.mul_le_mul hv.reserved_lt.le hv.sectorSize_le
  have hsize : fat32.entrySize = 4 := rfl
  rw [tablePos, hsize]
  omega

/-- `fat32_find_last_cluster_of_chain` finds the last cluster. -/
lemma StartsChain.findLast32 (h : fat32.StartsChain v disk first chain) (hv : HeaderRanges v)
    (hf : disk.FaultFree) :
    fat32.findLastClusterOfChain v disk first = some (lastCluster chain) := by
  have hpos := List.length_pos_iff.mpr h.ne_nil
  have hend : fat32.endOfChain = 0x0FFFFFF8 := rfl
  rw [← h.getD_zero]
  refine h.linked.findLast_eq hf (fun c hc => ?_) h.clusters (chain.length - 1) 0 (by omega)
  exact fat32_tablePos_lt hv ((h.clusters c hc).trans (by rw [hend]; decide))

end FatKind

open FatKind

/-! ## The search for a free cluster -/

/-- The cluster at which `fat32_get_first_free_cluster` starts. -/
def fat32SearchStart (priv : FatPrivate) : ℕ :=
  if u32le priv.fsinfo 492 = 0xFFFFFFFF then 3 else u32le priv.fsinfo 492

/-- The clusters that it tries, as long as none is free. -/
def fat32Tried (v : FatVolume) (priv : FatPrivate) (c : ℕ) : Prop :=
  fat32SearchStart priv ≤ c ∧
    c ≤ max (fat32SearchStart priv) (v.sectorsBig / v.sectorsPerCluster)

/-- The volume after the file system information is stored with a cluster as the next free
one. -/
def storeFsinfo (priv : FatPrivate) (disk : Disk) (cluster : ℕ) : Disk :=
  (diskWriteBlock disk priv.fsInfoLocation (store priv.fsinfo 492 (numberBytes 4 cluster))).2

variable {v : FatVolume} {priv : FatPrivate} {disk : Disk} {first : ℕ} {chain : List ℕ}

/-- The first cluster from `start` on whose entry is zero, among those that are tried. -/
structure FirstFree (code : ℕ → ℕ) (start limit f : ℕ) : Prop where
  start_le : start ≤ f
  le_max : f ≤ max start limit
  free : code f = 0
  used : ∀ c, start ≤ c → c < f → code c ≠ 0

lemma FirstFree.unique {code : ℕ → ℕ} {start limit f c : ℕ} (h : FirstFree code start limit f)
    (h' : FirstFree code start limit c) : f = c := by
  rcases Nat.lt_trichotomy f c with hlt | heq | hlt
  · exact absurd h.free (h'.used f h.start_le hlt)
  · exact heq
  · exact absurd h'.free (h.used c h'.start_le hlt)

/-- The search finds the first free cluster, or none is free. -/
lemma freeClusterLoop_spec (code : ℕ → ℕ) (limit start : ℕ) :
    (freeClusterLoop code (limit - start) start = none ∧
        ∀ c, start ≤ c → c ≤ max start limit → code c ≠ 0) ∨
      ∃ f, freeClusterLoop code (limit - start) start = some f ∧ FirstFree code start limit f := by
  have hmax : start + (limit - start) = max start limit := by omega
  rcases hfind : freeClusterLoop code (limit - start) start with _ | f
  · refine Or.inl ⟨rfl, fun c hc hc' => ?_⟩
    rw [freeClusterLoop_eq, List.find?_range'_eq_none] at hfind
    simpa using hfind c hc (by omega)
  · rw [freeClusterLoop_eq, List.find?_range'_eq_some, List.mem_range'_1] at hfind
    obtain ⟨hfree, ⟨hle, hlt⟩, hused⟩ := hfind
    refine Or.inr ⟨f, rfl, hle, by omega, by simpa using hfree, fun c hc hc' => ?_⟩
    simpa using hused c hc hc'

/-- The FAT32 driver finds the first free cluster from its start on, or none is free. -/
lemma fat32GetFirstFreeCluster_spec (v : FatVolume) (priv : FatPrivate) (disk : Disk) :
    (fat32GetFirstFreeCluster v priv disk = (0, priv, disk) ∧
      ∀ c, fat32Tried v priv c → fat32.entryCode v disk c ≠ 0) ∨
    ∃ f, FirstFree (fat32.entryCode v disk) (fat32SearchStart priv)
        (v.sectorsBig / v.sectorsPerCluster) f ∧
      fat32GetFirstFreeCluster v priv disk =
        (f, { priv with fsinfo := store priv.fsinfo 492 (numberBytes 4 f) },
          storeFsinfo priv disk f) := by
  rw [fat32GetFirstFreeCluster, FatKind.freeCluster]
  rcases freeClusterLoop_spec (fat32.entryCode v disk) (v.sectorsBig / v.sectorsPerCluster)
    (fat32SearchStart priv) with ⟨hnone, hall⟩ | ⟨f, hsome, hfirst⟩
  · rw [fat32SearchStart] at hnone
    simp only [hnone, true_and]
    exact Or.inl fun c hc => hall c hc.1 hc.2
  · rw [fat32SearchStart] at hsome
    simp only [hsome]
    exact Or.inr ⟨f, hfirst, rfl⟩

/-! ## The extension -/

/-- The chain has one cluster more, which was free, and no other entry of the table has
changed. -/
def ExtendsChain (v : FatVolume) (disk : Disk) (chain : List ℕ) (disk' : Disk) : Prop :=
  ∃ c, fat32.fatEntry v disk c = 0 ∧ fat32.Linked v disk' (chain ++ [c]) ∧
    ∀ x, x ≠ lastCluster chain → x ≠ c → fat32.fatEntry v disk' x = fat32.fatEntry v disk x

/-- No entry of the table has changed. -/
def SameFat (v : FatVolume) (disk disk' : Disk) : Prop :=
  ∀ x, fat32.fatEntry v disk' x = fat32.fatEntry v disk x

/-- The call succeeds and extends the chain, or fails and leaves the table alone; and it succeeds
when there is a free cluster. -/
def AddsCluster (v : FatVolume) (priv : FatPrivate) (disk : Disk) (first : ℕ)
    (chain : List ℕ) : Prop :=
  ∃ res priv' disk',
    fat32Driver.addClusterToChain v priv disk first = some (res, priv', disk') ∧
    ((res = 0 ∧ ExtendsChain v disk chain disk') ∨ (res < 0 ∧ SameFat v disk disk')) ∧
    ((fat32GetFirstFreeCluster v priv disk).1 ≠ 0 → res = 0)

/-- There is nothing to add: no entry that the search tries is zero, or the search starts with
entry `0`, is zero there, and storing the file system information does not touch the table. -/
def NothingToAdd (v : FatVolume) (priv : FatPrivate) (disk : Disk) : Prop :=
  (∀ c, fat32Tried v priv c → fat32.entryCode v disk c ≠ 0) ∨
    (fat32SearchStart priv = 0 ∧ fat32.entryCode v disk 0 = 0 ∧
      SameFat v disk (storeFsinfo priv disk 0))

/-- The number of bytes written is never the `2` that the call expects. -/
lemma fat32AddClusterToChain_found {last : ℕ}
    (hlast : fat32.findLastClusterOfChain v disk first = some last)
    (hfound : (fat32GetFirstFreeCluster v priv disk).1 ≠ 0) :
    ∃ priv' disk', fat32Driver.addClusterToChain v priv disk first = some (-eio, priv', disk') := by
  have hlinked : ∀ disk' c val, (fat32.writeFatEntry v disk' c val).1 = 4 := fun _ _ _ => rfl
  have hfound' : ¬ (fat32Driver.getFirstFreeCluster v priv disk).1 = 0 := hfound
  rw [FatDriver.addClusterToChain, show fat32Driver.kind = fat32 from rfl, hlast]
  simp only [Option.bind_eq_bind, Option.bind_some, hlinked]
  rw [if_neg hfound']
  exact ⟨_, _, rfl⟩

/-- Without a free cluster the call only passes on what the search has done. -/
lemma fat32AddClusterToChain_none {last : ℕ} {priv' : FatPrivate} {disk' : Disk}
    (hlast : fat32.findLastClusterOfChain v disk first = some last)
    (hnone : fat32GetFirstFreeCluster v priv disk = (0, priv', disk')) :
    fat32Driver.addClusterToChain v priv disk first = some (-enodiskspace, priv', disk') := by
  have hnone' : fat32Driver.getFirstFreeCluster v priv disk = (0, priv', disk') := hnone
  rw [FatDriver.addClusterToChain, show fat32Driver.kind = fat32 from rfl, hlast]
  simp only [Option.bind_eq_bind, Option.bind_some, hnone']
  rfl

/-- On a volume without faults, for a chain with an end, `fat32_add_cluster_to_chain` does what
it promises if and only if there is nothing to add. -/
theorem fat32_add_cluster_iff (hv : HeaderRanges v) (hf : disk.FaultFree)
    (h : fat32.StartsChain v disk first chain) :
    AddsCluster v priv disk first chain ↔ NothingToAdd v priv disk := by
  have hlast := h.findLast32 hv hf
  have hneg : -enodiskspace < 0 := by decide
  rcases fat32GetFirstFreeCluster_spec v priv disk with ⟨hnone, hall⟩ | ⟨c, hfirst, hsome⟩
  · -- the search tries all entries
    refine iff_of_true ⟨_, _, _, fat32AddClusterToChain_none hlast hnone, ?_, ?_⟩ (Or.inl hall)
    · exact Or.inr ⟨hneg, fun _ => rfl⟩
    · rw [hnone]
      exact fun hne => absurd rfl hne
  have htried : fat32Tried v priv c := ⟨hfirst.start_le, hfirst.le_max⟩
  rcases Nat.eq_zero_or_pos c with rfl | hpos
  · -- the search has stopped at entry `0`, which it reports as no cluster
    have hzero : fat32SearchStart priv = 0 := Nat.le_zero.mp hfirst.start_le
    have hadd := fat32AddClusterToChain_none hlast hsome
    constructor
    · rintro ⟨res, p, d, hrun, hres, -⟩
      obtain ⟨rfl, -, rfl⟩ : -enodiskspace = res ∧ _ = p ∧ storeFsinfo priv disk 0 = d := by
        simpa using hadd.symm.trans hrun
      rcases hres with ⟨hzero', -⟩ | ⟨-, hsame⟩
      · exact absurd hzero' (by decide)
      · exact Or.inr ⟨hzero, hfirst.free, hsame⟩
    · rintro (hall | ⟨-, -, hsame⟩)
      · exact absurd hfirst.free (hall 0 htried)
      · refine ⟨_, _, _, hadd, Or.inr ⟨hneg, hsame⟩, ?_⟩
        rw [hsome]
        exact fun hne => absurd rfl hne
  · -- a cluster is found, and the call fails
    have hfound : (fat32GetFirstFreeCluster v priv disk).1 ≠ 0 := by
      rw [hsome]
      exact Nat.pos_iff_ne_zero.mp hpos
    obtain ⟨p, d, hadd⟩ := fat32AddClusterToChain_found hlast hfound
    refine iff_of_false ?_ ?_
    · rintro ⟨res, p', d', hrun, -, hok⟩
      obtain ⟨rfl, -⟩ : -eio = res ∧ _ := by simpa using hadd.symm.trans hrun
      exact absurd (hok hfound) (by decide)
    · rintro (hall | ⟨hzero, hfree', -⟩)
      · exact hall c htried hfirst.free
      · exact hfirst.used 0 hzero.le hpos hfree'

/-- File system information that names no next free cluster. -/
def unknownFsinfo : FatPrivate where
  rootDirectory := ⟨fun _ => ⟨fun _ => 0⟩, 0, 0⟩
  fsInfoLocation := 0
  fsinfo _ := 0xFF

lemma headerRanges_small : HeaderRanges smallVolume := ⟨by decide, by decide⟩

lemma startsChain_singleton {disk : Disk} {c : ℕ} (hc : c < fat32.endOfChain)
    (hend : fat32.endOfChain ≤ fat32.fatEntry smallVolume disk c) :
    fat32.StartsChain smallVolume disk c [c] := by
  refine ⟨rfl, ⟨List.nodup_singleton c, fun i hi => ?_, fun i hi => ?_⟩, ?_⟩
  · simp at hi
  · obtain rfl : i = 0 := by simpa using hi
    exact hend
  · simpa using hc

/-- A chain on a volume on which every entry of the table is a marker. -/
theorem fat32_add_cluster_iff_full :
    AddsCluster smallVolume unknownFsinfo (diskWith fun _ => 0xFF) 3 [3] := by
  have hchain : fat32.StartsChain smallVolume (diskWith fun _ => 0xFF) 3 [3] :=
    startsChain_singleton (by decide) (by decide)
  refine (fat32_add_cluster_iff headerRanges_small (diskWith_faultFree _) hchain).mpr
    (Or.inl fun c hc => ?_)
  have hle : c ≤ 64 := hc.2.trans (by decide)
  have hslice : ∀ a, slice (fun _ => 0xFF) a 4 = [0xFF, 0xFF, 0xFF, 0xFF] := fun _ => rfl
  have hentry : fat32.fatEntry smallVolume (diskWith fun _ => 0xFF) c = 0xFFFFFFFF :=
    (congrArg number (hslice _)).trans (by decide)
  rw [entryCode_eq (diskWith_faultFree _) (fat32_tablePos_lt headerRanges_small (by omega)),
    hentry]
  decide

/-- A chain of cluster `3`, behind which all clusters are free. -/
def looseDisk : Disk := diskWith fun a => if 524 ≤ a ∧ a < 528 then 0xFF else 0

/-- Cluster `4` is free, but the call fails. -/
theorem not_fat32_add_cluster_free :
    HeaderRanges smallVolume ∧ looseDisk.FaultFree ∧
      fat32.StartsChain smallVolume looseDisk 3 [3] ∧
      ¬ AddsCluster smallVolume unknownFsinfo looseDisk 3 [3] := by
  have hchain : fat32.StartsChain smallVolume looseDisk 3 [3] :=
    startsChain_singleton (by decide) (by decide)
  refine ⟨headerRanges_small, diskWith_faultFree _, hchain, ?_⟩
  rintro ⟨res, priv', disk', hrun, -, hok⟩
  have hfound : (fat32GetFirstFreeCluster smallVolume unknownFsinfo looseDisk).1 ≠ 0 := by decide
  obtain ⟨p, d, hadd⟩ := fat32AddClusterToChain_found
    (hchain.findLast32 headerRanges_small (diskWith_faultFree _)) hfound
  obtain ⟨rfl, -⟩ : -eio = res ∧ _ := by simpa using hadd.symm.trans hrun
  exact absurd (hok hfound) (by decide)

end SerpaeOS
