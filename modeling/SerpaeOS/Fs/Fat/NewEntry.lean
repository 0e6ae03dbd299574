import SerpaeOS.Fs.Fat.CreateFile
import SerpaeOS.Fs.Fat.EntrySlot

/-!
# The entry of a new file

When `fat16_create_file` does what is expected of it.  The new entry is the one with the number of
the entries that are not deleted: it is free when no deleted entry stands before one that is not, or
when it is a deleted one itself.
-/

namespace SerpaeOS

open Bytes Word FatKind

variable {v : FatVolume} {place : DirectoryPlace} {priv : FatPrivate} {disk disk' : Disk}
  {now : DateTime} {behind : ℕ → FatDirectoryItem} {path : List (List UInt8)}
  {filename : List UInt8} {name : ShortName} {dir : FatDirectory} {item tmp : FatDirectoryItem}
  {chain : List ℕ} {e e' : ℕ → FatDirectoryItem} {base t n l i j c f : ℕ}

/-! ## The entries of a directory -/

/-- The number of the terminator, when an entry is put behind the ones that are not deleted. -/
def terminatorAfter (e : ℕ → FatDirectoryItem) (n : ℕ) : ℕ :=
  if liveCount e n = n then n + 1 else n

/-- The number of live entries depends on which entries are deleted. -/
lemma liveCount_congr (h : ∀ i < n, ((e' i).Deleted ↔ (e i).Deleted)) :
    liveCount e' n = liveCount e n := by
  refine List.countP_congr fun i hi => ?_
  simp only [h i (List.mem_range.mp hi)]

/-- One more live entry in the place of a deleted one. -/
lemma liveCount_replace (hl : (e l).Deleted) (hl' : ¬ (e' l).Deleted)
    (h : ∀ i, i ≠ l → i < n → ((e' i).Deleted ↔ (e i).Deleted)) (hlt : l < n) :
    liveCount e' n = liveCount e n + 1 := by
  induction n with
  | zero => exact absurd hlt (Nat.not_lt_zero l)
  | succ n ih =>
    rw [liveCount_succ, liveCount_succ]
    rcases Nat.lt_succ_iff_lt_or_eq.mp hlt with hlt | rfl
    · rw [ih (fun i hne hi => h i hne (by omega)) hlt]
      simp only [h n (by omega) (Nat.lt_succ_self n)]
      omega
    · rw [liveCount_congr fun i hi => h i hi.ne (by omega), if_neg hl', if_pos hl]

lemma liveCount_lt_terminatorAfter (e : ℕ → FatDirectoryItem) (n : ℕ) :
    liveCount e n < terminatorAfter e n := by
  have hle := liveCount_le e n
  rw [terminatorAfter]
  split_ifs <;> omega

/-- A live entry in the place of a free one, as far behind the first as there are live ones. -/
lemma Terminated.replace (h : Terminated e n)
    (hspare : liveCount e n = n → (e (n + 1)).raw 0 = 0x00) (hfree : (e (liveCount e n)).Free)
    (hsame : ∀ i ≤ terminatorAfter e n, i ≠ liveCount e n → (e' i).raw 0 = (e i).raw 0)
    (hnew : ¬ (e' (liveCount e n)).Free) :
    Terminated e' (terminatorAfter e n) ∧
      liveCount e' (terminatorAfter e n) = liveCount e n + 1 := by
  have hle := liveCount_le e n
  have hdel : ∀ i ≤ terminatorAfter e n, i ≠ liveCount e n →
      ((e' i).Deleted ↔ (e i).Deleted) := fun i hi hne => by
    rw [FatDirectoryItem.Deleted, hsame i hi hne, FatDirectoryItem.Deleted]
  have hnew0 : (e' (liveCount e n)).raw 0 ≠ 0x00 := fun h0 => hnew (Or.inl h0)
  have hnewdel : ¬ (e' (liveCount e n)).Deleted := fun hdel => hnew (Or.inr hdel)
  rw [terminatorAfter] at hsame hdel ⊢
  by_cases hall : liveCount e n = n
  · -- the new entry takes the place of the terminator
    rw [if_pos hall] at hsame hdel ⊢
    rw [hall] at hsame hdel hnew0 hnewdel ⊢
    refine ⟨⟨fun i hi => ?_, ?_⟩, ?_⟩
    · rcases Nat.lt_succ_iff_lt_or_eq.mp hi with hlt | rfl
      · rw [hsame i (by omega) (by omega)]
        exact h.used i hlt
      · exact hnew0
    · rw [hsame (n + 1) le_rfl (by omega)]
      exact hspare hall
    · rw [liveCount_succ, if_neg hnewdel,
        liveCount_congr fun i hi => hdel i (by omega) (by omega), hall]
  · -- it takes that of a deleted entry
    rw [if_neg hall] at hsame hdel ⊢
    have hlt : liveCount e n < n := by omega
    have hdeleted : (e (liveCount e n)).Deleted := hfree.resolve_left (h.used _ hlt)
    refine ⟨⟨fun i hi => ?_, ?_⟩, ?_⟩
    · by_cases hi' : i = liveCount e n
      · rw [hi']
        exact hnew0
      · rw [hsame i hi.le hi']
        exact h.used i hi
    · rw [hsame n le_rfl (by omega)]
      exact h.terminator
    · exact liveCount_replace hdeleted hnewdel (fun i hne hi => hdel i hi.le hne) hlt

/-! ## Where directories lie -/

/-- The entries up to `t` lie one behind the other from the position `base` on, the others at
multiples of their size, and all of them behind the tables. -/
structure LiesAt (v : FatVolume) (place : DirectoryPlace) (base t : ℕ) : Prop where
  raw_eq : ∀ i ≤ t, ∀ disk, ∀ j < itemSize,
    (place.entries disk i).raw j = disk.byte (base + i * itemSize + j)
  aligned : ∀ i, ∃ p, itemSize ∣ p ∧ v.tableEnd ≤ p ∧ ∀ disk, ∀ j < itemSize,
    (place.entries disk i).raw j = disk.byte (p + j)
  dvd : itemSize ∣ base
  tableEnd_le : v.tableEnd ≤ base
  base_lt : base + (t + 1) * itemSize < 2 ^ 31
  lt_capacity : t < place.capacity

/-- The disk with an entry stored as number `i` of a directory. -/
def storeEntry (disk : Disk) (base i : ℕ) (tmp : FatDirectoryItem) : Disk :=
  { disk with byte := store disk.byte (base + i * itemSize) (slice tmp.raw 0 itemSize) }

/-- The entry of the cluster lies in the table. -/
def InTable (v : FatVolume) (c : ℕ) : Prop :=
  (c + 1) * fat16.entrySize ≤ v.sectorsPerFat * v.sectorSize

lemma InTable.tablePos_le (h : InTable v c) :
    fat16.tablePos v c + fat16.entrySize ≤ v.tableEnd := by
  rw [InTable, Nat.succ_mul] at h
  rw [tablePos, FatVolume.tableEnd, Nat.add_mul]
  omega

lemma SameBytes.trans {e e' e'' : FatDirectoryItem} (h : SameBytes e e') (h' : SameBytes e' e'') :
    SameBytes e e'' := fun j hj => (h j hj).trans (h' j hj)

lemma SameBytes.raw_zero {e e' : FatDirectoryItem} (h : SameBytes e e') : e.raw 0 = e'.raw 0 :=
  h 0 (by decide)

lemma SameBytes.free_iff {e e' : FatDirectoryItem} (h : SameBytes e e') : e.Free ↔ e'.Free := by
  rw [FatDirectoryItem.Free, h.raw_zero, FatDirectoryItem.Free]

lemma SameBytes.fullRelativeFilename_eq {e e' : FatDirectoryItem} (h : SameBytes e e') :
    e.fullRelativeFilename = e'.fullRelativeFilename :=
  (fullRelativeFilename_congr fun j hj => h j (hj.trans (by decide))).1

lemma SameBytes.firstCluster_eq {e e' : FatDirectoryItem} (h : SameBytes e e') :
    e.firstCluster = e'.firstCluster := by
  have hhigh : u16le e.raw 20 = u16le e'.raw 20 :=
    u16le_congr fun i hi => h (20 + i) (by rw [itemSize]; omega)
  have hlow : u16le e.raw 26 = u16le e'.raw 26 :=
    u16le_congr fun i hi => h (26 + i) (by rw [itemSize]; omega)
  rw [FatDirectoryItem.firstCluster, FatDirectoryItem.high16BitsFirstCluster,
    FatDirectoryItem.low16BitsFirstCluster, hhigh, hlow]
  rfl

namespace LiesAt

/-- The table has no byte of an entry. -/
lemma setEntry (h : LiesAt v place base t) (hc : InTable v c) (val i : ℕ) :
    SameBytes (place.entries (fat16.setEntry v disk c val) i) (place.entries disk i) := by
  obtain ⟨p, -, hp, hraw⟩ := h.aligned i
  have hle := hc.tablePos_le
  intro j hj
  rw [hraw _ j hj, hraw _ j hj, FatKind.setEntry]
  exact store_of_lt (Or.inr (by rw [length_numberBytes]; omega))

/-- The stored entry. -/
lemma storeEntry_self (h : LiesAt v place base t) (hi : i ≤ t) :
    SameBytes (place.entries (storeEntry disk base i tmp) i) tmp := by
  intro j hj
  rw [h.raw_eq i hi _ j hj, storeEntry]
  dsimp only
  rw [store_add (by rwa [length_slice]), getD_slice hj, Nat.zero_add]

/-- Another entry is kept, or it is the same one by another number. -/
lemma storeEntry_cases (h : LiesAt v place base t) (hi : i ≤ t) (j : ℕ) :
    SameBytes (place.entries (storeEntry disk base i tmp) j) (place.entries disk j) ∨
      ∀ d, SameBytes (place.entries d j) (place.entries d i) := by
  obtain ⟨p, hdvd, -, hraw⟩ := h.aligned j
  by_cases hp : p = base + i * itemSize
  · right
    intro d b hb
    rw [hraw d b hb, h.raw_eq i hi d b hb, hp]
  · left
    obtain ⟨m, rfl⟩ := hdvd
    obtain ⟨m', hm'⟩ := h.dvd
    intro b hb
    rw [hraw _ b hb, hraw _ b hb, storeEntry]
    refine store_of_lt ?_
    rw [length_slice]
    simp only [itemSize] at hb hp hm' ⊢
    omega

lemma storeEntry_of_ne (h : LiesAt v place base t) (hj : j ≤ t) (hne : j ≠ i) :
    SameBytes (place.entries (storeEntry disk base i tmp) j) (place.entries disk j) := by
  intro b hb
  rw [h.raw_eq j hj _ b hb, h.raw_eq j hj _ b hb, storeEntry]
  refine store_of_lt ?_
  rw [length_slice]
  simp only [itemSize] at hb ⊢
  omega

/-- The table is in front of the directory. -/
lemma fatEntry_storeEntry (h : LiesAt v place base t) (hc : InTable v c) :
    fat16.fatEntry v (storeEntry disk base i tmp) c = fat16.fatEntry v disk c := by
  have hle := hc.tablePos_le
  have hbase := h.tableEnd_le
  refine fatEntry_congr fun a _ ha => ?_
  rw [storeEntry]
  exact store_of_lt (Or.inl (by omega))

end LiesAt

/-! ## The first step -/

/-- The cluster that is found is marked as the end of a chain. -/
lemma fat16GenerateClusterChain_one (v : FatVolume) (priv : FatPrivate) (disk : Disk) :
    fat16GenerateClusterChain v priv disk 1 =
      if (fat16GetFirstFirstCluster v priv disk).1 = 0 then some (0, priv, disk)
      else some ((fat16GetFirstFirstCluster v priv disk).1, priv,
        (fat16.writeFatEntry v disk (fat16GetFirstFirstCluster v priv disk).1 0xFFFF).2) := by
  have hget : fat16Driver.getFirstFreeCluster v priv disk =
      ((fat16GetFirstFirstCluster v priv disk).1, priv, disk) := rfl
  have hwritten : ∀ c, ¬ (fat16Driver.kind.writeFatEntry v disk c 0xFFFF).1 ≠
      fat16Driver.kind.entrySize := fun _ => not_not.mpr rfl
  rw [fat16GenerateClusterChain, FatDriver.generateClusterChain, if_neg (by decide), hget]
  simp only [if_neg (hwritten _)]
  rfl

/-- The first free cluster that the search comes to. -/
def FirstFree16 (v : FatVolume) (disk : Disk) (f : ℕ) : Prop :=
  FirstFree (fat16.entryCode v disk) 3 (v.sectorsBig / v.sectorsPerCluster) f

/-- No cluster that the search comes to is free. -/
def NoneFree16 (v : FatVolume) (disk : Disk) : Prop :=
  ∀ c, 3 ≤ c → c ≤ max 3 (v.sectorsBig / v.sectorsPerCluster) → fat16.entryCode v disk c ≠ 0

lemma NoneFree16.not_firstFree (h : NoneFree16 v disk) : ¬ FirstFree16 v disk f :=
  fun hf => h f hf.start_le hf.le_max hf.free

lemma noneFree_or_firstFree (v : FatVolume) (disk : Disk) :
    NoneFree16 v disk ∨ ∃ f, FirstFree16 v disk f := by
  rcases freeClusterLoop_spec (fat16.entryCode v disk) (v.sectorsBig / v.sectorsPerCluster) 3 with
    ⟨-, hall⟩ | ⟨f, -, hf⟩
  · exact Or.inl hall
  · exact Or.inr ⟨f, hf⟩

lemma NoneFree16.search_eq (h : NoneFree16 v disk) (priv : FatPrivate) :
    (fat16GetFirstFirstCluster v priv disk).1 = 0 :=
  Option.some.inj ((fat16FirstFirstCluster_eq v priv disk).symm.trans
    (fat16FirstFirstCluster_of_none h))

lemma FirstFree16.search_eq (h : FirstFree16 v disk f) (hlt : f < 2 ^ 16) (priv : FatPrivate) :
    (fat16GetFirstFirstCluster v priv disk).1 = f := by
  have hfirst : Fat16Header.FirstFree ⟨v, 0⟩ disk f := h
  have hsearch := (fat16FirstFirstCluster_eq v priv disk).symm.trans hfirst.search_eq
  rw [Option.some.inj hsearch, Nat.mod_eq_of_lt hlt]

/-! ## The search for a free entry -/

/-- The search returns the first free entry. -/
lemma fat16FindFreeEntry_of_free {e : ℕ → FatDirectoryItem} (hlt : i < 0xFFFF)
    (hfree : (e i).Free) : ∃ r, r < 0xFFFF ∧ fat16FindFreeEntryInDirectory e = some r := by
  -- from `n` entries in front of the free one on
  have hrun : ∀ n j, j + n = i → ∃ r, r < 0xFFFF ∧ Loop.run ⟨fun res => some <|
      if (e res).Free then .inr res else .inl ((res + 1) % 2 ^ 16)⟩ j = some r := by
    intro n
    induction n with
    | zero =>
      intro j hj
      obtain rfl : j = i := hj
      exact ⟨j, hlt, Loop.run_leave (congrArg some (if_pos hfree))⟩
    | succ n ih =>
      intro j hj
      by_cases hnow : (e j).Free
      · exact ⟨j, by omega, Loop.run_leave (congrArg some (if_pos hnow))⟩
      · obtain ⟨r, hr, hrest⟩ := ih (j + 1) (by omega)
        refine ⟨r, hr, (Loop.run_next (congrArg some (if_neg hnow))).trans ?_⟩
        rwa [Nat.mod_eq_of_lt (by omega : j + 1 < 2 ^ 16)]
  exact hrun i 0 (Nat.zero_add i)

/-! ## Directories with room for the entry -/

/-- The root directory has entries up to the number `t`, and fewer than `entriesPerCluster` live
ones. -/
structure RootFits (v : FatVolume) (l t : ℕ) : Prop where
  lt_entries : t < v.rootDirEntries
  root_lt : fat16RootSector v * v.sectorSize + (t + 1) * itemSize < 2 ^ 31
  live_lt : l < entriesPerCluster v

/-- The clusters of the directory lie next to each other up to the entry `t`; the driver takes none
of them for a special value, and finds its way to the entry `l`. -/
structure ChainFits (v : FatVolume) (disk : Disk) (item : FatDirectoryItem) (chain : List ℕ)
    (l t : ℕ) : Prop where
  subdirectory : item.attributeBits &&& fatFileSubdirectory ≠ 0
  isChain : fat16.IsChain v disk chain
  inTable : ∀ c ∈ chain, InTable v c
  first_eq : chain.head? = some item.firstCluster
  contiguous : ∀ j, j * v.clusterBytes ≤ t * itemSize → chain.getD j 0 = item.firstCluster + j
  walkable : fat16.Walkable v chain 0 ((l + 1) * itemSize)
  live_lt : l < entriesPerCluster v ∨ v.sectorsPerCluster = 1 ∧ 2 < item.firstCluster

/-- A place with room for the entry, and its position. -/
inductive Fits (v : FatVolume) (disk : Disk) (l t : ℕ) : DirectoryPlace → ℕ → Prop
  | root (h : RootFits v l t) : Fits v disk l t (rootPlace v) (fat16RootSector v * v.sectorSize)
  | chain {item : FatDirectoryItem} {chain : List ℕ} (h : ChainFits v disk item chain l t) :
      Fits v disk l t (chainPlace v item chain) (fat16.dataPos v item.firstCluster)

/-- The entries in the table that are not zero are the same. -/
def KeepsUsed (v : FatVolume) (disk disk' : Disk) : Prop :=
  ∀ c, InTable v c → fat16.fatEntry v disk c ≠ 0 →
    fat16.fatEntry v disk' c = fat16.fatEntry v disk c

lemma rootBase_eq (v : FatVolume) : v.tableEnd ≤ fat16RootSector v * v.sectorSize := by
  refine Nat.mul_le_mul_right _ ?_
  rw [fat16RootSector, Nat.add_comm]
  exact Nat.add_le_add_right v.sectorsPerFat_le _

lemma itemSize_dvd_mul (hsector : v.sectorSize = defaultSectorSize) (n : ℕ) :
    itemSize ∣ n * v.sectorSize := by
  rw [hsector]
  exact Dvd.dvd.mul_left (by decide) _

lemma RootFits.liesAt (h : RootFits v l t) (hsector : v.sectorSize = defaultSectorSize) :
    LiesAt v (rootPlace v) (fat16RootSector v * v.sectorSize) t where
  raw_eq i _ disk j _ := congrArg disk.byte (Nat.add_assoc _ _ _).symm
  aligned i := by
    refine ⟨fat16RootSector v * v.sectorSize + i * itemSize, ?_, ?_, fun disk j _ => ?_⟩
    · exact Nat.dvd_add (itemSize_dvd_mul hsector _) (Nat.dvd_mul_left _ _)
    · exact (rootBase_eq v).trans (Nat.le_add_right _ _)
    · exact congrArg disk.byte (Nat.add_assoc _ _ _).symm
  dvd := itemSize_dvd_mul hsector _
  tableEnd_le := rootBase_eq v
  base_lt := h.root_lt
  lt_capacity := h.lt_entries

namespace ChainFits

lemma onVolume (h : ChainFits v disk item chain l t) : fat16.OnVolume v item.firstCluster :=
  h.isChain.onVolume _ (List.mem_of_mem_head? h.first_eq)

/-- The clusters up to the entry `t` are clusters of the chain. -/
lemma mem (h : ChainFits v disk item chain l t) (hj : j * v.clusterBytes ≤ t * itemSize) :
    j < chain.length ∧ item.firstCluster + j ∈ chain := by
  have hget := h.contiguous j hj
  have h2 := h.onVolume.two_le
  have hlt : j < chain.length := by
    by_contra hge
    rw [List.getD_eq_default _ _ (Nat.not_lt.mp hge)] at hget
    omega
  exact ⟨hlt, hget ▸ IsChain.getD_mem hlt⟩

lemma dataPos_add (h : ChainFits v disk item chain l t) (j : ℕ) :
    fat16.dataPos v (item.firstCluster + j) =
      fat16.dataPos v item.firstCluster + j * v.clusterBytes := by
  have h2 := h.onVolume.two_le
  have hsub : item.firstCluster + j - 2 = item.firstCluster - 2 + j := by omega
  rw [dataPos_eq, dataPos_eq, hsub, Nat.add_mul, Nat.add_assoc]

end ChainFits

/-- The bytes of an entry lie in one cluster. -/
lemma chainEntries_raw (hsector : v.sectorSize = defaultSectorSize) (disk : Disk) (chain : List ℕ)
    (i : ℕ) (hj : j < itemSize) : (fat16.chainEntries v disk chain i).raw j =
      disk.byte (fat16.dataPos v (chain.getD (i * itemSize / v.clusterBytes) 0) +
        i * itemSize % v.clusterBytes + j) := by
  have hB : 0 < v.clusterBytes := v.clusterBytes_pos
  -- the size of a cluster is a multiple of that of an entry
  have hin := itemSize_mod_add_le hsector i
  have hlt : i * itemSize % v.clusterBytes + j < v.clusterBytes := by omega
  have hsplit : i * itemSize + j = v.clusterBytes * (i * itemSize / v.clusterBytes) +
      (i * itemSize % v.clusterBytes + j) := by
    rw [← Nat.add_assoc, Nat.div_add_mod]
  have hdiv : (i * itemSize + j) / v.clusterBytes = i * itemSize / v.clusterBytes := by
    rw [hsplit, Nat.mul_add_div hB, Nat.div_eq_of_lt hlt, Nat.add_zero]
  have hmod : (i * itemSize + j) % v.clusterBytes = i * itemSize % v.clusterBytes + j := by
    rw [hsplit, Nat.mul_add_mod, Nat.mod_eq_of_lt hlt]
  have hraw : (fat16.chainEntries v disk chain i).raw j =
      disk.byte (fat16.dataPos v (chain.getD ((i * itemSize + j) / v.clusterBytes) 0) +
        (i * itemSize + j) % v.clusterBytes) := rfl
  rw [hraw, hdiv, hmod, Nat.add_assoc]

lemma ChainFits.liesAt (h : ChainFits v disk item chain l t)
    (hsector : v.sectorSize = defaultSectorSize) :
    LiesAt v (chainPlace v item chain) (fat16.dataPos v item.firstCluster) t := by
  have hB : 0 < v.clusterBytes := v.clusterBytes_pos
  have hcluster : ∀ i ≤ t, i * itemSize / v.clusterBytes * v.clusterBytes ≤ t * itemSize :=
    fun i hi => (Nat.div_mul_le_self _ _).trans (Nat.mul_le_mul_right _ hi)
  have hlast := itemSize_mod_add_le hsector t
  have hdivmod := Nat.div_add_mod (t * itemSize) v.clusterBytes
  rw [Nat.mul_comm] at hdivmod
  obtain ⟨hlen, hmem⟩ := h.mem (hcluster t le_rfl)
  refine ⟨fun i hi disk j hj => ?_, fun i => ?_, itemSize_dvd_mul hsector _,
    tableEnd_le.trans (dataStart_le _), ?_, ?_⟩
  · refine (chainEntries_raw hsector disk chain i hj).trans (congrArg disk.byte ?_)
    have hdivmod := Nat.div_add_mod (i * itemSize) v.clusterBytes
    rw [h.contiguous _ (hcluster i hi), h.dataPos_add, Nat.mul_comm _ v.clusterBytes]
    omega
  · refine ⟨_, ?_, ?_, fun disk j hj => chainEntries_raw hsector disk chain i hj⟩
    · exact Nat.dvd_add (itemSize_dvd_mul hsector _)
        ((Nat.dvd_mod_iff (itemSize_dvd_clusterBytes hsector)).mpr (Nat.dvd_mul_left _ _))
    · exact (tableEnd_le.trans (dataStart_le _)).trans (Nat.le_add_right _ _)
  · have hlt := (h.isChain.onVolume _ hmem).data_lt
    rw [h.dataPos_add] at hlt
    rw [Nat.succ_mul]
    omega
  · have hle : (t * itemSize / v.clusterBytes + 1) * v.clusterBytes ≤
        chain.length * v.clusterBytes := Nat.mul_le_mul_right _ hlen
    refine (Nat.le_div_iff_mul_le (by decide)).mpr ?_
    rw [Nat.succ_mul] at hle ⊢
    omega

lemma Fits.liesAt (h : Fits v disk l t place base) (hsector : v.sectorSize = defaultSectorSize) :
    LiesAt v place base t := by
  cases h with
  | root h => exact h.liesAt hsector
  | chain h => exact h.liesAt hsector

/-! ## Loading the directory -/

lemma loadDirectory_sectorPos {k : FatKind} {cluster : ℤ}
    (h : k.loadDirectory v disk cluster = some (.ok dir)) :
    dir.sectorPos = k.clusterToSector v cluster := by
  obtain ⟨total, -, h⟩ := Option.bind_eq_some_iff.mp h
  simp only at h
  split_ifs at h
  · cases h
  · obtain rfl := Except.ok.inj (Option.some.inj h)
    rfl

/-- The directory loads when it ends with an entry up to `t`. -/
lemma Fits.load (h : Fits v disk l t place base) (hsector : v.sectorSize = defaultSectorSize)
    (hf : disk'.FaultFree) (hkeeps : KeepsUsed v disk disk')
    (hterm : Terminated (place.entries disk') n) (hn : n ≤ t)
    (hlive : liveCount (place.entries disk') n ≤ l + 1) :
    ∃ dir, place.load disk' = some (.ok dir) ∧ LoadedFrom dir (place.entries disk') n ∧
      dir.sectorPos * v.sectorSize = base := by
  have hlies := h.liesAt hsector
  cases h with
  | root h =>
    have hlt := h.root_lt
    have hroot : RootDirectory v disk' n := ⟨hterm, hn.trans_lt h.lt_entries, by omega⟩
    obtain ⟨dir, hload, hfrom⟩ := hroot.load hf
    refine ⟨dir, hload, hfrom, ?_⟩
    obtain rfl := Except.ok.inj (Option.some.inj ((hroot.load_eq hf).symm.trans hload))
    exact (Nat.cast_mul _ _).symm
  | @chain item chain h =>
    -- the links of the chain are entries in use
    have hchain : fat16.IsChain v disk' chain := h.isChain.congr fun c hc =>
      hkeeps c (h.inTable c hc) (h.isChain.fatEntry_ne_zero hc)
    have hle : (n + 1) * itemSize ≤ chain.length * v.clusterBytes :=
      (Nat.le_div_iff_mul_le (by decide)).mp (hn.trans_lt hlies.lt_capacity)
    have hdir : fat16.ChainDirectory v disk' item.firstCluster chain n := by
      refine ⟨hchain, h.first_eq, hle, hterm, fun i hi => ?_⟩
      have hraw := hlies.raw_eq i (hi.trans hn) disk' 0 (by decide)
      exact hraw.symm
    have hwalk : fat16.Walkable v chain 0
        (liveCount (fat16.chainEntries v disk' chain) n * itemSize) := by
      refine fun j hj hj' => h.walkable j hj (hj'.trans ?_)
      have hlive' : liveCount (fat16.chainEntries v disk' chain) n * itemSize ≤
          (l + 1) * itemSize := Nat.mul_le_mul_right _ hlive
      exact Nat.add_le_add_left (Nat.div_le_div_right (Nat.sub_le_sub_right hlive' 1)) _
    obtain ⟨dir, hload, hfrom⟩ := hdir.load hf hwalk
    have hload' : fat16LoadFatDirectory v disk' item = some (.ok dir) := by
      rw [fat16LoadFatDirectory, loadFatDirectory, if_neg h.subdirectory,
        FatDirectoryItem.firstClusterInt, h.onVolume.i32_eq, hload]
    refine ⟨dir, hload', hfrom, ?_⟩
    rw [loadDirectory_sectorPos hload]
    exact h.onVolume.clusterPos_eq

/-! ## The position of the entry -/

/-- Without clusters to pass over the position is that of the entry. -/
lemma newEntryPos_of_zero (htotal : dir.total = l) (hbase : dir.sectorPos * v.sectorSize = base)
    (hlt : base + l * itemSize < 2 ^ 32)
    (hclusters : u32 dir.total / entriesPerCluster v % 2 ^ 16 = 0) :
    newEntryPos v disk dir = some (some (base + l * itemSize)) := by
  have hpos : dir.sectorPos * v.sectorSize + itemSize * dir.total =
      ((base + l * itemSize : ℕ) : ℤ) := by
    rw [hbase, htotal]
    push_cast
    ring
  rw [newEntryPos]
  simp only [hclusters, hpos]
  rw [if_neg (not_not.mpr rfl), u32_of_lt hlt]

/-- The loop goes from cluster to cluster until the entries left are those of one. -/
lemma parentClusterLoop_eq (h : ChainFits v disk item chain l t) (hlt : l ≤ t)
    (hEPC : entriesPerCluster v * itemSize = v.clusterBytes) (hf : disk'.FaultFree)
    (hkeeps : KeepsUsed v disk disk') (hfirst : 2 < item.firstCluster) :
    ∀ i j, 0 < i → i + j * entriesPerCluster v = l → ∃ i' j', 0 < i' ∧
      i' + j' * entriesPerCluster v = l ∧ i' ≤ entriesPerCluster v ∧
      parentClusterLoop v disk' i (item.firstCluster + j) =
        some (i', item.firstCluster + j') := by
  have hpos : 0 < entriesPerCluster v := by
    refine Nat.pos_of_ne_zero fun hzero => ?_
    have hB := v.clusterBytes_pos
    rw [hzero, Nat.zero_mul] at hEPC
    exact absurd hEPC.symm v.clusterBytes_ne_zero
  -- the clusters that the loop comes to are clusters of the directory
  have hmem : ∀ j, j * entriesPerCluster v ≤ l →
      j < chain.length ∧ item.firstCluster + j ∈ chain := by
    intro j hj
    refine h.mem ?_
    rw [← hEPC, ← Nat.mul_assoc]
    exact Nat.mul_le_mul_right _ (hj.trans hlt)
  -- by induction on the entries that are left; `j` counts the clusters passed over
  intro i
  induction i using Nat.strong_induction_on with
  | _ i ih =>
    intro j hi hij
    by_cases hmore : entriesPerCluster v < i
    · have hnext : (j + 1) * entriesPerCluster v ≤ l := by
        rw [Nat.succ_mul]
        omega
      obtain ⟨-, hc⟩ := hmem j (by omega)
      obtain ⟨hlen, -⟩ := hmem (j + 1) hnext
      have hon := h.isChain.onVolume _ hc
      have hmax : item.firstCluster + j < 0xFFF0 := hon.le_max.trans_lt (by decide)
      -- the next cluster of a contiguous chain is the one with the next number
      have hentry : fat16.entryCode v disk' (item.firstCluster + j) =
          item.firstCluster + (j + 1) := by
        have hget := h.contiguous j (by
          rw [← hEPC, ← Nat.mul_assoc]
          exact Nat.mul_le_mul_right _ (by omega))
        have hget' := h.contiguous (j + 1) (by
          rw [← hEPC, ← Nat.mul_assoc]
          exact Nat.mul_le_mul_right _ (by omega))
        have hlink := h.isChain.next j hlen
        rw [hget, hget'] at hlink
        rw [entryCode_eq hf hon.tablePos_lt, hkeeps _ (h.inTable _ hc)
          (h.isChain.fatEntry_ne_zero hc), hlink]
      obtain ⟨i', j', hi', hij', hle, hrun⟩ := ih (i - entriesPerCluster v) (by omega) (j + 1)
        (by omega) (by rw [Nat.succ_mul]; omega)
      refine ⟨i', j', hi', hij', hle, ?_⟩
      rw [← hrun, parentClusterLoop, parentClusterLoop, Loop.run_next]
      dsimp only
      rw [if_pos ⟨hmore, hmax, by omega⟩, hentry]
    · refine ⟨i, j, hi, hij, by omega, Loop.run_leave ?_⟩
      dsimp only
      rw [if_neg fun hguard => hmore hguard.1]

/-- The position is that of the entry with the number of the live ones. -/
lemma Fits.newEntryPos_eq (h : Fits v disk l t place base) (hlt : l ≤ t)
    (hsector : v.sectorSize = defaultSectorSize) (hf : disk'.FaultFree)
    (hkeeps : KeepsUsed v disk disk') (htotal : dir.total = l)
    (hbase : dir.sectorPos * v.sectorSize = base) :
    newEntryPos v disk' dir = some (some (base + l * itemSize)) := by
  have hbound : base + l * itemSize < 2 ^ 31 := by
    have hle : l * itemSize ≤ (t + 1) * itemSize := Nat.mul_le_mul_right _ (by omega)
    have hend := (h.liesAt hsector).base_lt
    omega
  have hl : l < 2 ^ 31 := by
    have hle : l * 1 ≤ l * itemSize := Nat.mul_le_mul_left _ (by decide)
    omega
  have hu32 : u32 dir.total = l := by
    rw [htotal, u32_of_lt (by omega)]
  by_cases hclusters : u32 dir.total / entriesPerCluster v % 2 ^ 16 = 0
  · exact newEntryPos_of_zero htotal hbase (by omega) hclusters
  rw [hu32] at hclusters
  -- there are as many live entries as fit in a cluster, or more
  have hmany : ¬ l < entriesPerCluster v := fun hfew => by
    rw [Nat.div_eq_of_lt hfew] at hclusters
    exact hclusters rfl
  cases h with
  | root h => exact absurd h.live_lt hmany
  | @chain item chain h =>
    obtain ⟨hone, hfirst⟩ := h.live_lt.resolve_left hmany
    have hEPC : entriesPerCluster v * itemSize = v.clusterBytes :=
      Nat.div_mul_cancel (itemSize_dvd_clusterBytes hsector)
    -- with one sector per cluster, the difference of the sectors is that of the clusters
    have hcluster : (fat16SectorToCluster v dir.sectorPos % 2 ^ 16).toNat = item.firstCluster := by
      have hmax : item.firstCluster ≤ 0xFFEF := h.onVolume.le_max
      have hsec : dir.sectorPos = fat16EndingSectorPos v + ((item.firstCluster - 2 : ℕ) : ℤ) := by
        have hdata : fat16.dataPos v item.firstCluster =
            (fat16EndingSectorPos v + (item.firstCluster - 2)) * v.sectorSize := by
          rw [FatKind.dataPos, hone, Nat.mul_one]
          rfl
        rw [hdata] at hbase
        have hne : (v.sectorSize : ℤ) ≠ 0 := by
          rw [hsector]
          decide
        refine Int.eq_of_mul_eq_mul_right hne (hbase.trans ?_)
        push_cast
        rfl
      rw [fat16SectorToCluster, hsec, if_pos (by omega)]
      omega
    have hpositive : 0 < l := Nat.pos_of_ne_zero fun hzero => by
      rw [hzero, Nat.zero_div] at hclusters
      exact hclusters rfl
    obtain ⟨i, j, hi, hij, -, hrun⟩ := parentClusterLoop_eq h hlt hEPC hf hkeeps hfirst l 0
      hpositive (by omega)
    have hle : j * v.clusterBytes ≤ t * itemSize := by
      rw [← hEPC, ← Nat.mul_assoc]
      exact Nat.mul_le_mul_right _ (by omega)
    have hpos : (i * itemSize + fat16.clusterPos v (item.firstCluster + j : ℕ) : ℤ) =
        ((fat16.dataPos v item.firstCluster + l * itemSize : ℕ) : ℤ) := by
      rw [(h.isChain.onVolume _ (h.mem hle).2).clusterPos_eq, h.dataPos_add, ← hEPC, ← hij]
      push_cast
      ring
    have hi31 : ¬ i32 (i : ℤ) < 1 := by
      rw [i32_of_lt (by omega) (by omega)]
      omega
    rw [Nat.add_zero] at hrun
    rw [newEntryPos]
    simp only [hu32, hcluster]
    rw [if_pos hclusters, hrun, Option.map_some]
    dsimp only
    rw [if_neg hi31, hpos, u32_of_lt (hbound.trans (by decide))]

end SerpaeOS
