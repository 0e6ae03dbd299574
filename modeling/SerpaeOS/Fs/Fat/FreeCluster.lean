import SerpaeOS.Fs.Fat.Erase

/-!
# The search for a free cluster

Both drivers try the entries of the table one after the other, up to a limit that is the number of
sectors of the volume divided by the size of a cluster.  That is neither the number of the last
cluster nor below it, since the reserved sectors and the tables count as well; and FAT16 volumes
with a 16-bit number of sectors have no 32-bit number.
-/

namespace SerpaeOS

open Bytes Word FatKind

/-! ## The loop -/

/-- The loop of the search, from a cluster on. -/
def freeClusterSearch (code : ℕ → ℕ) (limit cluster : ℕ) : Option ℕ :=
  Loop.run ⟨fun cluster => some <|
    if code cluster = 0 then .inr cluster
    else if limit ≤ cluster then .inr 0
    else .inl (cluster + 1)⟩ cluster

variable {code : ℕ → ℕ} {start limit c f : ℕ}

lemma freeClusterSearch_step (cluster : ℕ) : freeClusterSearch code limit cluster =
    if code cluster = 0 then some cluster
    else if limit ≤ cluster then some 0
    else freeClusterSearch code limit (cluster + 1) := by
  by_cases hfree : code cluster = 0
  · rw [if_pos hfree]
    exact Loop.run_leave (congrArg some (if_pos hfree))
  rw [if_neg hfree]
  by_cases hlimit : limit ≤ cluster
  · rw [if_pos hlimit]
    exact Loop.run_leave (congrArg some ((if_neg hfree).trans (if_pos hlimit)))
  · rw [if_neg hlimit]
    exact Loop.run_next (congrArg some ((if_neg hfree).trans (if_neg hlimit)))

/-- The loop returns, with the cluster that the search finds or with `0`. -/
lemma freeClusterSearch_eq (code : ℕ → ℕ) (limit start : ℕ) :
    freeClusterSearch code limit start =
      some ((freeClusterLoop code (limit - start) start).getD 0) := by
  obtain ⟨n, hn⟩ : ∃ n, limit - start = n := ⟨_, rfl⟩
  rw [hn]
  induction n generalizing start with
  | zero =>
    rw [freeClusterSearch_step, freeClusterLoop, if_pos (by omega : limit ≤ start)]
    split_ifs <;> rfl
  | succ n ih =>
    rw [freeClusterSearch_step, freeClusterLoop, if_neg (by omega : ¬ limit ≤ start),
      ih (start + 1) (by omega)]
    split_ifs <;> rfl

/-! ## New chains -/

namespace FatDriver

variable (d : FatDriver) (v : FatVolume)

/-- The loop of `generate_cluster_chain`, which looks at no result. -/
def addClusters (first : ℕ) : ℕ → FatPrivate → Disk → Option (FatPrivate × Disk)
  | 0, priv, disk => some (priv, disk)
  | count + 1, priv, disk =>
    (d.addClusterToChain v priv disk first).bind fun added =>
      addClusters first count added.2.1 added.2.2

/-- `generate_cluster_chain`, which marks the first cluster with the number `mark`: this cluster,
`0`, or an error as a number of the type of entries. -/
def generateClusterChain (mark : ℕ) (priv : FatPrivate) (disk : Disk) (count : ℤ) :
    Option (ℕ × FatPrivate × Disk) :=
  let code (res : ℤ) := (res % (2 ^ (8 * d.kind.entrySize) : ℕ)).toNat
  if count ≤ 0 then some (code (-einvarg), priv, disk)
  else
    let first := d.getFirstFreeCluster v priv disk
    if first.1 = 0 then some (0, first.2)
    else
      let written := d.kind.writeFatEntry v first.2.2 first.1 mark
      if written.1 ≠ d.kind.entrySize then some (code (-eio), first.2.1, written.2)
      else (d.addClusters v first.1 (count - 1).toNat first.2.1 written.2).map (first.1, ·)

end FatDriver

def fat16GenerateClusterChain (v : FatVolume) := fat16Driver.generateClusterChain v 0xFFFF
def fat32GenerateClusterChain (v : FatVolume) := fat32Driver.generateClusterChain v 0x0FFFFFF

/-! ## FAT16 -/

/-- The header of a FAT16 volume, with the 16-bit number of sectors that the driver does not use. -/
structure Fat16Header where
  volume : FatVolume
  numberOfSectors : ℕ

/-- The number of sectors of the volume: the 32-bit number counts when the 16-bit one is zero. -/
def Fat16Header.totalSectors (h : Fat16Header) : ℕ :=
  if h.numberOfSectors = 0 then h.volume.sectorsBig else h.numberOfSectors

/-- All sectors of the cluster lie in the data area of a volume with so many sectors. -/
def FatKind.InDataArea (k : FatKind) (v : FatVolume) (total c : ℕ) : Prop :=
  2 ≤ c ∧ k.dataSector v + (c - 1) * v.sectorsPerCluster ≤ total

/-- `fat16_get_first_first_cluster`, which returns a 16-bit number. -/
def fat16FirstFirstCluster (v : FatVolume) (disk : Disk) : Option ℕ :=
  (freeClusterSearch (fat16.entryCode v disk) (v.sectorsBig / v.sectorsPerCluster) 3).map
    (· % 2 ^ 16)

variable {h : Fat16Header} {v : FatVolume} {disk : Disk}

lemma fat16FirstFirstCluster_eq (v : FatVolume) (priv : FatPrivate) (disk : Disk) :
    fat16FirstFirstCluster v disk = some (fat16GetFirstFirstCluster v priv disk).1 := by
  rw [fat16FirstFirstCluster, freeClusterSearch_eq]
  rfl

/-- The search returns a free cluster of the data area, or `0` when there is none from `3` on. -/
def FindsFree (h : Fat16Header) (disk : Disk) : Prop :=
  ∃ r, fat16FirstFirstCluster h.volume disk = some r ∧
    (r ≠ 0 → fat16.entryCode h.volume disk r = 0 ∧
      fat16.InDataArea h.volume h.totalSectors r) ∧
    (r = 0 → ∀ c, 3 ≤ c → fat16.InDataArea h.volume h.totalSectors c →
      fat16.entryCode h.volume disk c ≠ 0)

/-- The first free cluster that is tried. -/
def Fat16Header.FirstFree (h : Fat16Header) (disk : Disk) (f : ℕ) : Prop :=
  SerpaeOS.FirstFree (fat16.entryCode h.volume disk) 3
    (h.volume.sectorsBig / h.volume.sectorsPerCluster) f

/-- Behind a cluster that is not in the data area there is none. -/
lemma FatKind.InDataArea.of_le {k : FatKind} {total : ℕ} (h : k.InDataArea v total c) (hf : 2 ≤ f)
    (hle : f ≤ c) : k.InDataArea v total f := by
  refine ⟨hf, le_trans (Nat.add_le_add_left (Nat.mul_le_mul_right _ ?_) _) h.2⟩
  omega

/-- When nothing that is tried is free, the search returns `0`. -/
lemma fat16FirstFirstCluster_of_none (hall : ∀ c, 3 ≤ c →
    c ≤ max 3 (v.sectorsBig / v.sectorsPerCluster) → fat16.entryCode v disk c ≠ 0) :
    fat16FirstFirstCluster v disk = some 0 := by
  rw [fat16FirstFirstCluster, freeClusterSearch_eq]
  rcases freeClusterLoop_spec (fat16.entryCode v disk) (v.sectorsBig / v.sectorsPerCluster) 3 with
    ⟨hnone, -⟩ | ⟨f, -, hf⟩
  · rw [hnone]
    rfl
  · exact absurd hf.free (hall f hf.start_le hf.le_max)

lemma findsFree_iff_of_none (hall : ∀ c, 3 ≤ c →
    c ≤ max 3 (h.volume.sectorsBig / h.volume.sectorsPerCluster) →
      fat16.entryCode h.volume disk c ≠ 0) : FindsFree h disk ↔
    ∀ c, 3 ≤ c → fat16.InDataArea h.volume h.totalSectors c →
      fat16.entryCode h.volume disk c ≠ 0 := by
  have hsearch := fat16FirstFirstCluster_of_none hall
  constructor
  · rintro ⟨r, hr, -, hzero⟩
    obtain rfl := Option.some.inj (hsearch.symm.trans hr)
    exact hzero rfl
  · exact fun hused => ⟨0, hsearch, fun hne => absurd rfl hne, fun _ => hused⟩

namespace Fat16Header.FirstFree

variable {f : ℕ}

lemma search_eq (hf : h.FirstFree disk f) :
    fat16FirstFirstCluster h.volume disk = some (f % 2 ^ 16) := by
  rw [fat16FirstFirstCluster, freeClusterSearch_eq]
  rcases freeClusterLoop_spec (fat16.entryCode h.volume disk)
    (h.volume.sectorsBig / h.volume.sectorsPerCluster) 3 with ⟨-, hall⟩ | ⟨f', hsome, hf'⟩
  · exact absurd hf.free (hall f hf.start_le hf.le_max)
  · rw [hsome, hf'.unique hf]
    rfl

/-- A 16-bit number is returned as it is. -/
lemma findsFree_iff_of_lt (hf : h.FirstFree disk f) (hlt : f < 2 ^ 16) :
    FindsFree h disk ↔ fat16.InDataArea h.volume h.totalSectors f := by
  have hsearch := hf.search_eq
  rw [Nat.mod_eq_of_lt hlt] at hsearch
  have hne : f ≠ 0 := fun hzero => absurd (hzero ▸ hf.start_le) (by decide)
  constructor
  · rintro ⟨r, hr, hfound, -⟩
    obtain rfl := Option.some.inj (hsearch.symm.trans hr)
    exact (hfound hne).2
  · exact fun hin => ⟨f, hsearch, fun _ => ⟨hf.free, hin⟩, fun hzero => absurd hzero hne⟩

/-- A number that becomes `0` stands for no cluster. -/
lemma findsFree_iff_of_mod_eq_zero (hf : h.FirstFree disk f) (hmod : f % 2 ^ 16 = 0) :
    FindsFree h disk ↔ ¬ fat16.InDataArea h.volume h.totalSectors f := by
  have hsearch := hf.search_eq
  rw [hmod] at hsearch
  have hstart := hf.start_le
  constructor
  · rintro ⟨r, hr, -, hzero⟩ hin
    obtain rfl := Option.some.inj (hsearch.symm.trans hr)
    exact hzero rfl f hstart hin hf.free
  · refine fun hout => ⟨0, hsearch, fun hne => absurd rfl hne, fun _ c hc hin hfree => hout ?_⟩
    refine hin.of_le (by omega) ?_
    by_contra hlt
    exact hf.used c hc (by omega) hfree

/-- Another number that is cut off stands for a cluster that is used, unless it is `2`. -/
lemma findsFree_iff_of_ge (hf : h.FirstFree disk f) (hge : 2 ^ 16 ≤ f) (hmod : f % 2 ^ 16 ≠ 0) :
    FindsFree h disk ↔ f % 2 ^ 16 = 2 ∧ fat16.entryCode h.volume disk 2 = 0 ∧
      fat16.InDataArea h.volume h.totalSectors 2 := by
  constructor
  · rintro ⟨r, hr, hfound, -⟩
    obtain rfl := Option.some.inj (hf.search_eq.symm.trans hr)
    obtain ⟨hfree, hin⟩ := hfound hmod
    -- from `3` on the first free cluster would not be `f`
    have htwo : f % 2 ^ 16 = 2 := by
      by_contra hne
      have hle := hin.1
      exact hf.used (f % 2 ^ 16) (by omega) (by omega) hfree
    rw [htwo] at hfree hin
    exact ⟨htwo, hfree, hin⟩
  · rintro ⟨htwo, hfree, hin⟩
    have hsearch := hf.search_eq
    rw [htwo] at hsearch
    exact ⟨2, hsearch, fun _ => ⟨hfree, hin⟩, fun hzero => absurd hzero (by decide)⟩

end Fat16Header.FirstFree

/-- The search does what it is for exactly when no cluster is free, neither of the data area nor
among those tried; or the first one free has a 16-bit number and lies in the data area; or its
number is a multiple of `2 ^ 16` and it lies behind the data area; or its number looks like that of
cluster `2`, and this one is free. -/
theorem fat16_first_free_iff (h : Fat16Header) (disk : Disk) : FindsFree h disk ↔
    (∀ c, 3 ≤ c → (c ≤ max 3 (h.volume.sectorsBig / h.volume.sectorsPerCluster) ∨
        fat16.InDataArea h.volume h.totalSectors c) → fat16.entryCode h.volume disk c ≠ 0) ∨
    ∃ f, h.FirstFree disk f ∧
      (f < 2 ^ 16 ∧ fat16.InDataArea h.volume h.totalSectors f ∨
        2 ^ 16 ≤ f ∧ f % 2 ^ 16 = 0 ∧ ¬ fat16.InDataArea h.volume h.totalSectors f ∨
        2 ^ 16 ≤ f ∧ f % 2 ^ 16 = 2 ∧ fat16.entryCode h.volume disk 2 = 0 ∧
          fat16.InDataArea h.volume h.totalSectors 2) := by
  rcases freeClusterLoop_spec (fat16.entryCode h.volume disk)
    (h.volume.sectorsBig / h.volume.sectorsPerCluster) 3 with ⟨-, hall⟩ | ⟨f, -, hfirst⟩
  · -- no entry that is tried is zero
    rw [findsFree_iff_of_none hall]
    constructor
    · exact fun hused => Or.inl fun c hc hcases => hcases.elim (hall c hc) (hused c hc)
    · rintro (hused | ⟨f, hf, -⟩)
      · exact fun c hc hin => hused c hc (Or.inr hin)
      · exact absurd hf.free (hall f hf.start_le hf.le_max)
  · have hf : h.FirstFree disk f := hfirst
    have hexists : ∀ {P : ℕ → Prop}, (∃ f, h.FirstFree disk f ∧ P f) ↔ P f := fun {P} =>
      ⟨fun ⟨f', hf', hP⟩ => hf'.unique hf ▸ hP, fun hP => ⟨f, hf, hP⟩⟩
    rw [hexists, or_iff_right fun hused => hused f hf.start_le (Or.inl hf.le_max) hf.free]
    rcases Nat.lt_or_ge f (2 ^ 16) with hlt | hge
    · rw [hf.findsFree_iff_of_lt hlt]
      simp only [hlt, Nat.not_le.mpr hlt, true_and, false_and, or_false]
    rcases eq_or_ne (f % 2 ^ 16) 0 with hmod | hmod
    · rw [hf.findsFree_iff_of_mod_eq_zero hmod]
      simp only [Nat.not_lt.mpr hge, hge, hmod, true_and, false_and, false_or]
      exact (or_iff_left fun hcut => absurd hcut.1 (by decide)).symm
    · rw [hf.findsFree_iff_of_ge hge hmod]
      simp only [Nat.not_lt.mpr hge, hge, hmod, true_and, false_and, false_or]

/-- A table in which all entries below that of cluster `63` are used. -/
def nearlyFullDisk : Disk := diskWith fun a => if a < 512 + 2 * 63 then 0xFF else 0

/-- The data area of the small volume ends with cluster `62`: when it is full, the search returns
cluster `63`, which lies behind the end of the volume. -/
theorem not_fat16_first_free : fat16FirstFirstCluster smallVolume nearlyFullDisk = some 63 ∧
    ¬ fat16.InDataArea smallVolume 64 63 ∧ ¬ FindsFree ⟨smallVolume, 0⟩ nearlyFullDisk := by
  have hf : nearlyFullDisk.FaultFree := diskWith_faultFree _
  have hcode : ∀ c < 64, fat16.entryCode smallVolume nearlyFullDisk c =
      fat16.fatEntry smallVolume nearlyFullDisk c := fun c hc =>
    entryCode_eq hf (fat16_reachable headerRanges_small (by omega))
  have hused : ∀ c < 63, fat16.fatEntry smallVolume nearlyFullDisk c ≠ 0 := by decide
  have hfirst : Fat16Header.FirstFree ⟨smallVolume, 0⟩ nearlyFullDisk 63 := by
    refine ⟨by decide, by decide, (hcode 63 (by decide)).trans (by decide), fun c _ hc => ?_⟩
    rw [hcode c (by omega)]
    exact hused c hc
  have hrun : fat16FirstFirstCluster smallVolume nearlyFullDisk = some 63 := hfirst.search_eq
  have hout : ¬ fat16.InDataArea smallVolume 64 63 := by
    rw [FatKind.InDataArea]
    decide
  refine ⟨hrun, hout, ?_⟩
  rintro ⟨r, hr, hfound, -⟩
  obtain rfl := Option.some.inj (hrun.symm.trans hr)
  exact hout (hfound (by decide)).2

end SerpaeOS
