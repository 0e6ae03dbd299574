import SerpaeOS.Fs.Fat.FreeCluster
import SerpaeOS.Lib.StepRun

/-!
# The next free cluster of a FAT32 volume

`fat32_get_first_free_cluster` begins at the cluster that the file system information names, and
stores the cluster that it finds there.  Nothing sets this number back: a cluster that is freed
below it is not found again, and the search reports a full volume.
-/

namespace SerpaeOS

open Bytes Word StepRun FatKind

/-! ## Allocations and frees -/

/-- The file system information in memory and the disk. -/
structure Fat32State where
  priv : FatPrivate
  disk : Disk

/-- The entries that the search does not come to, or takes for no cluster: those of the data
clusters below its start, and entry `0` when it starts there. -/
def Skipped (v : FatVolume) (priv : FatPrivate) (c : ℕ) : Prop :=
  (3 ≤ c ∧ c < fat32SearchStart priv ∧ fat32.InDataArea v v.sectorsBig c) ∨
    (c = 0 ∧ fat32SearchStart priv = 0)

/-- The loop of `fat32_erase_cluster_chain` comes to the entry of the cluster `c`. -/
inductive EraseComesTo (v : FatVolume) (c : ℕ) : Disk → ℕ → Prop
  | here {disk : Disk} {curr : ℕ} (h : i32 (fat32.entryPos v curr) = i32 (fat32.entryPos v c)) :
      EraseComesTo v c disk curr
  | next {disk : Disk} {curr : ℕ} (h : fat32.entryCode v disk curr ≠ 0x0FFFFFF)
      (h' : EraseComesTo v c (fat32.writeFatEntry v disk curr 0x00).2
        (fat32.entryCode v disk curr)) : EraseComesTo v c disk curr

/-- The operations of the driver on the table. -/
inductive Fat32Op
  | search
  | add (first : ℕ)
  | generate (count : ℤ)
  | erase (first : ℕ)

namespace Fat32Op

/-- The state after an operation, when it returns. -/
def exec (v : FatVolume) (s : Fat32State) : Fat32Op → Option Fat32State
  | search =>
    let found := fat32GetFirstFreeCluster v s.priv s.disk
    some ⟨found.2.1, found.2.2⟩
  | add first =>
    (fat32Driver.addClusterToChain v s.priv s.disk first).map fun added => ⟨added.2.1, added.2.2⟩
  | generate count =>
    (fat32GenerateClusterChain v s.priv s.disk count).map fun chain => ⟨chain.2.1, chain.2.2⟩
  | erase first =>
    (fat32EraseClusterChain v s.disk first).map fun erased => ⟨s.priv, erased.2⟩

/-- The operation frees no cluster that the search skips. -/
def FreesAhead (v : FatVolume) (s : Fat32State) : Fat32Op → Prop
  | erase first => 2 < first → ∀ c, Skipped v s.priv c → ¬ EraseComesTo v c s.disk first
  | _ => True

end Fat32Op

/-- The search returns `0` only if no data cluster is free, and a free cluster otherwise. -/
def SearchHonest (v : FatVolume) (s : Fat32State) : Prop :=
  ((fat32GetFirstFreeCluster v s.priv s.disk).1 = 0 →
    ∀ c, 3 ≤ c → fat32.InDataArea v v.sectorsBig c → fat32.entryCode v s.disk c ≠ 0) ∧
  ((fat32GetFirstFreeCluster v s.priv s.disk).1 ≠ 0 →
    fat32.entryCode v s.disk (fat32GetFirstFreeCluster v s.priv s.disk).1 = 0)

/-- The header of a volume with 28-bit cluster numbers, the last of which is not above the limit of
the search, and with the file system information in front of the table. -/
structure Fat32Layout (v : FatVolume) (fsInfoLocation : ℕ) : Prop extends HeaderRanges v where
  sectorsBig_lt : v.sectorsBig < 2 ^ 32
  cluster_lt : ∀ c, fat32.InDataArea v v.sectorsBig c → c < 2 ^ 28
  cluster_le : ∀ c, fat32.InDataArea v v.sectorsBig c → c ≤ v.sectorsBig / v.sectorsPerCluster
  fsInfo_le : (fsInfoLocation + 1) * defaultSectorSize ≤ v.reservedSectors * v.sectorSize

/-- No entry that the search skips is free. -/
structure NoneSkipped (v : FatVolume) (s : Fat32State) : Prop where
  layout : Fat32Layout v s.priv.fsInfoLocation
  faultFree : s.disk.FaultFree
  used : ∀ c, Skipped v s.priv c → fat32.entryCode v s.disk c ≠ 0

variable {v : FatVolume} {priv : FatPrivate} {disk disk' : Disk} {s s' : Fat32State}
  {c curr first val : ℕ}

/-! ## The search -/

/-- In one state the search is honest exactly when no cluster is free, or it finds one with another
number than `0`. -/
lemma searchHonest_iff : SearchHonest v s ↔
    (∀ c, 3 ≤ c → fat32.InDataArea v v.sectorsBig c → fat32.entryCode v s.disk c ≠ 0) ∨
      ∃ f, FirstFree (fat32.entryCode v s.disk) (fat32SearchStart s.priv)
        (v.sectorsBig / v.sectorsPerCluster) f ∧ f ≠ 0 := by
  rcases fat32GetFirstFreeCluster_spec v s.priv s.disk with ⟨hnone, hall⟩ | ⟨f, hfirst, hget⟩
  · rw [SearchHonest, hnone]
    constructor
    · exact fun h => Or.inl (h.1 rfl)
    · rintro (hused | ⟨f, hfirst, -⟩)
      · exact ⟨fun _ => hused, fun hne => absurd rfl hne⟩
      · exact absurd hfirst.free (hall f ⟨hfirst.start_le, hfirst.le_max⟩)
  · rw [SearchHonest, hget]
    constructor
    · intro h
      by_cases hzero : f = 0
      · exact Or.inl (h.1 hzero)
      · exact Or.inr ⟨f, hfirst, hzero⟩
    · rintro (hused | ⟨f', hfirst', hne⟩)
      · exact ⟨fun _ => hused, fun _ => hfirst.free⟩
      · obtain rfl := hfirst.unique hfirst'
        exact ⟨fun hzero => absurd hzero hne, fun _ => hfirst.free⟩

/-- When no entry that the search skips is free, it comes to all of the data clusters. -/
lemma NoneSkipped.searchHonest (h : NoneSkipped v s) : SearchHonest v s := by
  rw [searchHonest_iff]
  rcases fat32GetFirstFreeCluster_spec v s.priv s.disk with ⟨-, hall⟩ | ⟨f, hfirst, -⟩
  · refine Or.inl fun c hc hin => ?_
    rcases Nat.lt_or_ge c (fat32SearchStart s.priv) with hlt | hge
    · exact h.used c (Or.inl ⟨hc, hlt, hin⟩)
    · exact hall c ⟨hge, (h.layout.cluster_le c hin).trans (Nat.le_max_right _ _)⟩
  · refine Or.inr ⟨f, hfirst, ?_⟩
    rintro rfl
    exact h.used 0 (Or.inr ⟨rfl, Nat.le_zero.mp hfirst.start_le⟩) hfirst.free

/-! ## Storing entries -/

/-- Storing an entry leaves those at other positions. -/
lemma fat32_entryCode_writeFatEntry_of_ne (hf : disk.FaultFree)
    (hne : i32 (fat32.entryPos v curr) ≠ i32 (fat32.entryPos v c)) :
    fat32.entryCode v (fat32.writeFatEntry v disk curr val).2 c = fat32.entryCode v disk c := by
  obtain ⟨hf', hframe, -⟩ := fat32_writeFatEntry_spec (v := v) hf curr val
  rcases lt_or_ge (i32 (fat32.entryPos v c)) 0 with hneg | hpos
  · rw [fat32_entryCode_of_neg hneg, fat32_entryCode_of_neg hneg]
  · obtain ⟨p, hp⟩ := Int.eq_ofNat_of_zero_le hpos
    rw [fat32_entryCode_of_pos hf' hp, fat32_entryCode_of_pos hf hp]
    refine congrArg number (slice_eq_iff.mpr fun i hi => hframe (p + i) ?_)
    -- two positions differ by a multiple of `4`
    have hmod := fat32_position v c
    have hmod' := fat32_position v curr
    omega

/-- An entry with another number than `0` is stored as that number, if at all. -/
lemma fat32_entryCode_writeFatEntry_ne_zero (hf : disk.FaultFree) (curr : ℕ) (hval : val ≠ 0)
    (hlt : val < 2 ^ 32) (hc : fat32.entryCode v disk c ≠ 0) :
    fat32.entryCode v (fat32.writeFatEntry v disk curr val).2 c ≠ 0 := by
  by_cases heq : i32 (fat32.entryPos v curr) = i32 (fat32.entryPos v c)
  · obtain ⟨hf', -, hself⟩ := fat32_writeFatEntry_spec (v := v) hf curr val
    rcases fat32_entryCode_cases (v := v) hf' c with hbad | ⟨p, hp, hread⟩
    · rw [hbad]
      decide
    · rw [hread, hself p (heq.trans hp), number_numberBytes hlt]
      exact hval
  · rw [fat32_entryCode_writeFatEntry_of_ne hf heq]
    exact hc

lemma FaultFree.storeFsinfo (hf : disk.FaultFree) (f : ℕ) :
    (storeFsinfo priv disk f).FaultFree := by
  rw [SerpaeOS.storeFsinfo, diskWriteBlock, hf.write_ok]
  exact ⟨hf.read_ok, hf.write_ok⟩

/-- The file system information lies in front of the table. -/
lemma entryCode_storeFsinfo (hv : Fat32Layout v priv.fsInfoLocation) (hf : disk.FaultFree)
    (hc : c < 2 ^ 28) (f : ℕ) :
    fat32.entryCode v (storeFsinfo priv disk f) c = fat32.entryCode v disk c := by
  have hreach := fat32_tablePos_lt hv.toHeaderRanges hc
  rw [entryCode_eq (FaultFree.storeFsinfo hf f) hreach, entryCode_eq hf hreach]
  refine fatEntry_congr fun a ha _ => ?_
  have hle := hv.fsInfo_le
  rw [tablePos] at ha
  rw [storeFsinfo, diskWriteBlock, hf.write_ok]
  simp only [Bool.false_eq_true, if_false]
  refine if_neg fun heq => ?_
  simp only [defaultSectorSize] at heq hle
  omega

/-! ## Steps -/

lemma Skipped.lt {fsInfoLocation : ℕ} (hv : Fat32Layout v fsInfoLocation)
    (h : Skipped v priv c) : c < 2 ^ 28 := by
  rcases h with ⟨-, -, hin⟩ | ⟨rfl, -⟩
  · exact hv.cluster_lt c hin
  · decide

namespace NoneSkipped

/-- The search leaves no free cluster behind. -/
lemma search (h : NoneSkipped v s) {f : ℕ} {priv' : FatPrivate} {disk' : Disk}
    (hget : fat32GetFirstFreeCluster v s.priv s.disk = (f, priv', disk')) :
    f < 2 ^ 32 ∧ NoneSkipped v ⟨priv', disk'⟩ := by
  rcases fat32GetFirstFreeCluster_spec v s.priv s.disk with ⟨hnone, -⟩ | ⟨f', hfirst, hfound⟩
  · cases hget.symm.trans hnone
    exact ⟨by decide, h⟩
  cases hget.symm.trans hfound
  have hstart : fat32SearchStart s.priv < 2 ^ 32 := by
    have hhint := u32le_lt s.priv.fsinfo 492
    rw [fat32SearchStart]
    split_ifs <;> omega
  have hlimit : v.sectorsBig / v.sectorsPerCluster < 2 ^ 32 :=
    (Nat.div_le_self _ _).trans_lt h.layout.sectorsBig_lt
  have hmax := hfirst.le_max
  have hf32 : f < 2 ^ 32 := by omega
  have hnext : fat32SearchStart { s.priv with
      fsinfo := store s.priv.fsinfo 492 (numberBytes 4 f) } = if f = 0xFFFFFFFF then 3 else f := by
    rw [fat32SearchStart, u32le_store hf32]
  refine ⟨hf32, h.layout, FaultFree.storeFsinfo h.faultFree f, fun c hc => ?_⟩
  have hcode := entryCode_storeFsinfo h.layout h.faultFree (Skipped.lt h.layout hc) f
  dsimp only
  rw [hcode]
  rw [Skipped, hnext] at hc
  rcases hc with ⟨hthree, hlt, hin⟩ | ⟨rfl, hzero⟩
  · -- a cluster below the one that is found was skipped before, or was tried
    have hlt : c < f := by
      split_ifs at hlt <;> omega
    rcases Nat.lt_or_ge c (fat32SearchStart s.priv) with hbelow | hge
    · exact h.used c (Or.inl ⟨hthree, hbelow, hin⟩)
    · exact hfirst.used c hge hlt
  · have hf0 : f = 0 := by
      split_ifs at hzero
      exact hzero
    have hstart0 := hfirst.start_le
    exact h.used 0 (Or.inr ⟨rfl, by omega⟩)

/-- Storing another number than `0` frees no cluster. -/
lemma writeFatEntry (h : NoneSkipped v ⟨priv, disk⟩) (hval : val ≠ 0) (hlt : val < 2 ^ 32)
    (curr : ℕ) : NoneSkipped v ⟨priv, (fat32.writeFatEntry v disk curr val).2⟩ := by
  have hf : disk.FaultFree := h.faultFree
  have hused : ∀ c, Skipped v priv c → fat32.entryCode v disk c ≠ 0 := h.used
  obtain ⟨hf', -⟩ := fat32_writeFatEntry_spec (v := v) hf curr val
  have hkept := fun c hc =>
    fat32_entryCode_writeFatEntry_ne_zero hf curr hval hlt (hused c hc)
  generalize (fat32.writeFatEntry v disk curr val).2 = written at hf' hkept ⊢
  exact ⟨h.layout, hf', hkept⟩

/-- Adding a cluster stores its number, after the search for it. -/
lemma add (h : NoneSkipped v s) {res : ℤ} {priv' : FatPrivate} {disk' : Disk}
    (hadd : fat32Driver.addClusterToChain v s.priv s.disk first = some (res, priv', disk')) :
    NoneSkipped v ⟨priv', disk'⟩ := by
  obtain ⟨cluster, -, hrest⟩ := Option.bind_eq_some_iff.mp hadd
  obtain ⟨⟨f, p, d⟩, hget⟩ : ∃ found, fat32GetFirstFreeCluster v s.priv s.disk = found := ⟨_, rfl⟩
  have hget' : fat32Driver.getFirstFreeCluster v s.priv s.disk = (f, p, d) := hget
  obtain ⟨hf32, hfound⟩ := h.search hget
  have hlinked : (fat32.writeFatEntry v d cluster f).1 ≠ 2 := by
    have hres : (fat32.writeFatEntry v d cluster f).1 = 4 := rfl
    rw [hres]
    decide
  simp only [show fat32Driver.kind = fat32 from rfl, hget'] at hrest
  by_cases hzero : f = 0
  · rw [if_pos hzero] at hrest
    cases hrest
    exact hfound
  · rw [if_neg hzero, if_pos hlinked] at hrest
    cases hrest
    exact hfound.writeFatEntry hzero hf32 cluster

lemma addClusters {count : ℕ} : ∀ {priv : FatPrivate} {disk : Disk}, NoneSkipped v ⟨priv, disk⟩ →
    ∀ {priv' : FatPrivate} {disk' : Disk},
      fat32Driver.addClusters v first count priv disk = some (priv', disk') →
      NoneSkipped v ⟨priv', disk'⟩ := by
  induction count with
  | zero =>
    intro priv disk h priv' disk' hrun
    cases hrun
    exact h
  | succ count ih =>
    intro priv disk h priv' disk' hrun
    obtain ⟨⟨res, p, d⟩, hadd, hrest⟩ := Option.bind_eq_some_iff.mp hrun
    exact ih (h.add hadd) hrest

lemma generate (h : NoneSkipped v s) {count : ℤ} {priv' : FatPrivate} {disk' : Disk}
    (hgen : fat32GenerateClusterChain v s.priv s.disk count = some (first, priv', disk')) :
    NoneSkipped v ⟨priv', disk'⟩ := by
  obtain ⟨⟨f, p, d⟩, hget⟩ : ∃ found, fat32GetFirstFreeCluster v s.priv s.disk = found := ⟨_, rfl⟩
  have hfound := (h.search hget).2
  have hget' : fat32Driver.getFirstFreeCluster v s.priv s.disk = (f, p, d) := hget
  have hwritten : ¬ (fat32Driver.kind.writeFatEntry v d f 0x0FFFFFF).1 ≠
      fat32Driver.kind.entrySize := not_not.mpr rfl
  rw [fat32GenerateClusterChain, FatDriver.generateClusterChain] at hgen
  split_ifs at hgen with hcount
  · cases hgen
    exact h
  simp only [hget', if_neg hwritten] at hgen
  split_ifs at hgen with hzero
  · cases hgen
    exact hfound
  · obtain ⟨⟨p', d'⟩, hadd, hres⟩ := Option.map_eq_some_iff.mp hgen
    cases hres
    exact addClusters (hfound.writeFatEntry (by decide) (by decide) _) hadd

end NoneSkipped

/-- The loop that erases leaves the entries that it does not come to. -/
lemma eraseFrom32_frame {last : ℕ} (h : fat32.eraseFrom v last disk first = some disk') :
    last = 0x0FFFFFF → disk.FaultFree → disk'.FaultFree ∧
      ∀ c, ¬ EraseComesTo v c disk first →
        fat32.entryCode v disk' c = fat32.entryCode v disk c := by
  refine eraseFrom_induction (P := fun disk first disk' => last = 0x0FFFFFF → disk.FaultFree →
    disk'.FaultFree ∧ ∀ c, ¬ EraseComesTo v c disk first →
      fat32.entryCode v disk' c = fat32.entryCode v disk c) ?_ ?_ h
  · intro disk curr _ _ hf
    exact ⟨(fat32_writeFatEntry_spec hf curr 0).1, fun c hc =>
      fat32_entryCode_writeFatEntry_of_ne hf fun heq => hc (.here heq)⟩
  · intro disk curr disk' hcode ih hlast hf
    obtain ⟨hf', hrest⟩ := ih hlast (fat32_writeFatEntry_spec hf curr 0).1
    refine ⟨hf', fun c hc => ?_⟩
    rw [hrest c fun hnext => hc (.next (hlast ▸ hcode) hnext)]
    exact fat32_entryCode_writeFatEntry_of_ne hf fun heq => hc (.here heq)

/-- No operation leaves a free cluster that the search skips, unless it frees one. -/
lemma NoneSkipped.exec (h : NoneSkipped v s) {op : Fat32Op} (hahead : op.FreesAhead v s)
    (hexec : op.exec v s = some s') : NoneSkipped v s' := by
  cases op with
  | search =>
    cases hexec
    exact (h.search rfl).2
  | add first =>
    obtain ⟨added, hadd, rfl⟩ := Option.map_eq_some_iff.mp hexec
    exact h.add hadd
  | generate count =>
    obtain ⟨chain, hgen, rfl⟩ := Option.map_eq_some_iff.mp hexec
    exact h.generate hgen
  | erase first =>
    obtain ⟨erased, herase, rfl⟩ := Option.map_eq_some_iff.mp hexec
    rw [fat32EraseClusterChain] at herase
    split_ifs at herase with hle
    · cases herase
      exact h
    · obtain ⟨disk', hloop, rfl⟩ := Option.map_eq_some_iff.mp herase
      obtain ⟨hf, hframe⟩ := eraseFrom32_frame hloop rfl h.faultFree
      refine ⟨h.layout, hf, fun c hc => ?_⟩
      dsimp only
      rw [hframe c (hahead (by omega) c hc)]
      exact h.used c hc

/-- In every run from a state in which no cluster that the search skips is free, of operations that
free none, the search returns `0` only if no cluster is free, and a free cluster otherwise. -/
theorem fat32_free_cluster_run (h : NoneSkipped v s) {ops : List Fat32Op}
    (hahead : Guarded (Fat32Op.exec v) (Fat32Op.FreesAhead v) s ops) :
    Throughout (Fat32Op.exec v) (SearchHonest v) s ops :=
  throughout_of_guarded (fun _ h => h.searchHonest) (fun _ _ _ h _ hahead hexec =>
    h.exec hahead hexec) h guarded_true hahead

/-! ## A full volume -/

/-- A volume without a free cluster, whose file system information names cluster `10` as the next
free one.  Cluster `5` ends its chain with the marker that `fat32_generate_cluster_chain` stores. -/
def staleHintState : Fat32State where
  priv := { unknownFsinfo with fsinfo := fun i => if i = 492 then 10 else 0 }
  disk := diskWith fun a => if a = 535 then 0 else 0xFF

lemma fat32Layout_small : Fat32Layout smallVolume 0 := by
  have hin : ∀ {c : ℕ}, fat32.InDataArea smallVolume smallVolume.sectorsBig c → c ≤ 63 := by
    rintro c ⟨-, hle⟩
    have hdata : fat32.dataSector smallVolume = 2 := rfl
    have hsize : smallVolume.sectorsPerCluster = 1 := rfl
    have htotal : smallVolume.sectorsBig = 64 := rfl
    rw [hdata, hsize, htotal] at hle
    omega
  exact ⟨headerRanges_small, by decide, fun c hc => (hin hc).trans_lt (by decide),
    fun c hc => (hin hc).trans (by decide), by decide⟩

lemma staleHintState_entryCode (hc : c < 10) :
    fat32.entryCode smallVolume staleHintState.disk c ≠ 0 := by
  have hf : staleHintState.disk.FaultFree := diskWith_faultFree _
  have hused : ∀ c < 10, fat32.fatEntry smallVolume staleHintState.disk c ≠ 0 := by decide
  rw [entryCode_eq hf (fat32_tablePos_lt headerRanges_small (by omega))]
  exact hused c hc

lemma noneSkipped_staleHintState : NoneSkipped smallVolume staleHintState := by
  have hstart : fat32SearchStart staleHintState.priv = 10 := rfl
  refine ⟨fat32Layout_small, diskWith_faultFree _, fun c hc => staleHintState_entryCode ?_⟩
  rw [Skipped, hstart] at hc
  omega

theorem fat32_free_cluster_run_staleHintState :
    Throughout (Fat32Op.exec smallVolume) (SearchHonest smallVolume) staleHintState
      [.search, .generate 2, .erase 2] :=
  fat32_free_cluster_run noneSkipped_staleHintState ⟨trivial, fun _ _ => ⟨trivial, fun _ _ =>
    ⟨fun hlt => absurd hlt (by decide), fun _ _ => trivial⟩⟩⟩

/-- After cluster `5` is freed, the search reports that no cluster is free. -/
theorem not_fat32_free_cluster_run : NoneSkipped smallVolume staleHintState ∧
    ∃ s', (Fat32Op.erase 5).exec smallVolume staleHintState = some s' ∧
      (fat32GetFirstFreeCluster smallVolume s'.priv s'.disk).1 = 0 ∧
      fat32.entryCode smallVolume s'.disk 5 = 0 ∧ ¬ SearchHonest smallVolume s' := by
  have hf : staleHintState.disk.FaultFree := diskWith_faultFree _
  have hreach : ∀ c < 65, fat32.Reachable smallVolume c := fun c hc =>
    fat32_tablePos_lt headerRanges_small (by omega)
  have hlast : fat32.fatEntry smallVolume staleHintState.disk 5 = 0x0FFFFFF := by decide
  have hloop : fat32.eraseFrom smallVolume 0x0FFFFFF staleHintState.disk 5 =
      some (fat32.setEntry smallVolume staleHintState.disk 5 0) := by
    rw [eraseFrom_step hf (hreach 5 (by decide)), if_pos hlast]
  have hf' : (fat32.setEntry smallVolume staleHintState.disk 5 0).FaultFree := FaultFree.setEntry hf
  have hfree :
      fat32.entryCode smallVolume (fat32.setEntry smallVolume staleHintState.disk 5 0) 5 = 0 := by
    rw [entryCode_eq hf' (hreach 5 (by decide))]
    exact fatEntry_setEntry_self (by decide)
  have hused : ∀ c, 10 ≤ c → c ≤ 64 →
      fat32.entryCode smallVolume (fat32.setEntry smallVolume staleHintState.disk 5 0) c ≠ 0 := by
    have hfull : ∀ c < 65, fat32.fatEntry smallVolume staleHintState.disk c ≠ 0 := by decide
    intro c hc hc'
    rw [entryCode_eq hf' (hreach c (by omega)), fatEntry_setEntry_of_ne (by omega)]
    exact hfull c (by omega)
  have hsearch : (fat32GetFirstFreeCluster smallVolume staleHintState.priv
      (fat32.setEntry smallVolume staleHintState.disk 5 0)).1 = 0 := by
    rcases fat32GetFirstFreeCluster_spec smallVolume staleHintState.priv
      (fat32.setEntry smallVolume staleHintState.disk 5 0) with ⟨hnone, -⟩ | ⟨f, hfirst, -⟩
    · rw [hnone]
    · exact absurd hfirst.free (hused f hfirst.start_le hfirst.le_max)
  refine ⟨noneSkipped_staleHintState,
    ⟨staleHintState.priv, fat32.setEntry smallVolume staleHintState.disk 5 0⟩, ?_, hsearch, hfree,
    fun h => ?_⟩
  · have herase : fat32EraseClusterChain smallVolume staleHintState.disk 5 =
        some (0, fat32.setEntry smallVolume staleHintState.disk 5 0) := by
      rw [fat32EraseClusterChain, if_neg (by decide)]
      exact congrArg (Option.map fun disk => ((0 : ℤ), disk)) hloop
    rw [Fat32Op.exec, herase]
    rfl
  · refine h.1 hsearch 5 (by decide) ?_ hfree
    rw [FatKind.InDataArea]
    decide

end SerpaeOS
