import SerpaeOS.Fs.Fat.ClusterWalk
import SerpaeOS.Fs.Fat.Erase

/-!
# The chains of a FAT16 table

The clusters that a table marks as used are those of disjoint acyclic chains.
`fat16_add_cluster_to_chain` replaces two entries: the one of the last cluster of a chain and the
one of a free cluster, which comes behind it.  Both belong to the chain that grows, so the other
chains stay as they are, and the table is again one of disjoint chains.
-/

namespace SerpaeOS

open FatKind

/-- The used clusters of the table are those of the chains, which are disjoint, acyclic and ended
by markers. -/
structure ChainTable (v : FatVolume) (disk : Disk) (chains : List (List ℕ)) : Prop where
  ne_nil : ∀ l ∈ chains, l ≠ []
  linked : ∀ l ∈ chains, fat16.Linked v disk l
  clusters : ∀ l ∈ chains, ∀ c ∈ l, 2 ≤ c ∧ c < 0xFFF7
  disjoint : chains.Pairwise List.Disjoint
  /-- An entry of the table that is neither free nor marked as bad belongs to a chain. -/
  covers : ∀ c, 2 ≤ c → c < 0xFFF7 → (c + 1) * fat16.entrySize ≤ v.sectorsPerFat * v.sectorSize →
    fat16.fatEntry v disk c ≠ 0 → fat16.fatEntry v disk c ≠ 0xFFF7 → ∃ l ∈ chains, c ∈ l

variable {v : FatVolume} {disk : Disk} {before after : List (List ℕ)} {chain : List ℕ}
  {first n : ℕ}

/-- One list of disjoint lists gets an element that is in none of them. -/
lemma pairwise_disjoint_append (h : (before ++ chain :: after).Pairwise List.Disjoint)
    (hn : ∀ l ∈ before ++ chain :: after, n ∉ l) :
    (before ++ (chain ++ [n]) :: after).Pairwise List.Disjoint := by
  have hnew : ∀ l ∈ before ++ chain :: after, chain.Disjoint l → (chain ++ [n]).Disjoint l := by
    intro l hl hdisjoint
    refine List.disjoint_append_left.mpr ⟨hdisjoint, ?_⟩
    exact List.singleton_disjoint.mpr (hn l hl)
  rw [List.pairwise_append, List.pairwise_cons] at h ⊢
  obtain ⟨hbefore, ⟨hchain, hafter⟩, hcross⟩ := h
  refine ⟨hbefore, ⟨fun l hl => ?_, hafter⟩, fun l hl l' hl' => ?_⟩
  · exact hnew l (List.mem_append_right _ (List.mem_cons_of_mem _ hl)) (hchain l hl)
  · rcases List.mem_cons.mp hl' with rfl | hl'
    · have hold := hcross l hl chain List.mem_cons_self
      exact (hnew l (List.mem_append_left _ hl) hold.symm).symm
    · exact hcross l hl l' (List.mem_cons_of_mem _ hl')

/-- What the search reports is free. -/
lemma freeCluster_some {start : ℕ} (hfree : fat16.freeCluster v disk start = some n) :
    start ≤ n ∧ fat16.entryCode v disk n = 0 := by
  rw [freeCluster, freeClusterLoop_eq] at hfree
  have hmem := List.mem_of_find?_eq_some hfree
  have hzero := List.find?_some hfree
  simp only [decide_eq_true_eq] at hzero
  exact ⟨(List.mem_range'_1.mp hmem).1, hzero⟩

namespace ChainTable

/-- A free cluster is in no chain. -/
lemma notMem_of_free {chains : List (List ℕ)} (h : ChainTable v disk chains)
    (hzero : fat16.fatEntry v disk n = 0) : ∀ l ∈ chains, n ∉ l := by
  intro l hl hn
  exact (h.linked l hl).fatEntry_ne_zero
    (fun c hc => Nat.zero_lt_of_lt (h.clusters l hl c hc).1) hn hzero

/-- The entries of the chains that do not grow. -/
lemma fatEntry_other (h : ChainTable v disk (before ++ chain :: after))
    (hn : ∀ l ∈ before ++ chain :: after, n ∉ l) {l : List ℕ} (hl : l ∈ before ++ after) {c : ℕ}
    (hc : c ∈ l) :
    fat16.fatEntry v (fat16.setEntry v (fat16.setEntry v disk (lastCluster chain) n) n 0xFFFF) c =
      fat16.fatEntry v disk c := by
  have hne := h.ne_nil chain (by simp)
  have hdisjoint : chain.Disjoint l := by
    have hpairwise := h.disjoint
    rw [List.pairwise_append, List.pairwise_cons] at hpairwise
    obtain ⟨-, ⟨hafter, -⟩, hcross⟩ := hpairwise
    rcases List.mem_append.mp hl with hl | hl
    · exact (hcross l hl chain List.mem_cons_self).symm
    · exact hafter l hl
  have hmem : l ∈ before ++ chain :: after := by
    rcases List.mem_append.mp hl with hl | hl
    · exact List.mem_append_left _ hl
    · exact List.mem_append_right _ (List.mem_cons_of_mem _ hl)
  have hnc : n ≠ c := fun heq => hn l hmem (heq ▸ hc)
  have hlast : lastCluster chain ≠ c := fun heq => hdisjoint (heq ▸ lastCluster_mem hne) hc
  rw [fatEntry_setEntry_of_ne hnc, fatEntry_setEntry_of_ne hlast]

/-- The table with a free cluster behind one of the chains. -/
lemma append (h : ChainTable v disk (before ++ chain :: after))
    (hzero : fat16.fatEntry v disk n = 0) (h2 : 2 ≤ n) (hlt : n < 0xFFF7) :
    ChainTable v
      (fat16.setEntry v (fat16.setEntry v disk (lastCluster chain) n) n 0xFFFF)
      (before ++ (chain ++ [n]) :: after) := by
  have hn := h.notMem_of_free hzero
  have hchain : chain ∈ before ++ chain :: after := by simp
  have hne := h.ne_nil chain hchain
  have hn16 : n < 256 ^ fat16.entrySize := hlt.trans (by decide)
  have hcases : ∀ l ∈ before ++ (chain ++ [n]) :: after,
      l ∈ before ++ after ∨ l = chain ++ [n] := by
    intro l hl
    rw [List.mem_append, List.mem_cons] at hl
    rw [List.mem_append]
    tauto
  have hold : ∀ l ∈ before ++ after, l ∈ before ++ chain :: after := by
    intro l hl
    rw [List.mem_append] at hl
    rw [List.mem_append, List.mem_cons]
    tauto
  refine ⟨fun l hl => ?_, fun l hl => ?_, fun l hl c hc => ?_, ?_,
    fun c hc hc' hin hused hbad => ?_⟩
  · rcases hcases l hl with hl | rfl
    · exact h.ne_nil l (hold l hl)
    · simp
  · rcases hcases l hl with hl | rfl
    · exact (h.linked l (hold l hl)).congr fun c hc => h.fatEntry_other hn hl hc
    · exact (h.linked chain hchain).append hne hn16 (hn chain hchain) (by decide) (by decide)
  · rcases hcases l hl with hl | rfl
    · exact h.clusters l (hold l hl) c hc
    · rcases List.mem_append.mp hc with hc | hc
      · exact h.clusters chain hchain c hc
      · rw [List.mem_singleton.mp hc]
        exact ⟨h2, hlt⟩
  · exact pairwise_disjoint_append h.disjoint hn
  · -- a used entry is one of the two that have changed, or it was used before
    by_cases hnc : n = c
    · exact ⟨chain ++ [n], by simp, by simp [hnc]⟩
    by_cases hlast : lastCluster chain = c
    · exact ⟨chain ++ [n], by simp, List.mem_append_left _ (hlast ▸ lastCluster_mem hne)⟩
    rw [fatEntry_setEntry_of_ne hnc, fatEntry_setEntry_of_ne hlast] at hused hbad
    obtain ⟨l, hl, hcl⟩ := h.covers c hc hc' hin hused hbad
    rcases List.mem_append.mp hl with hl | hl
    · exact ⟨l, List.mem_append_left _ hl, hcl⟩
    rcases List.mem_cons.mp hl with rfl | hl
    · exact ⟨l ++ [n], by simp, List.mem_append_left _ hcl⟩
    · exact ⟨l, List.mem_append_right _ (List.mem_cons_of_mem _ hl), hcl⟩

end ChainTable

/-- **Growing a chain.**  On a volume without faults whose table is one of disjoint acyclic
chains, `fat16_add_cluster_to_chain` puts the free cluster that the search finds behind the chain
and leaves the other chains as they are; without a free cluster it changes nothing. -/
theorem fat16_add_cluster_to_chain (hv : HeaderRanges v) (hf : disk.FaultFree) (priv : FatPrivate)
    (h : ChainTable v disk (before ++ chain :: after)) (hfirst : chain.head? = some first) :
    (∀ n, fat16.freeCluster v disk 3 = some n → n < 0xFFF7 →
      ∃ disk', fat16Driver.addClusterToChain v priv disk first = some (0, priv, disk') ∧
        ChainTable v disk' (before ++ (chain ++ [n]) :: after) ∧
        fat16.fatEntry v disk' n = 0xFFFF ∧
        (∀ l ∈ before ++ chain :: after, n ∉ l) ∧
        ∀ l ∈ before ++ after, ∀ c ∈ l, fat16.fatEntry v disk' c = fat16.fatEntry v disk c) ∧
    (fat16.freeCluster v disk 3 = none →
      fat16Driver.addClusterToChain v priv disk first = some (-enodiskspace, priv, disk)) := by
  have hchain : chain ∈ before ++ chain :: after := by simp
  have hne := h.ne_nil chain hchain
  have hzero : chain.getD 0 0 = first := by
    obtain ⟨rest, rfl⟩ := List.head?_eq_some_iff.mp hfirst
    rfl
  have htable : ∀ c ∈ chain, fat16.tablePos v c + fat16.entrySize < 2 ^ 31 := fun c hc =>
    fat16_reachable hv ((h.clusters chain hchain c hc).2.trans (by decide))
  have hmax : ∀ c ∈ chain, c < fat16.endOfChain := fun c hc =>
    (h.clusters chain hchain c hc).2.trans (by decide)
  rw [← hzero]
  constructor
  · intro n hfree hlt
    obtain ⟨h3, hcode⟩ := freeCluster_some hfree
    have hn := fat16_reachable hv (hlt.trans (by decide) : n < 2 ^ 16)
    rw [entryCode_eq hf hn] at hcode
    exact ⟨_, fat16AddClusterToChain_free priv (h.linked chain hchain) hne htable hmax hf hfree h3
        hn (hlt.trans (by decide)),
      h.append hcode (by omega) hlt, fatEntry_setEntry_self (by decide), h.notMem_of_free hcode,
      fun l hl c hc => h.fatEntry_other (h.notMem_of_free hcode) hl hc⟩
  · exact fat16AddClusterToChain_full (h.linked chain hchain) hne htable hmax hf

/-- The bytes of a volume whose table marks the clusters 2 and 4 as ends of chains. -/
def twoEndsByte (a : ℕ) : UInt8 :=
  if a = 516 ∨ a = 520 then 0xF8 else if a = 517 ∨ a = 521 then 0xFF else 0

/-- The other entries of the table are free. -/
lemma fatEntry_twoEnds {c : ℕ} (hne2 : c ≠ 2) (hne4 : c ≠ 4) :
    fat16.fatEntry smallVolume (diskWith twoEndsByte) c = 0 := by
  have hpos : fat16.tablePos smallVolume c = 512 + 2 * c := by
    rw [tablePos, show smallVolume.reservedSectors * smallVolume.sectorSize = 512 from rfl,
      show fat16.entrySize = 2 from rfl, Nat.mul_comm]
  have hslice : Bytes.slice twoEndsByte (fat16.tablePos smallVolume c) 2 = [0, 0] := by
    have hlow : twoEndsByte (512 + 2 * c) = 0 := by
      rw [twoEndsByte, if_neg (by omega), if_neg (by omega)]
    have hhigh : twoEndsByte (512 + 2 * c + 1) = 0 := by
      rw [twoEndsByte, if_neg (by omega), if_neg (by omega)]
    rw [hpos, Bytes.slice, List.range_succ, List.range_succ, List.range_zero]
    simp [hlow, hhigh]
  exact congrArg Bytes.number hslice

/-- The clusters 2 and 4 are two chains. -/
lemma chainTable_twoEnds : ChainTable smallVolume (diskWith twoEndsByte) [[2], [4]] where
  ne_nil := by decide
  linked l hl := by
    have hsingle : l = [2] ∨ l = [4] := by simpa using hl
    rcases hsingle with rfl | rfl
    all_goals
      refine ⟨List.nodup_singleton _, fun i hi => ?_, fun i hi => ?_⟩
      · rw [List.length_singleton] at hi
        omega
      · obtain rfl : i = 0 := by simpa using hi
        decide
  clusters := by decide
  disjoint := List.pairwise_pair.mpr (List.singleton_disjoint.mpr (by decide))
  covers c _ _ _ hused _ := by
    by_cases hc2 : c = 2
    · exact ⟨[2], by simp, by simp [hc2]⟩
    by_cases hc4 : c = 4
    · exact ⟨[4], by simp, by simp [hc4]⟩
    exact absurd (fatEntry_twoEnds hc2 hc4) hused

/-- Cluster 3 is put behind cluster 2, and cluster 4 stays a chain by itself. -/
theorem fat16_add_cluster_to_chain_single :
    ∃ disk', fat16Driver.addClusterToChain smallVolume unknownFsinfo (diskWith twoEndsByte) 2 =
        some (0, unknownFsinfo, disk') ∧
      ChainTable smallVolume disk' [[2, 3], [4]] ∧
      fat16.fatEntry smallVolume disk' 4 =
        fat16.fatEntry smallVolume (diskWith twoEndsByte) 4 := by
  have htable : ChainTable smallVolume (diskWith twoEndsByte) ([] ++ [2] :: [[4]]) :=
    chainTable_twoEnds
  have hadd := fat16_add_cluster_to_chain headerRanges_small (diskWith_faultFree _) unknownFsinfo
    htable rfl
  obtain ⟨disk', hrun, htable, -, -, hother⟩ := hadd.1 3 (by decide) (by decide)
  exact ⟨disk', hrun, htable, hother [4] (by simp) 4 (by simp)⟩

end SerpaeOS
