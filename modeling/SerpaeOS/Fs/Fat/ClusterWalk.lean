import SerpaeOS.Fs.Fat.Alloc
import Mathlib.Logic.Function.Iterate

/-!
# Walking along a chain up to an offset

`get_cluster_for_offset` follows the table from the first cluster of a file.  The values at which
the FAT16 driver gives up are those of a 12 bit table: some of them are numbers of data clusters,
and the markers of the end of a chain are not among them, so that the walk goes on with the marker
as a cluster.  The FAT32 driver stops at every marker, and `fat32_read_internal` fails for a range
that does not fit in the chain.
-/

namespace SerpaeOS

open FatKind

variable {v : FatVolume} {disk : Disk} {chain : List ℕ}

/-! ## The walk and the iterates of the table -/

/-- The number that `n` entries of the table lead to. -/
def FatKind.after (k : FatKind) (v : FatVolume) (disk : Disk) (n : ℕ) (cluster : ℤ) : ℤ :=
  (k.getFatEntry v disk)^[n] cluster

lemma FatKind.after_zero (k : FatKind) (cluster : ℤ) : k.after v disk 0 cluster = cluster := rfl

lemma FatKind.after_one (k : FatKind) (cluster : ℤ) :
    k.after v disk 1 cluster = k.getFatEntry v disk cluster := by
  rw [FatKind.after, Function.iterate_one]

lemma FatKind.after_succ (k : FatKind) (n : ℕ) (cluster : ℤ) :
    k.after v disk (n + 1) cluster = k.after v disk n (k.getFatEntry v disk cluster) :=
  Function.iterate_succ_apply _ _ _

lemma FatKind.after_add (k : FatKind) (m n : ℕ) (cluster : ℤ) :
    k.after v disk (m + n) cluster = k.after v disk m (k.after v disk n cluster) :=
  Function.iterate_add_apply _ _ _ _

/-- The walk fails exactly at the values that stop it. -/
lemma FatKind.clusterLoop_cases (k : FatKind) (v : FatVolume) (disk : Disk) (n : ℕ)
    (cluster : ℤ) :
    ((∃ i, 0 < i ∧ i ≤ n ∧ k.stops (k.after v disk i cluster) = true) ∧
      k.clusterLoop v disk n cluster = -eio) ∨
    ((∀ i, 0 < i → i ≤ n → k.stops (k.after v disk i cluster) = false) ∧
      k.clusterLoop v disk n cluster = k.after v disk n cluster) := by
  induction n generalizing cluster with
  | zero =>
    refine Or.inr ⟨fun i hi hle => ?_, rfl⟩
    omega
  | succ n ih =>
    rw [clusterLoop]
    cases hstop : k.stops (k.getFatEntry v disk cluster)
    · rw [if_neg (by decide)]
      rcases ih (k.getFatEntry v disk cluster) with ⟨⟨i, hi, hle, hs⟩, heq⟩ | ⟨hall, heq⟩
      · refine Or.inl ⟨⟨i + 1, by omega, by omega, ?_⟩, heq⟩
        rwa [after_succ]
      · refine Or.inr ⟨fun i hi hle => ?_, heq.trans (k.after_succ n cluster).symm⟩
        obtain ⟨m, rfl⟩ : ∃ m, i = m + 1 := ⟨i - 1, by omega⟩
        rw [after_succ]
        rcases Nat.eq_zero_or_pos m with rfl | hm
        · exact hstop
        · exact hall m hm (by omega)
    · exact Or.inl ⟨⟨1, by omega, by omega, hstop⟩, if_pos rfl⟩

/-- The clusters that the driver reads one after the other in the table. -/
def FatKind.LinksTo (k : FatKind) (v : FatVolume) (disk : Disk) (chain : List ℕ) : Prop :=
  ∀ i, i + 1 < chain.length → k.getFatEntry v disk (chain.getD i 0) = chain.getD (i + 1) 0

lemma FatKind.LinksTo.after_eq {k : FatKind} (h : k.LinksTo v disk chain) {i : ℕ}
    (hi : i < chain.length) : k.after v disk i (chain.getD 0 0 : ℕ) = chain.getD i 0 := by
  induction i with
  | zero => rfl
  | succ i ih =>
    rw [Nat.add_comm i 1, after_add, ih (by omega), after_one, Nat.add_comm 1 i]
    exact h i hi

/-- Behind the chain the walk goes on from the marker. -/
lemma FatKind.LinksTo.after_length {k : FatKind} (h : k.LinksTo v disk chain) (hne : chain ≠ [])
    (n : ℕ) : k.after v disk (n + chain.length) (chain.getD 0 0 : ℕ) =
      k.after v disk n (k.getFatEntry v disk (lastCluster chain)) := by
  have hpos := List.length_pos_iff.mpr hne
  have hlast := h.after_eq (i := chain.length - 1) (by omega)
  have hmarker : k.after v disk chain.length (chain.getD 0 0 : ℕ) =
      k.getFatEntry v disk (lastCluster chain) := by
    obtain ⟨m, hm⟩ : ∃ m, chain.length = 1 + m := ⟨chain.length - 1, by omega⟩
    rw [lastCluster]
    rw [hm, Nat.add_sub_cancel_left] at hlast ⊢
    rw [after_add, hlast, after_one]
  rw [after_add, hmarker]

/-! ## Chains of a FAT16 table -/

/-- The driver reads a chain of data clusters in the table, up to a marker of the end. -/
structure Fat16Chain (v : FatVolume) (disk : Disk) (chain : List ℕ) : Prop where
  ne_nil : chain ≠ []
  data : ∀ c ∈ chain, 2 ≤ c ∧ c < 0xFFF0
  next : fat16.LinksTo v disk chain
  last : 0xFFF8 ≤ fat16GetFatEntry v disk (lastCluster chain)

/-- The data clusters at which the walk gives up. -/
def MisreadCluster (c : ℕ) : Prop := c = 0xFF0 ∨ c = 0xFF6 ∨ c = 0xFF8 ∨ c = 0xFFF

/-- Following the table from the marker, taken for a cluster, ends after `n` entries with a
failed read, or meets a value that stops the walk before. -/
def MarkerStops (v : FatVolume) (disk : Disk) (marker : ℤ) (n : ℕ) : Prop :=
  (∃ i, 0 < i ∧ i ≤ n ∧ fat16Stops (fat16.after v disk i marker) = true) ∨
    fat16.after v disk n marker < 0

/-- The cluster of the chain with the offset is found, or the chain is too short and there is an
error. -/
def FindsCluster (v : FatVolume) (disk : Disk) (chain : List ℕ) (offset : ℕ) : Prop :=
  (offset / v.clusterBytes < chain.length →
    fat16GetClusterForOffset v disk (chain.getD 0 0) offset =
      chain.getD (offset / v.clusterBytes) 0) ∧
  (chain.length ≤ offset / v.clusterBytes →
    fat16GetClusterForOffset v disk (chain.getD 0 0) offset < 0)

lemma fat16Stops_iff {entry : ℤ} : fat16Stops entry = true ↔ entry = 0xFF8 ∨ entry = 0xFFF ∨
    entry = 0xFFF7 ∨ entry = 0xFF0 ∨ entry = 0xFF6 ∨ entry = 0x00 := by
  simp [fat16Stops, or_assoc]

/-- Among the data clusters only four stop the walk. -/
lemma fat16Stops_data {c : ℕ} (hc : 2 ≤ c ∧ c < 0xFFF0) :
    fat16Stops c = true ↔ MisreadCluster c := by
  rw [fat16Stops_iff, MisreadCluster]
  omega

lemma fat16Stops_marker {entry : ℤ} (h : 0xFFF8 ≤ entry) : fat16.stops entry = false := by
  have hstops : fat16.stops = fat16Stops := rfl
  rw [hstops, ← Bool.not_eq_true, fat16Stops_iff]
  omega

lemma Fat16Chain.stops_iff (h : Fat16Chain v disk chain) {i : ℕ} (hi : i < chain.length) :
    fat16.stops (fat16.after v disk i (chain.getD 0 0 : ℕ)) = true ↔
      MisreadCluster (chain.getD i 0) := by
  rw [h.next.after_eq hi]
  exact fat16Stops_data (h.data _ (FatKind.IsChain.getD_mem hi))

/-- An offset inside the chain: the walk reaches the cluster unless it gives up on the way. -/
lemma Fat16Chain.finds_inside_iff (h : Fat16Chain v disk chain) {j : ℕ} (hj : j < chain.length) :
    fat16.clusterLoop v disk j (chain.getD 0 0 : ℕ) = chain.getD j 0 ↔
      ∀ i, 0 < i → i ≤ j → ¬ MisreadCluster (chain.getD i 0) := by
  rcases fat16.clusterLoop_cases v disk j (chain.getD 0 0 : ℕ) with
    ⟨⟨i, hi, hle, hstop⟩, heq⟩ | ⟨hall, heq⟩
  · rw [heq]
    refine iff_of_false (fun hfound => ?_) fun hok => ?_
    · have hneg : -eio < 0 := by decide
      omega
    · exact hok i hi hle ((h.stops_iff (by omega)).mp hstop)
  · rw [heq, h.next.after_eq hj]
    refine iff_of_true rfl fun i hi hle hmisread => ?_
    have hstop := (h.stops_iff (i := i) (by omega)).mpr hmisread
    rw [hall i hi hle] at hstop
    exact absurd hstop (by decide)

/-- An offset behind the chain: there is an error only if the walk gives up by chance. -/
lemma Fat16Chain.fails_behind_iff (h : Fat16Chain v disk chain) (n : ℕ) :
    fat16.clusterLoop v disk (n + chain.length) (chain.getD 0 0 : ℕ) < 0 ↔
      (∃ i, 0 < i ∧ i < chain.length ∧ MisreadCluster (chain.getD i 0)) ∨
        MarkerStops v disk (fat16GetFatEntry v disk (lastCluster chain)) n := by
  rcases fat16.clusterLoop_cases v disk (n + chain.length) (chain.getD 0 0 : ℕ)
    with ⟨⟨i, hi, hle, hstop⟩, heq⟩ | ⟨hall, heq⟩
  · refine iff_of_true (heq.trans_lt (by decide)) ?_
    rcases Nat.lt_or_ge i chain.length with hlt | hge
    · exact Or.inl ⟨i, hi, hlt, (h.stops_iff hlt).mp hstop⟩
    · obtain ⟨m, rfl⟩ := Nat.exists_eq_add_of_le' hge
      rw [h.next.after_length h.ne_nil] at hstop
      refine Or.inr (Or.inl ⟨m, Nat.pos_of_ne_zero ?_, by omega, hstop⟩)
      rintro rfl
      -- the marker itself does not stop the walk
      rw [after_zero] at hstop
      rw [← fat16GetFatEntry, fat16Stops_marker h.last] at hstop
      exact absurd hstop (by decide)
  · rw [heq, h.next.after_length h.ne_nil]
    constructor
    · exact fun hneg => Or.inr (Or.inr hneg)
    · rintro (⟨i, hi, hlt, hmisread⟩ | ⟨i, hi, hle, hstop⟩ | hneg)
      · have hstop := (h.stops_iff hlt).mpr hmisread
        rw [hall i hi (by omega)] at hstop
        exact absurd hstop (by decide)
      · have hnot := hall (i + chain.length) (by omega) (by omega)
        rw [h.next.after_length h.ne_nil] at hnot
        exact absurd (hnot.symm.trans hstop) (by decide)
      · exact hneg

/-- `fat16_get_cluster_for_offset` finds the cluster of every offset in a chain, and fails behind
it, exactly if no number on its way is one of the four that it takes for a marker and, behind the
chain, if following the table from the marker by chance meets an error. -/
theorem fat16_get_cluster_for_offset_iff (h : Fat16Chain v disk chain) (offset : ℕ) :
    FindsCluster v disk chain offset ↔
      (offset / v.clusterBytes < chain.length →
        ∀ i, 0 < i → i ≤ offset / v.clusterBytes → ¬ MisreadCluster (chain.getD i 0)) ∧
      (chain.length ≤ offset / v.clusterBytes →
        (∃ i, 0 < i ∧ i < chain.length ∧ MisreadCluster (chain.getD i 0)) ∨
          MarkerStops v disk (fat16GetFatEntry v disk (lastCluster chain))
            (offset / v.clusterBytes - chain.length)) := by
  refine and_congr ?_ ?_
  · exact forall_congr' fun hlt => h.finds_inside_iff hlt
  · refine forall_congr' fun hle => ?_
    have hcount : offset / v.clusterBytes =
        offset / v.clusterBytes - chain.length + chain.length := (Nat.sub_add_cancel hle).symm
    rw [← h.fails_behind_iff, ← hcount]
    rfl

/-- The byte of a volume with cluster 2 as a chain by itself, up to the marker `0xFFF8`. -/
def singleByte (a : ℕ) : UInt8 := if a = 516 then 0xF8 else if a = 517 then 0xFF else 0

lemma fat16Chain_single : Fat16Chain smallVolume (diskWith singleByte) [2] where
  ne_nil := List.cons_ne_nil _ _
  data c hc := by
    rw [List.mem_singleton.mp hc]
    exact ⟨by decide, by decide⟩
  next i hi := by
    rw [List.length_singleton] at hi
    omega
  last := by decide

/-- The second byte of a cluster. -/
theorem fat16_get_cluster_for_offset_iff_single :
    FindsCluster smallVolume (diskWith singleByte) [2] 1 := by
  refine (fat16_get_cluster_for_offset_iff fat16Chain_single 1).mpr ⟨fun _ i hi hle => ?_, ?_⟩
  · rw [show 1 / smallVolume.clusterBytes = 0 by decide] at hle
    omega
  · exact fun hle => absurd hle (by decide)

/-- The first byte behind the cluster: the marker is returned as a cluster. -/
theorem not_fat16_get_cluster_for_offset_behind :
    Fat16Chain smallVolume (diskWith singleByte) [2] ∧
      ¬ FindsCluster smallVolume (diskWith singleByte) [2] 512 := by
  refine ⟨fat16Chain_single, fun hfinds => ?_⟩
  exact absurd (hfinds.2 (by decide)) (by decide)

/-! ## Reading along a chain of FAT32 -/

def fat32ReadInternal := fat32.readInternal

lemma FatKind.IsChain.linksTo {k : FatKind} (h : k.IsChain v disk chain) (hf : disk.FaultFree) :
    k.LinksTo v disk chain := by
  intro i hi
  rw [(h.onVolume_getD (by omega)).getFatEntry_eq hf, h.next i hi]

/-- The driver sees the marker of the chain. -/
lemma FatKind.IsChain.endOfChain_le {k : FatKind} (h : k.IsChain v disk chain)
    (hf : disk.FaultFree) (hne : chain ≠ []) :
    (k.endOfChain : ℤ) ≤ k.getFatEntry v disk (lastCluster chain) := by
  have hpos := List.length_pos_iff.mpr hne
  rw [(h.onVolume _ (lastCluster_mem hne)).getFatEntry_eq hf]
  exact_mod_cast h.last (chain.length - 1) (by omega)

/-- On FAT32 the walk to a cluster behind the chain is stopped by the marker. -/
lemma FatKind.IsChain.clusterLoop_behind (h : fat32.IsChain v disk chain) (hf : disk.FaultFree)
    (hne : chain ≠ []) {n : ℕ} (hn : chain.length ≤ n) :
    fat32.clusterLoop v disk n (chain.getD 0 0 : ℕ) = -eio := by
  rcases fat32.clusterLoop_cases v disk n (chain.getD 0 0 : ℕ) with
    ⟨-, heq⟩ | ⟨hall, -⟩
  · exact heq
  · have hmarker := hall (0 + chain.length) (by have := List.length_pos_iff.mpr hne; omega)
      (by omega)
    have hend : 0x0FFFFFF8 ≤ fat32.getFatEntry v disk (lastCluster chain) :=
      h.endOfChain_le hf hne
    rw [(h.linksTo hf).after_length hne, after_zero] at hmarker
    simp only [fat32, fat32Stops, Bool.or_eq_false_iff, decide_eq_false_iff_not] at hmarker
    exact absurd hend hmarker.1.1.1.1

/-- A range that needs a cluster behind the chain: the steps along the chain succeed, and the
first one behind it fails. -/
lemma FatKind.IsChain.readInternalLoop_behind (h : fat32.IsChain v disk chain)
    (hf : disk.FaultFree) (hne : chain ≠ []) : ∀ (calls offset total : ℕ), total < calls →
      offset % v.clusterBytes = 0 → 0 < total → chain.length * v.clusterBytes < offset + total →
      (fat32.readInternalLoop v disk (chain.getD 0 0) calls offset total).1 < 0 := by
  intro calls
  induction calls with
  | zero => exact fun offset total hlt => absurd hlt (by omega)
  | succ calls ih =>
    intro offset total hcalls halign hpos hlong
    have hB : 0 < v.clusterBytes := v.clusterBytes_pos
    rw [readInternalLoop]
    rcases Nat.lt_or_ge (offset / v.clusterBytes) chain.length with hin | hbehind
    · -- a whole cluster is read, since the range does not end in it
      have hfits : (offset / v.clusterBytes + 1) * v.clusterBytes ≤ chain.length * v.clusterBytes :=
        Nat.mul_le_mul_right _ hin
      have hoffset : offset / v.clusterBytes * v.clusterBytes = offset :=
        Nat.div_mul_cancel (Nat.dvd_of_mod_eq_zero halign)
      rw [Nat.add_mul, hoffset, Nat.one_mul] at hfits
      have hmore : total > v.clusterBytes := by omega
      have hwalk : fat32.Walkable v chain offset v.clusterBytes := h.walkable_fat32 hB hfits
      obtain ⟨hcluster, hread⟩ := h.readStep hf (n := v.clusterBytes) hin fun j hj hle =>
        hwalk j hj (hle.trans (Nat.le_add_right _ _))
      rw [hcluster]
      simp only [if_pos hmore, hread]
      rw [if_neg (by omega), if_neg (by simp), if_pos (by omega)]
      refine ih _ _ (by omega) ?_ (by omega) (by omega)
      rw [Nat.add_mod_right]
      exact halign
    · rw [getClusterForOffset, h.clusterLoop_behind hf hne hbehind, if_pos (by decide)]
      decide

/-- Reads from the start of a cluster on do not run over the end of one. -/
lemma FatKind.followedByNext_of_aligned {k : FatKind} {offset : ℕ}
    (halign : offset % v.clusterBytes = 0) (size : ℕ) :
    k.FollowedByNext v disk chain offset size := by
  intro i _ hover
  have hlt : i % v.clusterBytes < v.clusterBytes := Nat.mod_lt _ v.clusterBytes_pos
  omega

/-- **Reading along a chain.**  On a fault-free FAT32 volume below the position `2 ^ 31`,
`fat32_read_internal` from the start of a cluster of a chain on delivers the bytes of the clusters
in their order when the range fits in the chain, and fails when it does not. -/
theorem fat32_read_internal_chain (hf : disk.FaultFree) {first : ℕ}
    (h : fat32.IsChain v disk chain) (hfirst : chain.head? = some first) {offset total : ℕ}
    (halign : offset % v.clusterBytes = 0) (htotal : 0 < total) :
    (offset + total ≤ chain.length * v.clusterBytes →
      fat32ReadInternal v disk first offset total =
        (0, Bytes.slice (fat32.contentByte v disk chain) offset total)) ∧
    (chain.length * v.clusterBytes < offset + total →
      (fat32ReadInternal v disk first offset total).1 < 0) := by
  obtain ⟨rest, rfl⟩ := List.head?_eq_some_iff.mp hfirst
  have hne : first :: rest ≠ [] := List.cons_ne_nil _ _
  constructor
  · intro hfits
    have hread := h.readInternalLoop_eq hf (total + 1) offset total htotal (Nat.lt_succ_self _)
      hfits (h.walkable_fat32 htotal hfits)
    rw [← (rawByte_eq_contentByte_iff offset total).mpr (followedByNext_of_aligned halign total)]
    exact hread
  · exact h.readInternalLoop_behind hf hne _ _ _ (Nat.lt_succ_self _) halign htotal

/-- From the second one of two clusters on: a hundred bytes, and a hundred bytes too many. -/
theorem fat32_read_internal_chain_pair :
    fat32ReadInternal smallVolume adjacentDisk32 (3 : ℕ) 512 100 =
        (0, Bytes.slice (fat32.contentByte smallVolume adjacentDisk32 [3, 4]) 512 100) ∧
      (fat32ReadInternal smallVolume adjacentDisk32 (3 : ℕ) 512 612).1 < 0 := by
  have hchain : fat32.IsChain smallVolume adjacentDisk32 [3, 4] := by
    refine isChain_pair (by decide) ?_ ?_ (by decide) (by decide)
    · exact ⟨by decide, by decide, by decide, by decide⟩
    · exact ⟨by decide, by decide, by decide, by decide⟩
  exact ⟨(fat32_read_internal_chain (diskWith_faultFree _) hchain rfl (by decide) (by decide)).1
      (by decide),
    (fat32_read_internal_chain (diskWith_faultFree _) hchain rfl (by decide) (by decide)).2
      (by decide)⟩

end SerpaeOS
