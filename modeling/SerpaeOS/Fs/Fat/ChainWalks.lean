import SerpaeOS.Fs.Fat.Erase
import SerpaeOS.Lib.Walk
import Mathlib.Order.Interval.Finset.Nat

/-!
# Walks along chains

`find_last_cluster_of_chain` and `erase_cluster_chain` follow the entries of the table and count no
steps, so that a table whose links come back to a cluster keeps them going for ever.  Erasing
clears the entries on its way: where it comes back it reads a zero, goes on with entry `0`, and
ends only if the links from there lead to its marker.
-/

namespace SerpaeOS

open Bytes Word Walk

namespace FatKind

variable (k : FatKind) (v : FatVolume)

/-- The links from a cluster lead back to a cluster that they have come through, and to no entry
with the marker before. -/
def LinksComeBack (disk : Disk) (marker : ℕ → Prop) (first : ℕ) : Prop :=
  ComesBack (k.entryCode v disk) (fun c => marker (k.entryCode v disk c)) first

variable {k v} {disk : Disk} {marker : ℕ → Prop} {first last c n : ℕ} {l : List ℕ}

/-- The links end at a marker or come back. -/
lemma stops_iff_not_linksComeBack : Stops (k.entryCode v disk)
    (fun c => marker (k.entryCode v disk c)) first ↔ ¬ k.LinksComeBack v disk marker first := by
  refine stops_iff_not_comesBack ((Set.finite_Iio (2 ^ (8 * k.entrySize))).subset ?_)
  rintro _ ⟨c, rfl⟩
  exact entryCode_lt disk c

/-- `find_last_cluster_of_chain` returns unless the links come back. -/
lemma findLast_isSome_iff : (k.findLastClusterOfChain v disk first).isSome ↔
    ¬ k.LinksComeBack v disk (k.endOfChain ≤ ·) first := by
  rw [← stops_iff_not_linksComeBack, ← loop_isSome_iff]
  rfl

/-! ## Erasing -/

/-- The entry of a cluster of the table, when some entries are cleared. -/
lemma entryCode_clearEntries (hf : disk.FaultFree) (hc : k.Reachable v c) :
    k.entryCode v (k.clearEntries v disk l) c = if c ∈ l then 0 else k.entryCode v disk c := by
  rw [entryCode_eq (FaultFree.clearEntries hf l) hc]
  split_ifs with hmem
  · exact fatEntry_clearEntries_of_mem hmem
  · rw [fatEntry_clearEntries_of_notMem hmem, entryCode_eq hf hc]

/-- One round of the loop that erases, behind others. -/
lemma eraseFrom_clearEntries (hf : disk.FaultFree) (hc : k.Reachable v c) :
    k.eraseFrom v last (k.clearEntries v disk l) c =
      if (if c ∈ l then 0 else k.entryCode v disk c) = last then
        some (k.clearEntries v disk (l ++ [c]))
      else k.eraseFrom v last (k.clearEntries v disk (l ++ [c]))
        (if c ∈ l then 0 else k.entryCode v disk c) := by
  have hfree := FaultFree.clearEntries (k := k) (v := v) hf l
  rw [eraseFrom_step hfree hc, ← entryCode_eq hfree hc, entryCode_clearEntries hf hc, clearEntries,
    clearEntries, List.foldl_append]
  rfl

/-- From a cluster in `n` steps before the marker the loop ends, when no cleared entry is as near
to the marker. -/
lemma eraseFrom_of_stopsIn (hf : disk.FaultFree)
    (hreach : ∀ c, c < 2 ^ (8 * k.entrySize) → k.Reachable v c) :
    ∀ {n c : ℕ} {l : List ℕ}, c < 2 ^ (8 * k.entrySize) →
      StopsIn (k.entryCode v disk) (fun c => k.entryCode v disk c = last) n c →
      (∀ x ∈ l, ∀ m ≤ n, ¬ StopsIn (k.entryCode v disk)
        (fun c => k.entryCode v disk c = last) m x) →
      (k.eraseFrom v last (k.clearEntries v disk l) c).isSome := by
  intro n
  induction n with
  | zero =>
    intro c l hc hn hl
    have hmem : c ∉ l := fun hmem => hl c hmem 0 le_rfl hn
    have hstop := stopsIn_zero.mp hn
    rw [eraseFrom_clearEntries hf (hreach c hc)]
    simp only [if_neg hmem, if_pos hstop, Option.isSome_some]
  | succ n ih =>
    intro c l hc hn hl
    have hmem : c ∉ l := fun hmem => hl c hmem (n + 1) le_rfl hn
    obtain ⟨hstop, hrest⟩ := stopsIn_succ.mp hn
    rw [eraseFrom_clearEntries hf (hreach c hc), if_neg hmem, if_neg hstop]
    refine ih (entryCode_lt disk c) hrest fun x hx m hm hx' => ?_
    rcases List.mem_append.mp hx with hx | hx
    · exact hl x hx m (by omega) hx'
    · rw [List.mem_singleton.mp hx] at hx'
      have := hx'.unique hn
      omega

end FatKind

open FatKind

variable {v : FatVolume} {disk : Disk} {first c : ℕ}

/-- The links from a cluster lead to an entry with `0xFFFF`. -/
def LeadsToEnd (v : FatVolume) (disk : Disk) (first : ℕ) : Prop :=
  Stops (fat16.entryCode v disk) (fun c => fat16.entryCode v disk c = 0xFFFF) first

lemma leadsToEnd_iff :
    LeadsToEnd v disk first ↔ ¬ fat16.LinksComeBack v disk (· = 0xFFFF) first :=
  @stops_iff_not_linksComeBack fat16 v disk (· = 0xFFFF) first

lemma leadsToEnd_of_eq (h : fat16.entryCode v disk c = 0xFFFF) : LeadsToEnd v disk c := ⟨0, h⟩

lemma LeadsToEnd.of_next (h : LeadsToEnd v disk (fat16.entryCode v disk c)) :
    LeadsToEnd v disk c :=
  @Stops.of_next _ (fat16.entryCode v disk) (fun c => fat16.entryCode v disk c = 0xFFFF) c h

/-- The loop ends from a cluster whose links lead to the end, whatever else is cleared. -/
lemma LeadsToEnd.eraseFrom {l : List ℕ} (h : LeadsToEnd v disk c) (hv : HeaderRanges v)
    (hf : disk.FaultFree) (hc : c < 2 ^ 16) (hl : ∀ x ∈ l, ¬ LeadsToEnd v disk x) :
    (fat16.eraseFrom v 0xFFFF (fat16.clearEntries v disk l) c).isSome := by
  obtain ⟨n, hn⟩ := h.exists_stopsIn
  refine eraseFrom_of_stopsIn hf (fun c hc => fat16_reachable hv hc) hc hn fun x hx m _ hm => ?_
  exact hl x hx ⟨m, hm.stops⟩

/-- Where the links do not lead to the end, the loop comes to a cleared entry and goes on with
entry `0`. -/
lemma eraseFrom_of_zero (hv : HeaderRanges v) (hf : disk.FaultFree) (hzero : LeadsToEnd v disk 0)
    (n : ℕ) : ∀ {c : ℕ} {l : List ℕ}, 2 ^ 16 < l.length + n → c < 2 ^ 16 → l.Nodup →
      (∀ x ∈ l, x < 2 ^ 16 ∧ ¬ LeadsToEnd v disk x) →
      (fat16.eraseFrom v 0xFFFF (fat16.clearEntries v disk l) c).isSome := by
  induction n with
  | zero =>
    -- more entries than there are numbers cannot be cleared
    intro c l hlen _ hnodup hall
    have hsub : l.Subperm (List.range (2 ^ 16)) :=
      hnodup.subperm fun x hx => List.mem_range.mpr (hall x hx).1
    have hle := hsub.length_le
    rw [List.length_range] at hle
    omega
  | succ n ih =>
    intro c l hlen hc hnodup hall
    by_cases hleads : LeadsToEnd v disk c
    · exact hleads.eraseFrom hv hf hc fun x hx => (hall x hx).2
    have hall' : ∀ x ∈ l ++ [c], x < 2 ^ 16 ∧ ¬ LeadsToEnd v disk x := by
      intro x hx
      rcases List.mem_append.mp hx with hx | hx
      · exact hall x hx
      · rw [List.mem_singleton.mp hx]
        exact ⟨hc, hleads⟩
    rw [eraseFrom_clearEntries hf (fat16_reachable hv hc)]
    by_cases hmem : c ∈ l
    · simp only [if_pos hmem, if_neg (by decide : ¬ 0 = 0xFFFF)]
      exact hzero.eraseFrom hv hf (by decide) fun x hx => (hall' x hx).2
    · have hstop : ¬ fat16.entryCode v disk c = 0xFFFF := fun hstop =>
        hleads (leadsToEnd_of_eq hstop)
      simp only [if_neg hmem, if_neg hstop]
      refine ih ?_ (fat16_entryCode_lt disk c) ?_ hall'
      · rw [List.length_append, List.length_singleton]
        omega
      · exact List.nodup_append.mpr ⟨hnodup, List.nodup_singleton c, fun x hx y hy hxy =>
          hmem (by rw [← List.mem_singleton.mp hy, ← hxy]; exact hx)⟩

/-- From a cluster and from entry `0` the links do not lead to the end: neither does the loop. -/
lemma eraseFrom_eq_none (hv : HeaderRanges v) (hf : disk.FaultFree) (hc : c < 2 ^ 16)
    (hfirst : ¬ LeadsToEnd v disk c) (hzero : ¬ LeadsToEnd v disk 0) :
    fat16.eraseFrom v 0xFFFF disk c = none := by
  rw [Option.eq_none_iff_forall_ne_some]
  intro disk' h
  refine eraseFrom_induction (P := fun d c _ => ∀ l, d = fat16.clearEntries v disk l →
    c < 2 ^ 16 → LeadsToEnd v disk c) ?_ ?_ h [] rfl hc |> hfirst
  · rintro _ c hcode l rfl hc
    by_contra hleads
    rw [entryCode_clearEntries hf (fat16_reachable hv hc)] at hcode
    split_ifs at hcode with hmem
    · exact hleads (leadsToEnd_of_eq hcode)
  · rintro _ c disk' hcode ih l rfl hc
    by_contra hleads
    rw [writeFatEntry_eq (fat16_reachable hv hc) (FaultFree.clearEntries hf l)] at ih
    have hnext := ih (l ++ [c]) (by rw [clearEntries, clearEntries, List.foldl_append]; rfl)
      (fat16_entryCode_lt _ c)
    rw [entryCode_clearEntries hf (fat16_reachable hv hc)] at hnext
    split_ifs at hnext with hmem
    · exact hzero hnext
    · exact hleads hnext.of_next

/-- `fat16_erase_cluster_chain` returns when the links lead to the end, from the cluster or from
entry `0`. -/
lemma fat16EraseClusterChain_isSome_iff (hv : HeaderRanges v) (hf : disk.FaultFree)
    (hfirst : first < 2 ^ 16) : (fat16EraseClusterChain v disk first).isSome ↔
      first ≤ 2 ∨ LeadsToEnd v disk first ∨ LeadsToEnd v disk 0 := by
  rw [fat16EraseClusterChain]
  split_ifs with hle
  · exact iff_of_true rfl (Or.inl hle)
  rw [Option.isSome_map, or_iff_right hle]
  change (fat16.eraseFrom v 0xFFFF disk first).isSome ↔ _
  constructor
  · intro h
    by_contra hnot
    rw [not_or] at hnot
    rw [eraseFrom_eq_none hv hf hfirst hnot.1 hnot.2] at h
    exact absurd h Bool.false_ne_true
  · rintro (hleads | hzero)
    · exact hleads.eraseFrom (l := []) hv hf hfirst fun x hx => absurd hx List.not_mem_nil
    · exact eraseFrom_of_zero (l := []) hv hf hzero (2 ^ 16 + 1) (by simp) hfirst List.nodup_nil
        fun x hx => absurd hx List.not_mem_nil

/-- The walks along chains return unless the links come back: `find_last_cluster_of_chain` those
from the first cluster, `fat16_erase_cluster_chain` both those from the first cluster and those from
entry `0`, with no marker but `0xFFFF`. -/
theorem fat_chain_walks_return_iff (hv : HeaderRanges v) (hf : disk.FaultFree)
    (hfirst : first < 2 ^ 16) :
    ((fat16.findLastClusterOfChain v disk first).isSome ↔
      ¬ fat16.LinksComeBack v disk (0xFFF8 ≤ ·) first) ∧
    ((fat16EraseClusterChain v disk first).isSome ↔
      first ≤ 2 ∨ ¬ fat16.LinksComeBack v disk (· = 0xFFFF) first ∨
        ¬ fat16.LinksComeBack v disk (· = 0xFFFF) 0) ∧
    ∀ first32, (fat32.findLastClusterOfChain v disk first32).isSome ↔
      ¬ fat32.LinksComeBack v disk (0x0FFFFFF8 ≤ ·) first32 := by
  refine ⟨findLast_isSome_iff, ?_, fun _ => findLast_isSome_iff⟩
  rw [fat16EraseClusterChain_isSome_iff hv hf hfirst, leadsToEnd_iff, leadsToEnd_iff]

/-- A chain that ends with its first cluster, in both tables. -/
theorem fat_chain_walks_return_iff_marked :
    ((fat16.findLastClusterOfChain smallVolume (diskWith fun _ => 0xFF) 3).isSome ↔
      ¬ fat16.LinksComeBack smallVolume (diskWith fun _ => 0xFF) (0xFFF8 ≤ ·) 3) ∧
    ((fat16EraseClusterChain smallVolume (diskWith fun _ => 0xFF) 3).isSome ↔
      3 ≤ 2 ∨ ¬ fat16.LinksComeBack smallVolume (diskWith fun _ => 0xFF) (· = 0xFFFF) 3 ∨
        ¬ fat16.LinksComeBack smallVolume (diskWith fun _ => 0xFF) (· = 0xFFFF) 0) ∧
    ∀ first32, (fat32.findLastClusterOfChain smallVolume (diskWith fun _ => 0xFF) first32).isSome ↔
      ¬ fat32.LinksComeBack smallVolume (diskWith fun _ => 0xFF) (0x0FFFFFF8 ≤ ·) first32 :=
  fat_chain_walks_return_iff headerRanges_small (diskWith_faultFree _) (by decide)

/-- From an entry that is zero the links go to entry `0`, and stay there when it is zero too. -/
lemma linksComeBack_of_zero {k : FatKind} {marker : ℕ → Prop} (h : k.entryCode v disk c = 0)
    (h0 : k.entryCode v disk 0 = 0) (hmarker : ¬ marker 0) : k.LinksComeBack v disk marker c := by
  have hone : (k.entryCode v disk)^[1] c = 0 := by rw [Function.iterate_one, h]
  have htwo : (k.entryCode v disk)^[2] c = 0 := by
    rw [Function.iterate_succ_apply', hone, h0]
  refine ⟨1, 2, Nat.lt_succ_self 1, hone.trans htwo.symm, fun i hi => ?_⟩
  have hcases : i = 0 ∨ i = 1 := by omega
  rcases hcases with rfl | rfl
  · simpa only [Function.iterate_zero, id_eq, h] using hmarker
  · simpa only [hone, h0] using hmarker

/-- When all entries are free, the walks go from cluster `3` to entry `0` and stay there. -/
theorem not_fat_chain_walks_return :
    ¬ (fat16.findLastClusterOfChain smallVolume (diskWith fun _ => 0) 3).isSome ∧
    ¬ (fat16EraseClusterChain smallVolume (diskWith fun _ => 0) 3).isSome ∧
    ¬ (fat32.findLastClusterOfChain smallVolume (diskWith fun _ => 0) 3).isSome := by
  have hf := diskWith_faultFree fun _ => 0
  have h16 : ∀ c < 4, fat16.entryCode smallVolume (diskWith fun _ => 0) c = 0 := fun c hc =>
    entryCode_eq hf (fat16_reachable headerRanges_small (by omega))
  have h32 : ∀ c < 4, fat32.entryCode smallVolume (diskWith fun _ => 0) c = 0 := fun c hc =>
    entryCode_eq hf (fat32_tablePos_lt headerRanges_small (by omega))
  have hback : ∀ {marker : ℕ → Prop}, ¬ marker 0 →
      fat16.LinksComeBack smallVolume (diskWith fun _ => 0) marker 3 := fun hmarker =>
    linksComeBack_of_zero (h16 3 (by decide)) (h16 0 (by decide)) hmarker
  have hback0 : fat16.LinksComeBack smallVolume (diskWith fun _ => 0) (· = 0xFFFF) 0 :=
    linksComeBack_of_zero (h16 0 (by decide)) (h16 0 (by decide)) (by decide)
  refine ⟨fun h => ?_, fun h => ?_, fun h => ?_⟩
  · exact findLast_isSome_iff.mp h (hback (by decide))
  · rw [fat16EraseClusterChain_isSome_iff headerRanges_small hf (by decide), leadsToEnd_iff,
      leadsToEnd_iff] at h
    rcases h with hle | h | h
    · exact absurd hle (by decide)
    · exact h (hback (by decide))
    · exact h hback0
  · exact findLast_isSome_iff.mp h
      (linksComeBack_of_zero (h32 3 (by decide)) (h32 0 (by decide)) (by decide))

end SerpaeOS
