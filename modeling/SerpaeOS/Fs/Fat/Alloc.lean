import SerpaeOS.Fs.Fat.Write
import Mathlib.Data.List.GetD

/-!
# Allocating clusters

What `fat16_add_cluster_to_chain` does to the chains of the volume: the first clusters
marked as free are appended to the chain, one after the other, and nothing else changes
but their table entries and that of the last cluster of the chain.
-/

namespace SerpaeOS

open Bytes Word

/-- The end of the first table. -/
def FatVolume.tableEnd (v : FatVolume) : ℕ :=
  (v.reservedSectors + v.sectorsPerFat) * v.sectorSize

namespace FatKind

variable (k : FatKind) (v : FatVolume)

/-- A data cluster whose entry lies in the table. -/
structure DataCluster (cluster : ℕ) : Prop extends k.OnVolume v cluster where
  in_table : (cluster + 1) * k.entrySize ≤ v.sectorsPerFat * v.sectorSize

/-- The position of a table entry on the volume. -/
def tablePos (cluster : ℕ) : ℕ := v.reservedSectors * v.sectorSize + cluster * k.entrySize

/-- The start of the data area. -/
def dataStart : ℕ := k.dataSector v * v.sectorSize

/-- The disk with an entry of the table replaced. -/
def setEntry (disk : Disk) (cluster val : ℕ) : Disk :=
  { disk with byte := store disk.byte (k.tablePos v cluster) (numberBytes k.entrySize val) }

/-- The byte belongs to the table entry of one of the clusters. -/
def InEntries (clusters : List ℕ) (a : ℕ) : Prop :=
  ∃ c ∈ clusters, k.tablePos v c ≤ a ∧ a < k.tablePos v c + k.entrySize

/-- The byte belongs to one of the clusters. -/
def InClusters (clusters : List ℕ) (a : ℕ) : Prop :=
  ∃ c ∈ clusters, k.dataPos v c ≤ a ∧ a < k.dataPos v c + v.clusterBytes

variable {k v} {disk : Disk} {chain : List ℕ} {c c' val : ℕ}

lemma tableEnd_le : v.tableEnd ≤ k.dataStart v := Nat.mul_le_mul_right _ (k.table_le v)

lemma DataCluster.entry_le (h : k.DataCluster v c) :
    k.tablePos v c + k.entrySize ≤ v.tableEnd := by
  have := h.in_table
  rw [tablePos, FatVolume.tableEnd, Nat.add_mul]
  rw [Nat.succ_mul] at this
  omega

lemma dataPos_eq (c : ℕ) : k.dataPos v c = k.dataStart v + (c - 2) * v.clusterBytes := by
  rw [dataPos, dataStart, FatVolume.clusterBytes]
  ring

lemma dataStart_le (c : ℕ) : k.dataStart v ≤ k.dataPos v c := by
  rw [dataPos_eq]
  exact Nat.le_add_right _ _

/-- Clusters lie one after the other in the order of their numbers. -/
lemma dataPos_lt (h2 : 2 ≤ c) (hlt : c < c') :
    k.dataPos v c + v.clusterBytes ≤ k.dataPos v c' := by
  have : (c - 2 + 1) * v.clusterBytes ≤ (c' - 2) * v.clusterBytes :=
    Nat.mul_le_mul_right _ (by omega)
  rw [Nat.succ_mul] at this
  rw [dataPos_eq, dataPos_eq]
  omega

lemma dataPos_ne (h2 : 2 ≤ c) (h2' : 2 ≤ c') (hne : c ≠ c') :
    k.dataPos v c + v.clusterBytes ≤ k.dataPos v c' ∨
      k.dataPos v c' + v.clusterBytes ≤ k.dataPos v c := by
  rcases Nat.lt_or_gt_of_ne hne with h | h
  · exact Or.inl (dataPos_lt h2 h)
  · exact Or.inr (dataPos_lt h2' h)

/-- The cluster with the next number lies right behind a cluster. -/
lemma dataPos_succ (h2 : 2 ≤ c) : k.dataPos v (c + 1) = k.dataPos v c + v.clusterBytes := by
  have : c + 1 - 2 = (c - 2) + 1 := by omega
  rw [dataPos_eq, dataPos_eq, this, Nat.succ_mul]
  omega

lemma tablePos_lt (hlt : c < c') : k.tablePos v c + k.entrySize ≤ k.tablePos v c' := by
  have : (c + 1) * k.entrySize ≤ c' * k.entrySize := Nat.mul_le_mul_right _ hlt
  rw [Nat.succ_mul] at this
  rw [tablePos, tablePos]
  omega

/-! ## Table entries -/

lemma fatEntry_lt (disk : Disk) (c : ℕ) : k.fatEntry v disk c < 256 ^ k.entrySize := by
  have := number_lt (slice disk.byte (k.tablePos v c) k.entrySize)
  rwa [length_slice] at this

/-- A table entry depends on its own bytes. -/
lemma fatEntry_congr {disk' : Disk}
    (h : ∀ a, k.tablePos v c ≤ a → a < k.tablePos v c + k.entrySize →
      disk'.byte a = disk.byte a) : k.fatEntry v disk' c = k.fatEntry v disk c := by
  rw [fatEntry, fatEntry, ← tablePos]
  congr 1
  rw [slice_eq_iff]
  exact fun i hi => h _ (by omega) (by omega)

lemma fatEntry_setEntry_self (hval : val < 256 ^ k.entrySize) :
    k.fatEntry v (k.setEntry v disk c val) c = val := by
  have hself := slice_store_self (b := disk.byte) (a := k.tablePos v c)
    (numberBytes k.entrySize val)
  rw [length_numberBytes] at hself
  rw [fatEntry, ← tablePos, setEntry]
  simp only [hself]
  exact number_numberBytes hval

lemma fatEntry_setEntry_of_ne (hne : c ≠ c') :
    k.fatEntry v (k.setEntry v disk c val) c' = k.fatEntry v disk c' := by
  refine fatEntry_congr fun a ha ha' => ?_
  rw [setEntry]
  refine store_of_lt ?_
  rw [length_numberBytes]
  rcases Nat.lt_or_gt_of_ne hne with h | h
  · have := tablePos_lt (k := k) (v := v) h
    omega
  · have := tablePos_lt (k := k) (v := v) h
    omega

lemma FaultFree.setEntry (h : disk.FaultFree) : (k.setEntry v disk c val).FaultFree :=
  ⟨h.read_ok, h.write_ok⟩

/-- What the driver reads as the entry of a cluster below the position `2 ^ 31`. -/
lemma entryCode_of_lt (hf : disk.FaultFree) (hlt : k.tablePos v c < 2 ^ 31) :
    k.entryCode v disk c = k.fatEntry v disk c := by
  have hpos : i32 (k.entryPos v c) = (k.tablePos v c : ℤ) := by
    have hcast : k.entryPos v c = (k.tablePos v c : ℤ) := by
      rw [entryPos, tablePos]
      push_cast
      rfl
    rw [hcast, i32_of_lt (by omega) (by omega)]
  have hget : k.getFatEntry v disk c = k.fatEntry v disk c := by
    rw [getFatEntry, hpos, diskstreamerRead_ok hf]
    rfl
  have hentry := fatEntry_lt (k := k) (v := v) disk c
  have hpow : (256 : ℕ) ^ k.entrySize = 2 ^ (8 * k.entrySize) := by
    rw [Nat.pow_mul]
  rw [entryCode, hget, ← hpow, ← Int.natCast_mod, Int.toNat_natCast,
    Nat.mod_eq_of_lt hentry]

lemma entryCode_eq (hf : disk.FaultFree) (hlt : k.tablePos v c + k.entrySize < 2 ^ 31) :
    k.entryCode v disk c = k.fatEntry v disk c :=
  entryCode_of_lt hf (by omega)

/-- An entry at a position that is negative as an `int` cannot be read, and does not look
free. -/
lemma fat16_entryCode_ne_zero_of_le (hle : 2 ^ 31 ≤ fat16.tablePos v c)
    (hlt : fat16.tablePos v c < 2 ^ 32) : fat16.entryCode v disk c ≠ 0 := by
  have hpos : i32 (fat16.entryPos v c) < 0 := by
    have hcast : fat16.entryPos v c = (fat16.tablePos v c : ℤ) := by
      rw [entryPos, tablePos]
      push_cast
      rfl
    rw [hcast, i32_of_ge (by omega) (by omega)]
    omega
  have hread : (diskstreamerRead disk (i32 (fat16.entryPos v c)) fat16.entrySize).1
      = -etimedout := by
    rw [diskstreamerRead, diskstreamerReadLoop, if_pos hpos]
  have hneg : (-etimedout : ℤ) < 0 := by decide
  rw [entryCode, getFatEntry]
  simp only [hread, if_pos hneg]
  decide

/-! ## Chains -/

/-- The entries of the clusters link them one after the other, and the last one ends the
chain. -/
structure Linked (k : FatKind) (v : FatVolume) (disk : Disk) (chain : List ℕ) : Prop where
  nodup : chain.Nodup
  next : ∀ i, i + 1 < chain.length → k.fatEntry v disk (chain.getD i 0) = chain.getD (i + 1) 0
  last : ∀ i, i + 1 = chain.length → k.endOfChain ≤ k.fatEntry v disk (chain.getD i 0)

/-- The last cluster of a chain. -/
def lastCluster (chain : List ℕ) : ℕ := chain.getD (chain.length - 1) 0

lemma lastCluster_mem (hne : chain ≠ []) : lastCluster chain ∈ chain := by
  have := List.length_pos_iff.mpr hne
  exact IsChain.getD_mem (by omega)

namespace Linked

lemma congr (h : k.Linked v disk chain) {disk' : Disk}
    (heq : ∀ c ∈ chain, k.fatEntry v disk' c = k.fatEntry v disk c) :
    k.Linked v disk' chain := by
  refine ⟨h.nodup, fun i hi => ?_, fun i hi => ?_⟩
  · rw [heq _ (IsChain.getD_mem (by omega)), h.next i hi]
  · rw [heq _ (IsChain.getD_mem (by omega))]
    exact h.last i hi

lemma getD_ne (h : k.Linked v disk chain) {i j : ℕ} (hi : i < chain.length)
    (hj : j < chain.length) (hij : i ≠ j) : chain.getD i 0 ≠ chain.getD j 0 := by
  intro heq
  rw [List.getD_eq_getElem _ _ hi, List.getD_eq_getElem _ _ hj] at heq
  exact hij ((List.Nodup.getElem_inj_iff h.nodup).mp heq)

/-- The clusters of a chain are not marked as free. -/
lemma fatEntry_ne_zero (h : k.Linked v disk chain) (hpos : ∀ c ∈ chain, 0 < c) (hc : c ∈ chain) :
    k.fatEntry v disk c ≠ 0 := by
  obtain ⟨i, hi, rfl⟩ := List.getElem_of_mem hc
  rw [← List.getD_eq_getElem _ 0 hi]
  have hmax := k.maxCluster_lt
  rcases Nat.lt_or_ge (i + 1) chain.length with hlt | hge
  · have hnext := hpos _ (IsChain.getD_mem hlt)
    rw [h.next i hlt]
    omega
  · have := h.last i (by omega)
    omega

/-- `find_last_cluster_of_chain` walks to the end of a chain. -/
lemma findLast_eq (h : k.Linked v disk chain) (hf : disk.FaultFree)
    (htable : ∀ c ∈ chain, k.tablePos v c + k.entrySize < 2 ^ 31)
    (hmax : ∀ c ∈ chain, c < k.endOfChain) :
    ∀ n i, i + n + 1 = chain.length →
      k.findLastClusterOfChain v disk (chain.getD i 0) = some (lastCluster chain) := by
  intro n
  induction n with
  | zero =>
    intro i hi
    have hpos := htable _ (IsChain.getD_mem (show i < chain.length by omega))
    rw [findLastClusterOfChain_step, entryCode_eq hf hpos]
    simp only [if_pos (h.last i hi)]
    rw [lastCluster, ← hi, Nat.add_zero, Nat.add_sub_cancel]
  | succ n ih =>
    intro i hi
    have hpos := htable _ (IsChain.getD_mem (show i < chain.length by omega))
    have hlt := hmax _ (IsChain.getD_mem (show i + 1 < chain.length by omega))
    rw [findLastClusterOfChain_step, entryCode_eq hf hpos, h.next i (by omega), if_neg (by omega),
      ih (i + 1) (by omega)]

/-- The chain with one more cluster, linked in the table. -/
lemma append (h : k.Linked v disk chain) (hne : chain ≠ []) (hclt : c < 256 ^ k.entrySize)
    (hnotin : c ∉ chain) {eoc : ℕ} (hend : k.endOfChain ≤ eoc) (hlt : eoc < 256 ^ k.entrySize) :
    k.Linked v (k.setEntry v (k.setEntry v disk (lastCluster chain) c) c eoc)
      (chain ++ [c]) := by
  have hpos := List.length_pos_iff.mpr hne
  have hcne : ∀ {i}, i < chain.length → c ≠ chain.getD i 0 := by
    rintro i hi rfl
    exact hnotin (IsChain.getD_mem hi)
  refine ⟨?_, ?_, ?_⟩
  · exact List.nodup_append.mpr ⟨h.nodup, List.nodup_singleton c, fun a ha b hb hab =>
      hnotin (by rw [← List.mem_singleton.mp hb, ← hab]; exact ha)⟩
  · intro i hi
    rw [List.length_append, List.length_singleton] at hi
    rw [List.getD_append _ _ _ _ (show i < chain.length by omega),
      fatEntry_setEntry_of_ne (hcne (by omega))]
    rcases Nat.lt_or_ge (i + 1) chain.length with hlt' | hge
    · -- a link of the old chain
      have hlast : lastCluster chain ≠ chain.getD i 0 :=
        h.getD_ne (by omega) (by omega) (by omega)
      rw [fatEntry_setEntry_of_ne hlast, h.next i hlt', List.getD_append _ _ _ _ hlt']
    · -- the link to the new cluster
      obtain rfl : i = chain.length - 1 := by omega
      rw [← lastCluster, fatEntry_setEntry_self hclt, List.getD_append_right _ _ _ _ hge,
        show chain.length - 1 + 1 - chain.length = 0 by omega]
      rfl
  · intro i hi
    rw [List.length_append, List.length_singleton] at hi
    obtain rfl : i = chain.length := by omega
    rw [List.getD_append_right _ _ _ _ (le_refl _), Nat.sub_self]
    exact hend.trans_eq (fatEntry_setEntry_self hlt).symm

end Linked

lemma OnVolume.tablePos_lt (h : k.OnVolume v c) : k.tablePos v c + k.entrySize < 2 ^ 31 := by
  have := h.entry_lt
  rw [Nat.succ_mul] at this
  rw [tablePos]
  omega

lemma OnVolume.lt_endOfChain (h : k.OnVolume v c) : c < k.endOfChain :=
  h.le_max.trans_lt k.maxCluster_lt

lemma IsChain.linked (h : k.IsChain v disk chain) : k.Linked v disk chain :=
  ⟨h.nodup, h.next, h.last⟩

lemma Linked.isChain (h : k.Linked v disk chain) (hon : ∀ c ∈ chain, k.OnVolume v c) :
    k.IsChain v disk chain :=
  ⟨h.nodup, hon, h.next, h.last⟩

lemma IsChain.congr (h : k.IsChain v disk chain) {disk' : Disk}
    (heq : ∀ c ∈ chain, k.fatEntry v disk' c = k.fatEntry v disk c) :
    k.IsChain v disk' chain :=
  (h.linked.congr heq).isChain h.onVolume

lemma IsChain.getD_ne (h : k.IsChain v disk chain) {i j : ℕ} (hi : i < chain.length)
    (hj : j < chain.length) (hij : i ≠ j) : chain.getD i 0 ≠ chain.getD j 0 :=
  h.linked.getD_ne hi hj hij

lemma IsChain.fatEntry_ne_zero (h : k.IsChain v disk chain) (hc : c ∈ chain) :
    k.fatEntry v disk c ≠ 0 :=
  h.linked.fatEntry_ne_zero (fun c hc => Nat.zero_lt_of_lt (h.onVolume c hc).two_le) hc

lemma IsChain.findLast_eq (h : k.IsChain v disk chain) (hf : disk.FaultFree) :
    ∀ n i, i + n + 1 = chain.length →
      k.findLastClusterOfChain v disk (chain.getD i 0) = some (lastCluster chain) :=
  h.linked.findLast_eq hf (fun c hc => (h.onVolume c hc).tablePos_lt)
    fun c hc => (h.onVolume c hc).lt_endOfChain

lemma OnVolume.lt_pow (h : k.OnVolume v c) : c < 256 ^ k.entrySize :=
  h.lt_endOfChain.trans k.endOfChain_lt

lemma IsChain.append (h : k.IsChain v disk chain) (hne : chain ≠ []) (hc : k.OnVolume v c)
    (hnotin : c ∉ chain) {eoc : ℕ} (hend : k.endOfChain ≤ eoc) (hlt : eoc < 256 ^ k.entrySize) :
    k.IsChain v (k.setEntry v (k.setEntry v disk (lastCluster chain) c) c eoc)
      (chain ++ [c]) := by
  refine (h.linked.append hne hc.lt_pow hnotin hend hlt).isChain fun x hx => ?_
  rcases List.mem_append.mp hx with hx | hx
  · exact h.onVolume x hx
  · rw [List.mem_singleton.mp hx]
    exact hc

/-! ## Free clusters -/

/-- The last number that the search for a free cluster tries. -/
def searchEnd (v : FatVolume) : ℕ := max 3 (v.sectorsBig / v.sectorsPerCluster)

/-- The clusters that the search finds marked as free, in order. -/
def freeClusters (k : FatKind) (v : FatVolume) (disk : Disk) : List ℕ :=
  (List.range' 3 (searchEnd v - 2)).filter fun c => k.fatEntry v disk c = 0

/-- The entries that the search tries lie below the position `2 ^ 31`. -/
def SearchBelow (k : FatKind) (v : FatVolume) : Prop :=
  k.tablePos v (searchEnd v) + k.entrySize < 2 ^ 31

instance : Decidable (k.SearchBelow v) := inferInstanceAs (Decidable (_ < _))

lemma mem_freeClusters : c ∈ k.freeClusters v disk ↔
    (3 ≤ c ∧ c ≤ searchEnd v) ∧ k.fatEntry v disk c = 0 := by
  have : 3 ≤ searchEnd v := Nat.le_max_left _ _
  simp only [freeClusters, List.mem_filter, List.mem_range'_1, decide_eq_true_eq]
  refine and_congr_left fun _ => ?_
  omega

lemma freeClusterLoop_eq (code : ℕ → ℕ) : ∀ n c, freeClusterLoop code n c =
    (List.range' c (n + 1)).find? fun c => code c = 0 := by
  intro n
  induction n with
  | zero =>
    intro c
    rw [freeClusterLoop, List.range'_succ, List.find?_cons]
    by_cases h : code c = 0
    · simp [h]
    · simp [h]
  | succ n ih =>
    intro c
    rw [freeClusterLoop, List.range'_succ, List.find?_cons, ih]
    by_cases h : code c = 0
    · simp [h]
    · simp [h]

/-- The search finds the first cluster marked as free. -/
lemma freeCluster_eq (hf : disk.FaultFree) (hsearch : k.SearchBelow v) :
    k.freeCluster v disk 3 = (k.freeClusters v disk).head? := by
  have hlen : v.sectorsBig / v.sectorsPerCluster - 3 + 1 = searchEnd v - 2 := by
    rw [searchEnd]
    generalize v.sectorsBig / v.sectorsPerCluster = q
    omega
  have hcode : ∀ c ∈ List.range' 3 (searchEnd v - 2),
      k.entryCode v disk c = k.fatEntry v disk c := by
    intro c hc
    have h3 : 3 ≤ searchEnd v := Nat.le_max_left _ _
    rw [List.mem_range'_1] at hc
    have hle : c * k.entrySize ≤ searchEnd v * k.entrySize := Nat.mul_le_mul_right _ (by omega)
    rw [SearchBelow, tablePos] at hsearch
    exact entryCode_eq hf (by rw [tablePos]; omega)
  rw [freeCluster, freeClusterLoop_eq, hlen, freeClusters, ← List.head?_filter,
    List.filter_congr fun c hc => by rw [hcode c hc]]

/-- The search also finds it when entries from the position `2 ^ 31` on are tried that cannot
be read, as long as the first cluster marked as free has its entry in front of them. -/
lemma fat16_freeCluster_eq (hf : disk.FaultFree)
    (hword : ∀ c, 3 ≤ c → c ≤ searchEnd v → fat16.tablePos v c < 2 ^ 32)
    (hhead : ∀ c ∈ (fat16.freeClusters v disk).head?, fat16.tablePos v c < 2 ^ 31) :
    fat16.freeCluster v disk 3 = (fat16.freeClusters v disk).head? := by
  have h3 : 3 ≤ searchEnd v := Nat.le_max_left _ _
  have hlen : v.sectorsBig / v.sectorsPerCluster - 3 + 1 = searchEnd v - 2 := by
    rw [searchEnd]
    generalize v.sectorsBig / v.sectorsPerCluster = q
    omega
  have hcode : ∀ c ∈ List.range' 3 (searchEnd v - 2), fat16.fatEntry v disk c ≠ 0 →
      fat16.entryCode v disk c ≠ 0 := by
    intro c hc hused
    rw [List.mem_range'_1] at hc
    rcases Nat.lt_or_ge (fat16.tablePos v c) (2 ^ 31) with hlt | hge
    · rwa [entryCode_of_lt hf hlt]
    · exact fat16_entryCode_ne_zero_of_le hge (hword c (by omega) (by omega))
  rw [freeCluster, freeClusterLoop_eq, hlen]
  rw [freeClusters, List.head?_filter] at hhead ⊢
  cases hfind : (List.range' 3 (searchEnd v - 2)).find? fun c => fat16.fatEntry v disk c = 0 with
  | none =>
    rw [List.find?_eq_none] at hfind ⊢
    simp only [decide_eq_true_eq] at hfind ⊢
    exact fun c hc => hcode c hc (hfind c hc)
  | some c =>
    have hlt := hhead c (by rw [hfind]; rfl)
    rw [List.find?_eq_some_iff_append] at hfind ⊢
    obtain ⟨hzero, before, after, hsplit, hbefore⟩ := hfind
    simp only [decide_eq_true_eq, Bool.not_eq_true', decide_eq_false_iff_not] at hzero hbefore ⊢
    refine ⟨by rwa [entryCode_of_lt hf hlt], before, after, hsplit, fun x hx => ?_⟩
    exact hcode x (by rw [hsplit]; exact List.mem_append_left _ hx) (hbefore x hx)

/-- Marking the first free cluster as used leaves the others free. -/
lemma freeClusters_append {free : List ℕ} (hlast : k.fatEntry v disk (lastCluster chain) ≠ 0)
    (hfree : k.freeClusters v disk = c :: free) (hclt : c < 256 ^ k.entrySize) {eoc : ℕ}
    (hpos : 0 < eoc) (hlt : eoc < 256 ^ k.entrySize) :
    k.freeClusters v (k.setEntry v (k.setEntry v disk (lastCluster chain) c) c eoc) = free := by
  have h3 : 3 ≤ c := (mem_freeClusters.mp (hfree ▸ List.mem_cons_self)).1.1
  have hnodup : (c :: free).Nodup := by
    rw [← hfree]
    exact List.Nodup.filter _ List.nodup_range'
  -- an entry reads as free exactly when it did before and is not that of `c`
  have hiff : ∀ x, (k.fatEntry v (k.setEntry v (k.setEntry v disk (lastCluster chain) c) c eoc) x
      = 0) ↔ (x ≠ c ∧ k.fatEntry v disk x = 0) := by
    intro x
    by_cases hxc : c = x
    · subst hxc
      rw [fatEntry_setEntry_self hlt]
      constructor
      · intro hz
        omega
      · exact fun hz => absurd rfl hz.1
    · rw [fatEntry_setEntry_of_ne hxc]
      by_cases hxl : lastCluster chain = x
      · subst hxl
        rw [fatEntry_setEntry_self hclt]
        constructor
        · intro hz
          omega
        · exact fun hz => absurd hz.2 hlast
      · rw [fatEntry_setEntry_of_ne hxl]
        exact ⟨fun hz => ⟨Ne.symm hxc, hz⟩, fun hz => hz.2⟩
  calc k.freeClusters v (k.setEntry v (k.setEntry v disk (lastCluster chain) c) c eoc)
      = (List.range' 3 (searchEnd v - 2)).filter fun x =>
          decide (x ≠ c) && decide (k.fatEntry v disk x = 0) := by
        refine List.filter_congr fun x _ => ?_
        rw [← Bool.decide_and, decide_eq_decide]
        exact hiff x
    _ = (k.freeClusters v disk).filter fun x => decide (x ≠ c) := by
        rw [freeClusters, List.filter_filter]
    _ = free := by
        rw [hfree, List.filter_cons_of_neg (by simp)]
        refine List.filter_eq_self.mpr fun x hx => ?_
        rw [decide_eq_true_eq]
        rintro rfl
        exact (List.nodup_cons.mp hnodup).1 hx

/-! ## Growing a chain -/

lemma writeFatEntry_eq (hlt : k.tablePos v c + k.entrySize < 2 ^ 31) (hf : disk.FaultFree)
    (val : ℕ) :
    k.writeFatEntry v disk c val = ((k.entrySize : ℤ), k.setEntry v disk c val) := by
  have hcast : k.entryPos v c = (k.tablePos v c : ℤ) := by
    rw [entryPos, tablePos]
    push_cast
    rfl
  rw [writeFatEntry, hcast, i32_of_lt (by omega) (by omega), diskstreamerWrite_ok hf,
    length_numberBytes, setEntry]

lemma InEntries.mono {l l' : List ℕ} (hsub : ∀ c ∈ l, c ∈ l') {a : ℕ} (h : k.InEntries v l a) :
    k.InEntries v l' a := by
  obtain ⟨c, hc, ha⟩ := h
  exact ⟨c, hsub c hc, ha⟩

lemma setEntry_of_not_inEntries {l : List ℕ} (hc : c ∈ l) {a : ℕ} (ha : ¬ k.InEntries v l a) :
    (k.setEntry v disk c val).byte a = disk.byte a := by
  rw [setEntry]
  refine store_of_lt ?_
  rw [length_numberBytes]
  by_contra hin
  exact ha ⟨c, hc, by omega, by omega⟩

/-- The clusters were appended to the chain, and nothing changed but the table entries of
the chain. -/
structure Grown (k : FatKind) (v : FatVolume) (disk : Disk) (chain : List ℕ) (disk' : Disk)
    (new : List ℕ) : Prop where
  faultFree : disk'.FaultFree
  isChain : k.IsChain v disk' (chain ++ new)
  frame : ∀ a, ¬ k.InEntries v (chain ++ new) a → disk'.byte a = disk.byte a

end FatKind

open FatKind

variable {v : FatVolume} {disk : Disk} {chain : List ℕ} {priv : FatPrivate}

lemma getD_zero_append {chain : List ℕ} (hne : chain ≠ []) (l : List ℕ) :
    (chain ++ l).getD 0 0 = chain.getD 0 0 :=
  List.getD_append _ _ _ _ (List.length_pos_iff.mpr hne)

/-- `fat16_add_cluster_to_chain` without a free cluster. -/
lemma fat16AddClusterToChain_full (h : fat16.Linked v disk chain) (hne : chain ≠ [])
    (htable : ∀ c ∈ chain, fat16.tablePos v c + fat16.entrySize < 2 ^ 31)
    (hmax : ∀ c ∈ chain, c < fat16.endOfChain) (hf : disk.FaultFree)
    (hfree : fat16.freeCluster v disk 3 = none) :
    fat16Driver.addClusterToChain v priv disk (chain.getD 0 0) =
      some (-enodiskspace, priv, disk) := by
  have hpos := List.length_pos_iff.mpr hne
  have hlast := h.findLast_eq hf htable hmax (chain.length - 1) 0 (by omega)
  have hnext : (fat16GetFirstFirstCluster v priv disk).1 = 0 := by
    rw [fat16GetFirstFirstCluster, hfree, Option.getD_none, Nat.zero_mod]
  rw [fat16AddClusterToChain_eq, hlast, Option.map_some]
  dsimp only
  rw [if_pos hnext]

/-- `fat16_add_cluster_to_chain` appends the first free cluster. -/
lemma fat16AddClusterToChain_free {c : ℕ} (priv : FatPrivate)
    (h : fat16.Linked v disk chain) (hne : chain ≠ [])
    (htable : ∀ c ∈ chain, fat16.tablePos v c + fat16.entrySize < 2 ^ 31)
    (hmax : ∀ c ∈ chain, c < fat16.endOfChain) (hf : disk.FaultFree)
    (hfree : fat16.freeCluster v disk 3 = some c) (h3 : 3 ≤ c)
    (hc : fat16.tablePos v c + fat16.entrySize < 2 ^ 31) (hclt : c < 2 ^ 16) :
    fat16Driver.addClusterToChain v priv disk (chain.getD 0 0) = some (0, priv,
      fat16.setEntry v (fat16.setEntry v disk (lastCluster chain) c) c 0xFFFF) := by
  have hpos := List.length_pos_iff.mpr hne
  have hlast := h.findLast_eq hf htable hmax (chain.length - 1) 0 (by omega)
  have hnext : (fat16GetFirstFirstCluster v priv disk).1 = c := by
    rw [fat16GetFirstFirstCluster, hfree, Option.getD_some, Nat.mod_eq_of_lt hclt]
  have hlink := writeFatEntry_eq (htable _ (lastCluster_mem hne)) hf c
  have hf' : (fat16.setEntry v disk (lastCluster chain) c).FaultFree := FaultFree.setEntry hf
  have hend := writeFatEntry_eq hc hf' 0xFFFF
  rw [fat16AddClusterToChain_eq, hlast, Option.map_some, hnext]
  dsimp only
  rw [if_neg (by omega), hlink, hend]

/-- Growing a chain takes the first free clusters, as many as are needed or as there
are. -/
lemma fat16GrowLoop_eq (priv : FatPrivate) (hsearch : fat16.SearchBelow v) :
    ∀ (count : ℕ) {disk : Disk} {chain : List ℕ}, fat16.IsChain v disk chain → chain ≠ [] →
      disk.FaultFree → (∀ c ∈ (fat16.freeClusters v disk).take count, fat16.DataCluster v c) →
      ∃ disk', fat16Driver.growLoop v (chain.getD 0 0) count priv disk =
          some (if count ≤ (fat16.freeClusters v disk).length then 0 else -enodiskspace,
            priv, disk') ∧
        fat16.Grown v disk chain disk' ((fat16.freeClusters v disk).take count) := by
  intro count
  induction count with
  | zero =>
    intro disk chain h _ hf _
    refine ⟨disk, by simp [FatDriver.growLoop], hf, ?_, fun a _ => rfl⟩
    rw [List.take_zero, List.append_nil]
    exact h
  | succ count ih =>
    intro disk chain h hne hf hdata
    have hfirst := freeCluster_eq hf hsearch
    rw [FatDriver.growLoop]
    cases hfree : fat16.freeClusters v disk with
    | nil =>
      rw [hfree, List.head?_nil] at hfirst
      rw [fat16AddClusterToChain_full h.linked hne (fun c hc => (h.onVolume c hc).tablePos_lt)
        (fun c hc => (h.onVolume c hc).lt_endOfChain) hf hfirst]
      refine ⟨disk, rfl, hf, ?_, fun a _ => rfl⟩
      rw [List.take_nil, List.append_nil]
      exact h
    | cons c free =>
      rw [hfree, List.head?_cons] at hfirst
      have hcdata : fat16.DataCluster v c := hdata c (by rw [hfree]; simp)
      obtain ⟨⟨h3, -⟩, hcfree⟩ := mem_freeClusters.mp (hfree ▸ List.mem_cons_self)
      have hnotin : c ∉ chain := fun hc => h.fatEntry_ne_zero hc hcfree
      -- the step: the chain has one more cluster and there is one free cluster less
      have hadd := fat16AddClusterToChain_free priv h.linked hne
        (fun c hc => (h.onVolume c hc).tablePos_lt) (fun c hc => (h.onVolume c hc).lt_endOfChain)
        hf hfirst h3 hcdata.toOnVolume.tablePos_lt hcdata.toOnVolume.lt_pow
      have hchain := h.append hne hcdata.toOnVolume hnotin
        (show fat16.endOfChain ≤ 0xFFFF by decide) (by decide)
      have hrest := freeClusters_append (h.fatEntry_ne_zero (lastCluster_mem hne)) hfree
        hcdata.toOnVolume.lt_pow (show 0 < 0xFFFF by decide) (by decide)
      generalize hdisk : fat16.setEntry v (fat16.setEntry v disk (lastCluster chain) c) c 0xFFFF
        = disk1 at hadd hchain hrest
      have hf1 : disk1.FaultFree := by
        rw [← hdisk]
        exact FaultFree.setEntry (FaultFree.setEntry hf)
      obtain ⟨disk', hgrow, hgrown⟩ := ih hchain (by simp) hf1
        (fun x hx => hdata x (by
          rw [hfree, List.take_succ_cons]
          rw [hrest] at hx
          exact List.mem_cons_of_mem _ hx))
      rw [hrest] at hgrow hgrown
      rw [getD_zero_append hne] at hgrow
      have happ : chain ++ (c :: free).take (count + 1) = chain ++ [c] ++ free.take count := by
        rw [List.take_succ_cons, List.append_assoc]
        rfl
      refine ⟨disk', ?_, hgrown.faultFree, ?_, fun a ha => ?_⟩
      · rw [hadd, Option.bind_some, if_neg (lt_irrefl 0), hgrow, List.length_cons]
        simp only [Nat.add_le_add_iff_right]
      · rw [happ]
        exact hgrown.isChain
      · rw [happ] at ha
        rw [hgrown.frame a ha, ← hdisk, setEntry_of_not_inEntries (l := chain ++ [c] ++ _)
          (by simp) ha, setEntry_of_not_inEntries (l := chain ++ [c] ++ _) ?_ ha]
        simp [lastCluster_mem hne]

end SerpaeOS
