import SerpaeOS.Fs.Fat.ChainTable
import SerpaeOS.Fs.Fat.FreeCluster
import SerpaeOS.Lib.Chains
import SerpaeOS.Lib.StepRun

/-!
# The FAT16 table as a store of chains

Files are created, written and deleted with three functions that change the table:
`fat16_generate_cluster_chain`, `fat16_add_cluster_to_chain` and `fat16_erase_cluster_chain`.
Together they keep a store of chains: the clusters that the search for a free one tries are handed
out in the order of their numbers, and those of an erased chain are free again.  This is so as long
as the search stays in the table and the chains end with `0xFFFF`, the marker that the driver
writes.
-/

namespace SerpaeOS

open FatKind Chains StepRun

/-! ## Reading chains -/

/-- The loop of `fat16_count_clusters_in_chain`. -/
def countClustersLoop (v : FatVolume) (disk : Disk) (curr i : ℕ) : Option ℕ :=
  Loop.run ⟨fun (curr, i) => some <|
    let curr := fat16.entryCode v disk curr
    if curr < 0xFFF8 then .inl (curr, i + 1) else .inr i⟩ (curr, i)

def fat16CountClustersInChain (v : FatVolume) (disk : Disk) (firstCluster : ℕ) : Option ℕ :=
  countClustersLoop v disk firstCluster 1

/-- The loop of `fat16_get_cluster_chain`. -/
def getClusterChainLoop (v : FatVolume) (disk : Disk) (curr : ℕ) (out : List ℕ) :
    Option (List ℕ) :=
  Loop.run ⟨fun (curr, out) => some <|
    let out := out ++ [curr]
    let curr := fat16.entryCode v disk curr
    if curr < 0xFFF8 then .inl (curr, out) else .inr out⟩ (curr, out)

/-- `fat16_get_cluster_chain`: the clusters that are stored in `out`, whose number is the
result. -/
def fat16GetClusterChain (v : FatVolume) (disk : Disk) (firstCluster : ℕ) : Option (List ℕ) :=
  getClusterChainLoop v disk firstCluster []

/-! ## The calls of the driver -/

inductive ChainCall
  | generate (count : ℤ)
  | add (firstCluster : ℕ)
  | erase (first : ℕ)
  | countClusters (firstCluster : ℕ)
  | getChain (firstCluster : ℕ)

/-- The volume, and what the calls so far have returned and stored in `out`. -/
structure ChainState where
  priv : FatPrivate
  disk : Disk
  results : List (ℤ × List ℕ)

def chainCallStep (v : FatVolume) (s : ChainState) : ChainCall → Option ChainState
  | .generate count =>
    (fat16GenerateClusterChain v s.priv s.disk count).map fun (first, priv, disk) =>
      ⟨priv, disk, s.results ++ [((first : ℤ), [])]⟩
  | .add firstCluster =>
    (fat16Driver.addClusterToChain v s.priv s.disk firstCluster).map fun (res, priv, disk) =>
      ⟨priv, disk, s.results ++ [(res, [])]⟩
  | .erase first =>
    (fat16EraseClusterChain v s.disk first).map fun (res, disk) =>
      ⟨s.priv, disk, s.results ++ [(res, [])]⟩
  | .countClusters firstCluster =>
    (fat16CountClustersInChain v s.disk firstCluster).map fun (i : ℕ) =>
      { s with results := s.results ++ [((i : ℤ), ([] : List ℕ))] }
  | .getChain firstCluster =>
    (fat16GetClusterChain v s.disk firstCluster).map fun out =>
      { s with results := s.results ++ [(out.length, out)] }

/-! ## The store -/

/-- The chains of a volume, and what the calls so far are to return. -/
structure ChainStore where
  chains : List (List ℕ)
  results : List (ℤ × List ℕ)

namespace ChainCall

/-- The chain that starts with the cluster. -/
def chainFrom (chains : List (List ℕ)) (first : ℕ) : List ℕ :=
  (chains.find? fun l => l.head? = some first).getD []

/-- What the call is to return. -/
def result (pool : List ℕ) (chains : List (List ℕ)) : ChainCall → ℤ × List ℕ
  | generate count => (if count ≤ 0 then 2 ^ 16 - einvarg else (free pool chains).headD 0, [])
  | add _ => (if free pool chains = [] then -enodiskspace else 0, [])
  | erase first => (if first ≤ 2 then -einvarg else 0, [])
  | countClusters firstCluster => ((chainFrom chains firstCluster).length, [])
  | getChain firstCluster =>
    ((chainFrom chains firstCluster).length, chainFrom chains firstCluster)

/-- The chains after the call. -/
def chainsAfter (pool : List ℕ) (chains : List (List ℕ)) : ChainCall → List (List ℕ)
  | generate count => if count ≤ 0 then chains else make pool count.toNat chains
  | add firstCluster => grow pool firstCluster chains
  | erase first => if first ≤ 2 then chains else Chains.erase first chains
  | countClusters _ => chains
  | getChain _ => chains

/-- The cluster that is passed to the call is the first one of a chain. -/
def Legal (chains : List (List ℕ)) : ChainCall → Prop
  | generate _ => True
  | add first | erase first | countClusters first | getChain first =>
    ∃ l ∈ chains, l.head? = some first

end ChainCall

/-- A call to the store with the clusters in `pool` to hand out. -/
def ChainStore.step (pool : List ℕ) (s : ChainStore) (call : ChainCall) : ChainStore :=
  ⟨call.chainsAfter pool s.chains, s.results ++ [call.result pool s.chains]⟩

/-- The clusters that the search tries and that are not marked as bad. -/
def usableClusters (v : FatVolume) (disk : Disk) : List ℕ :=
  (List.range' 3 (searchEnd v - 2)).filter fun c => decide (fat16.fatEntry v disk c ≠ 0xFFF7)

/-- The entries that the search tries are those of data clusters in the table. -/
structure SearchInTable (v : FatVolume) : Prop where
  lt : searchEnd v < 0xFFF7
  in_table : (searchEnd v + 1) * fat16.entrySize ≤ v.sectorsPerFat * v.sectorSize

/-- The table holds the chains, all of them ended with the marker of the driver, and has the
clusters in `pool` to hand out. -/
structure HoldsChains (v : FatVolume) (pool : List ℕ) (disk : Disk) (chains : List (List ℕ)) :
    Prop where
  faultFree : disk.FaultFree
  table : ChainTable v disk chains
  ended : ∀ l ∈ chains, fat16.fatEntry v disk (lastCluster l) = 0xFFFF
  pool_eq : usableClusters v disk = pool

variable {v : FatVolume} {pool rest : List ℕ} {disk disk' : Disk} {priv : FatPrivate}
  {chains chains' before after : List (List ℕ)} {chain : List ℕ} {first c : ℕ}

lemma usableClusters_congr (h : ∀ c, fat16.fatEntry v disk' c = 0xFFF7 ↔
    fat16.fatEntry v disk c = 0xFFF7) : usableClusters v disk' = usableClusters v disk :=
  List.filter_congr fun c _ => decide_eq_decide.mpr (h c).not

lemma ChainTable.ok (h : ChainTable v disk chains) : Ok chains :=
  ⟨fun hnil => h.ne_nil [] hnil rfl,
    List.nodup_flatten.mpr ⟨fun l hl => (h.linked l hl).nodup, h.disjoint⟩⟩

/-- The clusters of a chain are not marked as bad. -/
lemma ChainTable.fatEntry_ne_bad (h : ChainTable v disk chains) {l : List ℕ} (hl : l ∈ chains)
    (hc : c ∈ l) : fat16.fatEntry v disk c ≠ 0xFFF7 := by
  obtain ⟨i, hi, rfl⟩ := List.getElem_of_mem hc
  rw [← List.getD_eq_getElem _ 0 hi]
  rcases Nat.lt_or_ge (i + 1) l.length with hlt | hge
  · rw [(h.linked l hl).next i hlt]
    exact (h.clusters l hl _ (IsChain.getD_mem hlt)).2.ne
  · have hend := (h.linked l hl).last i (by omega)
    have h16 : fat16.endOfChain = 0xFFF8 := rfl
    omega

namespace HoldsChains

lemma nodup_pool (h : HoldsChains v pool disk chains) : pool.Nodup := by
  rw [← h.pool_eq]
  exact List.Nodup.filter _ List.nodup_range'

/-- The free clusters of the table are those of the store. -/
lemma freeClusters_eq (h : HoldsChains v pool disk chains) (hsearch : SearchInTable v) :
    fat16.freeClusters v disk = free pool chains := by
  have hsize : fat16.entrySize = 2 := rfl
  have h3 : 3 ≤ searchEnd v := Nat.le_max_left _ _
  have hin := hsearch.in_table
  have hlt := hsearch.lt
  rw [← h.pool_eq, free, usableClusters, List.filter_filter]
  refine List.filter_congr fun c hc => ?_
  rw [List.mem_range'_1] at hc
  rw [← Bool.decide_and, decide_eq_decide]
  constructor
  · intro hzero
    refine ⟨fun hmem => ?_, by omega⟩
    obtain ⟨l, hl, hcl⟩ := List.mem_flatten.mp hmem
    exact h.table.notMem_of_free hzero l hl hcl
  · rintro ⟨hnotin, hbad⟩
    by_contra hused
    obtain ⟨l, hl, hcl⟩ :=
      h.table.covers c (by omega) (by omega) (by rw [hsize] at hin ⊢; omega) hused hbad
    exact hnotin (List.mem_flatten.mpr ⟨l, hl, hcl⟩)

lemma freeCluster_eq (h : HoldsChains v pool disk chains) (hv : HeaderRanges v)
    (hsearch : SearchInTable v) : fat16.freeCluster v disk 3 = (free pool chains).head? := by
  have hlt := hsearch.lt
  rw [FatKind.freeCluster_eq h.faultFree (fat16_reachable hv (by omega)),
    h.freeClusters_eq hsearch]

/-- What is free may be given to a chain. -/
lemma of_free (h : HoldsChains v pool disk chains) (hsearch : SearchInTable v)
    (hfree : free pool chains = c :: rest) :
    fat16.fatEntry v disk c = 0 ∧ 3 ≤ c ∧ c < 0xFFF7 := by
  have hmem : c ∈ fat16.freeClusters v disk := by
    rw [h.freeClusters_eq hsearch, hfree]
    exact List.mem_cons_self
  obtain ⟨⟨h3, hle⟩, hzero⟩ := mem_freeClusters.mp hmem
  exact ⟨hzero, h3, hle.trans_lt hsearch.lt⟩

/-- A free cluster behind one of the chains. -/
lemma append (h : HoldsChains v pool disk (before ++ chain :: after)) (hsearch : SearchInTable v)
    (hfree : free pool (before ++ chain :: after) = c :: rest) :
    HoldsChains v pool (fat16.setEntry v (fat16.setEntry v disk (lastCluster chain) c) c 0xFFFF)
      (before ++ (chain ++ [c]) :: after) := by
  obtain ⟨hzero, h3, hlt⟩ := h.of_free hsearch hfree
  have hchain : chain ∈ before ++ chain :: after := by simp
  have hne := h.table.ne_nil chain hchain
  have hn := h.table.notMem_of_free hzero
  have hc16 : c < 256 ^ fat16.entrySize := hlt.trans (by decide)
  have hself : fat16.fatEntry v
      (fat16.setEntry v (fat16.setEntry v disk (lastCluster chain) c) c 0xFFFF) c = 0xFFFF :=
    fatEntry_setEntry_self (by decide)
  refine ⟨FaultFree.setEntry (FaultFree.setEntry h.faultFree),
    h.table.append hzero (by omega) hlt, fun l hl => ?_, ?_⟩
  · have hcases : l ∈ before ++ after ∨ l = chain ++ [c] := by
      rw [List.mem_append, List.mem_cons] at hl
      rw [List.mem_append]
      tauto
    rcases hcases with hl | rfl
    · have hl' : l ∈ before ++ chain :: after := by
        rw [List.mem_append] at hl
        rw [List.mem_append, List.mem_cons]
        tauto
      rw [h.table.fatEntry_other hn hl (lastCluster_mem (h.table.ne_nil l hl')), h.ended l hl']
    · rw [List.mem_singleton.mp (lastCluster_append_mem (List.cons_ne_nil c []))]
      exact hself
  · rw [← h.pool_eq]
    refine usableClusters_congr fun x => ?_
    by_cases hcx : c = x
    · subst hcx
      rw [hself, hzero]
      decide
    rw [fatEntry_setEntry_of_ne hcx]
    by_cases hlast : lastCluster chain = x
    · subst hlast
      rw [fatEntry_setEntry_self hc16]
      exact iff_of_false hlt.ne (h.table.fatEntry_ne_bad hchain (lastCluster_mem hne))
    · rw [fatEntry_setEntry_of_ne hlast]

/-- A free cluster as a chain of its own. -/
lemma concat (h : HoldsChains v pool disk chains) (hsearch : SearchInTable v)
    (hfree : free pool chains = c :: rest) :
    HoldsChains v pool (fat16.setEntry v disk c 0xFFFF) (chains ++ [[c]]) := by
  obtain ⟨hzero, h3, hlt⟩ := h.of_free hsearch hfree
  have hn := h.table.notMem_of_free hzero
  have hself : fat16.fatEntry v (fat16.setEntry v disk c 0xFFFF) c = 0xFFFF :=
    fatEntry_setEntry_self (by decide)
  have hother : ∀ l ∈ chains, ∀ x ∈ l,
      fat16.fatEntry v (fat16.setEntry v disk c 0xFFFF) x = fat16.fatEntry v disk x :=
    fun l hl x hx => fatEntry_setEntry_of_ne fun hcx => hn l hl (hcx ▸ hx)
  have hcases : ∀ l ∈ chains ++ [[c]], l ∈ chains ∨ l = [c] := fun l hl =>
    (List.mem_append.mp hl).imp_right List.mem_singleton.mp
  refine ⟨FaultFree.setEntry h.faultFree, ⟨fun l hl => ?_, fun l hl => ?_, fun l hl x hx => ?_, ?_,
    fun x hx hx' hin hused hbad => ?_⟩, fun l hl => ?_, ?_⟩
  · rcases hcases l hl with hl | rfl
    · exact h.table.ne_nil l hl
    · exact List.cons_ne_nil _ _
  · rcases hcases l hl with hl | rfl
    · exact (h.table.linked l hl).congr (hother l hl)
    · refine ⟨List.nodup_singleton c, fun i hi => ?_, fun i hi => ?_⟩
      · rw [List.length_singleton] at hi
        omega
      · obtain rfl : i = 0 := by simpa using hi
        rw [List.getD_cons_zero, hself]
        decide
  · rcases hcases l hl with hl | rfl
    · exact h.table.clusters l hl x hx
    · rw [List.mem_singleton.mp hx]
      exact ⟨by omega, hlt⟩
  · rw [List.pairwise_append]
    refine ⟨h.table.disjoint, List.pairwise_singleton _ _, fun l hl l' hl' => ?_⟩
    rw [List.mem_singleton.mp hl']
    exact (List.singleton_disjoint.mpr (hn l hl)).symm
  · by_cases hcx : c = x
    · exact ⟨[c], by simp, by simp [hcx]⟩
    rw [fatEntry_setEntry_of_ne hcx] at hused hbad
    obtain ⟨l, hl, hxl⟩ := h.table.covers x hx hx' hin hused hbad
    exact ⟨l, List.mem_append_left _ hl, hxl⟩
  · rcases hcases l hl with hl | rfl
    · rw [hother l hl _ (lastCluster_mem (h.table.ne_nil l hl)), h.ended l hl]
    · exact hself
  · rw [← h.pool_eq]
    refine usableClusters_congr fun x => ?_
    by_cases hcx : c = x
    · subst hcx
      rw [hself, hzero]
      decide
    · rw [fatEntry_setEntry_of_ne hcx]

/-- The table with the entries of one of the chains cleared. -/
lemma cleared (h : HoldsChains v pool disk (before ++ chain :: after)) :
    HoldsChains v pool (fat16.clearEntries v disk chain) (before ++ after) := by
  have hchain : chain ∈ before ++ chain :: after := by simp
  have hsub : ∀ l ∈ before ++ after, l ∈ before ++ chain :: after := by
    intro l hl
    rw [List.mem_append] at hl
    rw [List.mem_append, List.mem_cons]
    tauto
  have hnodup := perm_flatten_mid.nodup_iff.mp h.table.ok.nodup
  have hother : ∀ l ∈ before ++ after, ∀ x ∈ l,
      fat16.fatEntry v (fat16.clearEntries v disk chain) x = fat16.fatEntry v disk x := by
    intro l hl x hx
    refine fatEntry_clearEntries_of_notMem fun hmem => ?_
    exact (List.nodup_append.mp hnodup).2.2 x hmem x (List.mem_flatten.mpr ⟨l, hl, hx⟩) rfl
  refine ⟨FaultFree.clearEntries h.faultFree chain, ⟨fun l hl => h.table.ne_nil l (hsub l hl),
    fun l hl => (h.table.linked l (hsub l hl)).congr (hother l hl),
    fun l hl => h.table.clusters l (hsub l hl),
    (List.nodup_flatten.mp (List.nodup_append.mp hnodup).2.1).2,
    fun x hx hx' hin hused hbad => ?_⟩, fun l hl => ?_, ?_⟩
  · have hnotin : x ∉ chain := fun hmem => hused (fatEntry_clearEntries_of_mem hmem)
    rw [fatEntry_clearEntries_of_notMem hnotin] at hused hbad
    obtain ⟨l, hl, hxl⟩ := h.table.covers x hx hx' hin hused hbad
    rcases List.mem_append.mp hl with hl | hl
    · exact ⟨l, List.mem_append_left _ hl, hxl⟩
    rcases List.mem_cons.mp hl with rfl | hl
    · exact absurd hxl hnotin
    · exact ⟨l, List.mem_append_right _ hl, hxl⟩
  · rw [hother l hl _ (lastCluster_mem (h.table.ne_nil l (hsub l hl))), h.ended l (hsub l hl)]
  · rw [← h.pool_eq]
    refine usableClusters_congr fun x => ?_
    by_cases hmem : x ∈ chain
    · rw [fatEntry_clearEntries_of_mem hmem]
      exact iff_of_false (by decide) (h.table.fatEntry_ne_bad hchain hmem)
    · rw [fatEntry_clearEntries_of_notMem hmem]

end HoldsChains

/-! ## The calls on the table -/

/-- The volume with the chains after some calls: only entries of clusters that may be handed out
or are in a chain have changed. -/
structure Becomes (v : FatVolume) (pool : List ℕ) (disk : Disk) (chains : List (List ℕ))
    (disk' : Disk) (chains' : List (List ℕ)) : Prop where
  holds : HoldsChains v pool disk' chains'
  cells : ∀ c ∈ chains'.flatten, c ∈ pool ++ chains.flatten
  frame : ∀ a, ¬ fat16.InEntries v (pool ++ chains.flatten) a → disk'.byte a = disk.byte a

lemma HoldsChains.becomes (h : HoldsChains v pool disk chains) :
    Becomes v pool disk chains disk chains :=
  ⟨h, fun _ hc => List.mem_append_right _ hc, fun _ _ => rfl⟩

lemma Becomes.trans {disk'' : Disk} {chains'' : List (List ℕ)}
    (h : Becomes v pool disk chains disk' chains')
    (h' : Becomes v pool disk' chains' disk'' chains'') :
    Becomes v pool disk chains disk'' chains'' := by
  have hsub : ∀ c ∈ pool ++ chains'.flatten, c ∈ pool ++ chains.flatten := fun c hc =>
    (List.mem_append.mp hc).elim (fun hc => List.mem_append_left _ hc) (h.cells c)
  exact ⟨h'.holds, fun c hc => hsub c (h'.cells c hc), fun a ha =>
    (h'.frame a fun hin => ha (hin.mono hsub)).trans (h.frame a ha)⟩

namespace HoldsChains

/-- The chain that starts with a cluster, among the others. -/
lemma exists_split (hfirst : ∃ l ∈ chains, l.head? = some first) :
    ∃ before chain after, chains = before ++ chain :: after ∧ chain.head? = some first := by
  obtain ⟨l, hl, hhead⟩ := hfirst
  obtain ⟨before, after, rfl⟩ := List.append_of_mem hl
  exact ⟨before, l, after, rfl, hhead⟩

lemma reachable (h : HoldsChains v pool disk chains) (hv : HeaderRanges v) {l : List ℕ}
    (hl : l ∈ chains) : ∀ c ∈ l, fat16.Reachable v c := fun c hc =>
  fat16_reachable hv ((h.table.clusters l hl c hc).2.trans (by decide))

lemma add (h : HoldsChains v pool disk chains) (hv : HeaderRanges v) (hsearch : SearchInTable v)
    (hfirst : ∃ l ∈ chains, l.head? = some first) (priv : FatPrivate) :
    ∃ disk', fat16Driver.addClusterToChain v priv disk first =
        some (if free pool chains = [] then -enodiskspace else 0, priv, disk') ∧
      Becomes v pool disk chains disk' (grow pool first chains) := by
  obtain ⟨before, chain, after, rfl, hhead⟩ := exists_split hfirst
  have hchain : chain ∈ before ++ chain :: after := by simp
  have hne := h.table.ne_nil chain hchain
  have hlinked := h.table.linked chain hchain
  have hmax : ∀ c ∈ chain, c < fat16.endOfChain := fun c hc =>
    (h.table.clusters chain hchain c hc).2.trans (by decide)
  have hzero : chain.getD 0 0 = first := by
    obtain ⟨tail, rfl⟩ := List.head?_eq_some_iff.mp hhead
    rfl
  have hsome := h.freeCluster_eq hv hsearch
  cases hfree : free pool (before ++ chain :: after) with
  | nil =>
    rw [hfree] at hsome
    have hgrow : grow pool first (before ++ chain :: after) = before ++ chain :: after := by
      rw [grow, hfree]
      rfl
    rw [← hzero, fat16AddClusterToChain_full hlinked hne (h.reachable hv hchain) hmax h.faultFree
      hsome, hzero, hgrow]
    exact ⟨disk, rfl, h.becomes⟩
  | cons c rest =>
    rw [hfree] at hsome
    obtain ⟨-, h3, hlt⟩ := h.of_free hsearch hfree
    have hgrow : grow pool first (before ++ chain :: after) =
        before ++ (chain ++ [c]) :: after := by
      rw [grow, hfree]
      exact h.table.ok.link_eq hhead c
    have hpool : c ∈ pool := (mem_free.mp (hfree ▸ List.mem_cons_self)).1
    have hlast : lastCluster chain ∈ (before ++ chain :: after).flatten :=
      mem_flatten_mid.mpr (Or.inl (lastCluster_mem hne))
    rw [← hzero, fat16AddClusterToChain_free priv hlinked hne (h.reachable hv hchain) hmax
      h.faultFree hsome h3 (fat16_reachable hv (hlt.trans (by decide))) (hlt.trans (by decide)),
      hzero, hgrow]
    refine ⟨_, rfl, h.append hsearch hfree, fun x hx => ?_, fun a ha => ?_⟩
    · rw [mem_flatten_mid, List.mem_append, List.mem_singleton] at hx
      rw [List.mem_append, mem_flatten_mid]
      rcases hx with (hx | rfl) | hx
      · exact Or.inr (Or.inl hx)
      · exact Or.inl hpool
      · exact Or.inr (Or.inr hx)
    · rw [setEntry_of_not_inEntries (List.mem_append_left _ hpool) ha,
        setEntry_of_not_inEntries (List.mem_append_right _ hlast) ha]

/-- The loop of `fat16_generate_cluster_chain`. -/
lemma addClusters (hv : HeaderRanges v) (hsearch : SearchInTable v) (priv : FatPrivate)
    (count : ℕ) : ∀ {disk : Disk} {chains : List (List ℕ)}, HoldsChains v pool disk chains →
    (∃ l ∈ chains, l.head? = some first) →
    ∃ disk', fat16Driver.addClusters v first count priv disk = some (priv, disk') ∧
      Becomes v pool disk chains disk' ((grow pool first)^[count] chains) := by
  induction count with
  | zero => exact fun {disk _} h _ => ⟨disk, rfl, h.becomes⟩
  | succ count ih =>
    intro disk chains h hfirst
    obtain ⟨disk₁, hadd, hbecomes⟩ := h.add hv hsearch hfirst priv
    obtain ⟨disk', hrun, hbecomes'⟩ := ih hbecomes.holds (exists_head_grow hfirst)
    refine ⟨disk', ?_, hbecomes.trans hbecomes'⟩
    rw [FatDriver.addClusters, hadd]
    exact hrun

lemma generate (h : HoldsChains v pool disk chains) (hv : HeaderRanges v)
    (hsearch : SearchInTable v) (priv : FatPrivate) (count : ℤ) :
    ∃ r disk', fat16GenerateClusterChain v priv disk count = some (r, priv, disk') ∧
      ((r : ℤ), ([] : List ℕ)) = (ChainCall.generate count).result pool chains ∧
      Becomes v pool disk chains disk' ((ChainCall.generate count).chainsAfter pool chains) := by
  rw [fat16GenerateClusterChain, FatDriver.generateClusterChain, ChainCall.result,
    ChainCall.chainsAfter]
  by_cases hcount : count ≤ 0
  · rw [if_pos hcount, if_pos hcount, if_pos hcount]
    exact ⟨_, disk, rfl, rfl, h.becomes⟩
  rw [if_neg hcount, if_neg hcount, if_neg hcount]
  have hsome := h.freeCluster_eq hv hsearch
  have hsearched : fat16Driver.getFirstFreeCluster v priv disk =
      ((free pool chains).head?.getD 0 % 2 ^ 16, priv, disk) := by
    rw [← hsome]
    rfl
  cases hfree : free pool chains with
  | nil =>
    rw [hfree] at hsearched
    have hmake : make pool count.toNat chains = chains := by rw [make, hfree]
    rw [hsearched, hmake]
    exact ⟨0, disk, rfl, rfl, h.becomes⟩
  | cons c rest =>
    obtain ⟨-, h3, hlt⟩ := h.of_free hsearch hfree
    have hpool : c ∈ pool := (mem_free.mp (hfree ▸ List.mem_cons_self)).1
    rw [hfree, List.head?_cons, Option.getD_some,
      Nat.mod_eq_of_lt (hlt.trans (by decide))] at hsearched
    have hwritten : fat16Driver.kind.writeFatEntry v disk c 0xFFFF =
        ((fat16Driver.kind.entrySize : ℤ), fat16.setEntry v disk c 0xFFFF) :=
      writeFatEntry_eq (fat16_reachable hv (hlt.trans (by decide))) h.faultFree 0xFFFF
    have hfirst : ∃ l ∈ chains ++ [[c]], l.head? = some c := ⟨[c], by simp, rfl⟩
    obtain ⟨disk', hrun, hbecomes⟩ :=
      addClusters hv hsearch priv (count - 1).toNat (h.concat hsearch hfree) hfirst
    have hsucc : (count - 1).toNat + 1 = count.toNat := by omega
    rw [h.table.ok.make_eq h.nodup_pool hfree, hsucc] at hbecomes
    have hstart : Becomes v pool disk chains (fat16.setEntry v disk c 0xFFFF)
        (chains ++ [[c]]) := by
      refine ⟨h.concat hsearch hfree, fun x hx => ?_, fun a ha =>
        setEntry_of_not_inEntries (List.mem_append_left _ hpool) ha⟩
      rw [List.flatten_append, List.flatten_singleton, List.mem_append, List.mem_singleton] at hx
      rw [List.mem_append]
      exact hx.elim Or.inr fun hx => Or.inl (hx ▸ hpool)
    refine ⟨c, disk', ?_, rfl, hstart.trans hbecomes⟩
    rw [hsearched]
    dsimp only
    rw [if_neg (by omega), hwritten]
    dsimp only
    rw [if_neg (fun hne => hne rfl), hrun]
    rfl

lemma eraseChain (h : HoldsChains v pool disk chains) (hv : HeaderRanges v)
    (hfirst : ∃ l ∈ chains, l.head? = some first) :
    ∃ res disk', fat16EraseClusterChain v disk first = some (res, disk') ∧
      (res, ([] : List ℕ)) = (ChainCall.erase first).result pool chains ∧
      Becomes v pool disk chains disk' ((ChainCall.erase first).chainsAfter pool chains) := by
  rw [ChainCall.result, ChainCall.chainsAfter]
  by_cases hle : first ≤ 2
  · rw [fat16EraseClusterChain, if_pos hle, if_pos hle, if_pos hle]
    exact ⟨_, disk, rfl, rfl, h.becomes⟩
  obtain ⟨before, chain, after, rfl, hhead⟩ := exists_split hfirst
  have hchain : chain ∈ before ++ chain :: after := by simp
  have hstarts : fat16.StartsChain v disk first chain :=
    ⟨hhead, h.table.linked chain hchain, fun c hc =>
      (h.table.clusters chain hchain c hc).2.trans (by decide)⟩
  have hmarker : 0xFFFF ∉ chain.tail := fun hmem =>
    absurd (h.table.clusters chain hchain _ (List.mem_of_mem_tail hmem)).2 (by decide)
  have hloop := StartsChain.eraseFrom_eq hstarts h.faultFree (h.reachable hv hchain) hmarker
  rw [if_pos (h.ended chain hchain)] at hloop
  rw [fat16EraseClusterChain_eq (by omega), hloop, if_neg hle, if_neg hle,
    h.table.ok.erase_eq hhead]
  refine ⟨0, _, rfl, rfl, h.cleared, fun c hc => ?_, fun a ha => ?_⟩
  · exact List.mem_append_right _ (mem_flatten_mid.mpr (Or.inr hc))
  · refine clearEntries_of_not_inEntries fun hin => ha (hin.mono fun c hc => ?_)
    exact List.mem_append_right _ (mem_flatten_mid.mpr (Or.inl hc))

/-- The loops that follow a chain come to its end. -/
lemma countClustersLoop_eq (hf : disk.FaultFree) {e : ℕ} (hend : 0xFFF8 ≤ e) :
    ∀ {rest : List ℕ} {c : ℕ} (i : ℕ), (∀ x ∈ c :: rest, fat16.Reachable v x) →
      (∀ x ∈ rest, x < 0xFFF8) → fat16.LeadsTo v disk (c :: rest) e →
      countClustersLoop v disk c i = some (i + rest.length) := by
  intro rest
  induction rest with
  | nil =>
    intro c i hreach _ hleads
    have hcode : fat16.entryCode v disk c = e :=
      (entryCode_eq hf (hreach c List.mem_cons_self)).trans hleads.1
    refine Loop.run_leave (congrArg some ?_)
    dsimp only
    rw [hcode, if_neg (by omega)]
    rfl
  | cons d rest ih =>
    intro c i hreach hlt hleads
    have hcode : fat16.entryCode v disk c = d :=
      (entryCode_eq hf (hreach c List.mem_cons_self)).trans hleads.1
    have hnext := ih (i + 1) (fun x hx => hreach x (List.mem_cons_of_mem _ hx))
      (fun x hx => hlt x (List.mem_cons_of_mem _ hx)) hleads.2
    rw [List.length_cons, Nat.add_comm rest.length, ← Nat.add_assoc, ← hnext]
    refine Loop.run_next (congrArg some ?_)
    dsimp only
    rw [hcode, if_pos (hlt d List.mem_cons_self)]

lemma getClusterChainLoop_eq (hf : disk.FaultFree) {e : ℕ} (hend : 0xFFF8 ≤ e) :
    ∀ {rest : List ℕ} {c : ℕ} (out : List ℕ), (∀ x ∈ c :: rest, fat16.Reachable v x) →
      (∀ x ∈ rest, x < 0xFFF8) → fat16.LeadsTo v disk (c :: rest) e →
      getClusterChainLoop v disk c out = some (out ++ c :: rest) := by
  intro rest
  induction rest with
  | nil =>
    intro c out hreach _ hleads
    have hcode : fat16.entryCode v disk c = e :=
      (entryCode_eq hf (hreach c List.mem_cons_self)).trans hleads.1
    refine Loop.run_leave (congrArg some ?_)
    dsimp only
    rw [hcode, if_neg (by omega)]
  | cons d rest ih =>
    intro c out hreach hlt hleads
    have hcode : fat16.entryCode v disk c = d :=
      (entryCode_eq hf (hreach c List.mem_cons_self)).trans hleads.1
    have hnext := ih (out ++ [c]) (fun x hx => hreach x (List.mem_cons_of_mem _ hx))
      (fun x hx => hlt x (List.mem_cons_of_mem _ hx)) hleads.2
    rw [List.append_cons, ← hnext]
    refine Loop.run_next (congrArg some ?_)
    dsimp only
    rw [hcode, if_pos (hlt d List.mem_cons_self)]

lemma chainFrom_eq (h : HoldsChains v pool disk (before ++ chain :: after))
    (hhead : chain.head? = some first) :
    ChainCall.chainFrom (before ++ chain :: after) first = chain := by
  have hnone : before.find? (fun l => l.head? = some first) = none := by
    refine List.find?_eq_none.mpr fun l hl => ?_
    rw [decide_eq_true_eq]
    exact h.table.ok.head_ne hhead (List.mem_append_left _ hl)
  rw [ChainCall.chainFrom, List.find?_append, hnone, Option.none_or, List.find?_cons, hhead]
  simp

/-- What the loops need to know of the chain that starts with a cluster. -/
lemma follow (h : HoldsChains v pool disk chains) (hv : HeaderRanges v)
    (hfirst : ∃ l ∈ chains, l.head? = some first) :
    ∃ rest, ChainCall.chainFrom chains first = first :: rest ∧
      (∀ x ∈ first :: rest, fat16.Reachable v x) ∧ (∀ x ∈ rest, x < 0xFFF8) ∧
      fat16.LeadsTo v disk (first :: rest) 0xFFFF := by
  obtain ⟨before, chain, after, rfl, hhead⟩ := exists_split hfirst
  obtain ⟨rest, rfl⟩ := List.head?_eq_some_iff.mp hhead
  have hchain : first :: rest ∈ before ++ (first :: rest) :: after := by simp
  refine ⟨rest, h.chainFrom_eq hhead, h.reachable hv hchain, fun x hx => ?_, ?_⟩
  · exact (h.table.clusters _ hchain x (List.mem_cons_of_mem _ hx)).2.trans (by decide)
  · have hleads := (h.table.linked _ hchain).leadsTo
    rwa [h.ended _ hchain] at hleads

end HoldsChains

/-! ## Runs -/

/-- The volume holds what the store does, and the calls have returned what they are to return. -/
structure StoreRefines (v : FatVolume) (pool cells : List ℕ) (priv : FatPrivate) (start : Disk)
    (s : ChainState) (t : ChainStore) : Prop where
  holds : HoldsChains v pool s.disk t.chains
  results_eq : s.results = t.results
  priv_eq : s.priv = priv
  inside : ∀ c ∈ t.chains.flatten, c ∈ cells
  frame : ∀ a, ¬ fat16.InEntries v cells a → s.disk.byte a = start.byte a

lemma StoreRefines.step {cells : List ℕ} {start : Disk} {s : ChainState} {t : ChainStore}
    (h : StoreRefines v pool cells priv start s t) (hv : HeaderRanges v) (hsearch : SearchInTable v)
    (hpool : ∀ c ∈ pool, c ∈ cells) (call : ChainCall) (hlegal : call.Legal t.chains) :
    ∃ s', chainCallStep v s call = some s' ∧
      StoreRefines v pool cells priv start s' (t.step pool call) := by
  obtain ⟨hholds, hresults, rfl, hcells, hframe⟩ := h
  -- a call that changes the chains as the store does
  have hkeep : ∀ {disk' : Disk} {r : ℤ × List ℕ}, r = call.result pool t.chains →
      Becomes v pool s.disk t.chains disk' (call.chainsAfter pool t.chains) →
      StoreRefines v pool cells s.priv start ⟨s.priv, disk', s.results ++ [r]⟩
        (t.step pool call) := by
    intro disk' r hr hbecomes
    have hsub : ∀ c ∈ pool ++ t.chains.flatten, c ∈ cells := fun c hc =>
      (List.mem_append.mp hc).elim (hpool c) (hcells c)
    refine ⟨hbecomes.holds, ?_, rfl, fun c hc => hsub c (hbecomes.cells c hc), fun a ha => ?_⟩
    · rw [ChainStore.step, hresults, hr]
    · exact (hbecomes.frame a fun hin => ha (hin.mono hsub)).trans (hframe a ha)
  cases call with
  | generate count =>
    obtain ⟨r, disk', hrun, hr, hbecomes⟩ := hholds.generate hv hsearch s.priv count
    exact ⟨_, by rw [chainCallStep, hrun]; rfl, hkeep hr hbecomes⟩
  | add first =>
    obtain ⟨disk', hrun, hbecomes⟩ := hholds.add hv hsearch hlegal s.priv
    exact ⟨_, by rw [chainCallStep, hrun]; rfl, hkeep rfl hbecomes⟩
  | erase first =>
    obtain ⟨res, disk', hrun, hr, hbecomes⟩ := hholds.eraseChain hv hlegal
    exact ⟨_, by rw [chainCallStep, hrun]; rfl, hkeep hr hbecomes⟩
  | countClusters first =>
    obtain ⟨rest, hchain, hreach, hlt, hleads⟩ := hholds.follow hv hlegal
    have hrun : fat16CountClustersInChain v s.disk first = some (1 + rest.length) :=
      HoldsChains.countClustersLoop_eq hholds.faultFree (by decide) 1 hreach hlt hleads
    refine ⟨_, by rw [chainCallStep, hrun]; rfl, hkeep ?_ hholds.becomes⟩
    rw [ChainCall.result, hchain, List.length_cons, Nat.add_comm]
  | getChain first =>
    obtain ⟨rest, hchain, hreach, hlt, hleads⟩ := hholds.follow hv hlegal
    have hrun : fat16GetClusterChain v s.disk first = some (first :: rest) :=
      HoldsChains.getClusterChainLoop_eq hholds.faultFree (by decide) [] hreach hlt hleads
    refine ⟨_, by rw [chainCallStep, hrun]; rfl, hkeep ?_ hholds.becomes⟩
    rw [ChainCall.result, hchain]

/-- On a volume without faults whose table holds the chains, the driver keeps a store of chains:
each call of a run returns what the store is to return, the table holds the chains of the store
after it, no cluster is handed out twice or lost, and of the disk only table entries of the
clusters that may be handed out or were in a chain change. -/
theorem fat16_table_run (hv : HeaderRanges v) (hsearch : SearchInTable v)
    (h : HoldsChains v pool disk chains) (priv : FatPrivate) {calls : List ChainCall}
    (hlegal : Guarded (fun t call => some (ChainStore.step pool t call))
      (fun t call => call.Legal t.chains) ⟨chains, []⟩ calls) :
    ∃ disk' t, calls.foldl (ChainStore.step pool) ⟨chains, []⟩ = t ∧
      calls.foldlM (chainCallStep v) ⟨priv, disk, []⟩ = some ⟨priv, disk', t.results⟩ ∧
      HoldsChains v pool disk' t.chains ∧
      (free pool t.chains).length + (t.chains.flatten.filter (· ∈ pool)).length = pool.length ∧
      ∀ a, ¬ fat16.InEntries v (pool ++ chains.flatten) a → disk'.byte a = disk.byte a := by
  have hstart : StoreRefines v pool (pool ++ chains.flatten) priv disk ⟨priv, disk, []⟩
      ⟨chains, []⟩ := ⟨h, rfl, rfl, fun c hc => List.mem_append_right _ hc, fun _ _ => rfl⟩
  obtain ⟨⟨_, disk', _⟩, hrun, hholds, rfl, rfl, -, hframe⟩ := foldlM_simulates
    (fun s t call hR hl => hR.step hv hsearch (fun c hc => List.mem_append_left _ hc) call hl)
    hstart hlegal
  exact ⟨disk', _, rfl, hrun, hholds, hholds.table.ok.accounts h.nodup_pool, hframe⟩

/-- The table of a volume that has just been formatted. -/
lemma holdsChains_blank : HoldsChains smallVolume (List.range' 3 62) (diskWith fun _ => 0) [] := by
  have hentry : ∀ c, fat16.fatEntry smallVolume (diskWith fun _ => 0) c = 0 := fun _ => rfl
  refine ⟨diskWith_faultFree _, ⟨by simp, by simp, by simp, List.Pairwise.nil,
    fun c _ _ _ hused => absurd (hentry c) hused⟩, by simp, ?_⟩
  refine List.filter_eq_self.mpr fun c _ => ?_
  rw [hentry]
  rfl

/-- Two files take turns, and the clusters of the first one are used again. -/
theorem fat16_table_run_files : ∃ disk', [.generate 2, .generate 1, .add 3, .erase 3, .generate 3,
      .getChain 3].foldlM (chainCallStep smallVolume) ⟨unknownFsinfo, diskWith fun _ => 0, []⟩ =
        some ⟨unknownFsinfo, disk',
          [(3, []), (5, []), (0, []), (0, []), (3, []), (3, [3, 4, 6])]⟩ ∧
      HoldsChains smallVolume (List.range' 3 62) disk' [[5], [3, 4, 6]] := by
  have hlegal : Guarded (fun t call => some (ChainStore.step (List.range' 3 62) t call))
      (fun t call => call.Legal t.chains) ⟨[], []⟩
      [.generate 2, .generate 1, .add 3, .erase 3, .generate 3, .getChain 3] := by
    simp only [guarded_some_cons, guarded_nil, ChainCall.Legal]
    decide
  obtain ⟨disk', t, rfl, hrun, hholds, -⟩ := fat16_table_run headerRanges_small
    ⟨by decide, by decide⟩ holdsChains_blank unknownFsinfo hlegal
  exact ⟨disk', hrun, hholds⟩

end SerpaeOS
