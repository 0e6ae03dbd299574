import Mathlib.Data.List.Nodup
import Mathlib.Data.List.Perm.Basic
import Mathlib.Logic.Function.Iterate

/-!
# Chains of cells

A store hands out the cells of a pool one after the other and strings them together to chains.
The first cell of a chain is the name of the chain.  A new chain takes the first free cells, a
chain grows by the first free cell, and the cells of a chain that is erased are free again.  The
cells that are free are those of the pool that no chain has, so none is lost and none is handed
out twice.
-/

namespace Chains

variable {α : Type*}

/-- No chain is empty, and no cell comes twice. -/
structure Ok (chains : List (List α)) : Prop where
  ne_nil : [] ∉ chains
  nodup : chains.flatten.Nodup

variable {pool rest chain : List α} {chains chains' before after : List (List α)} {first c : α}

lemma mem_flatten_mid {x : α} : x ∈ (before ++ chain :: after).flatten ↔
    x ∈ chain ∨ x ∈ (before ++ after).flatten := by
  simp only [List.flatten_append, List.flatten_cons, List.mem_append]
  tauto

lemma perm_flatten_mid :
    (before ++ chain :: after).flatten.Perm (chain ++ (before ++ after).flatten) := by
  have hfront : (before ++ chain :: after).Perm (chain :: (before ++ after)) := List.perm_middle
  exact hfront.flatten

/-- A chain with one cell more. -/
lemma Ok.append (h : Ok (before ++ chain :: after))
    (hc : c ∉ (before ++ chain :: after).flatten) : Ok (before ++ (chain ++ [c]) :: after) := by
  have hne := h.ne_nil
  have hnodup := perm_flatten_mid.nodup_iff.mp h.nodup
  rw [mem_flatten_mid, ← List.mem_append] at hc
  refine ⟨?_, perm_flatten_mid.nodup_iff.mpr ?_⟩
  · simp only [List.mem_append, List.mem_cons, not_or] at hne ⊢
    exact ⟨hne.1, by simp, hne.2.2⟩
  · rw [List.append_assoc]
    exact List.perm_middle.nodup_iff.mpr (List.nodup_cons.mpr ⟨hc, hnodup⟩)

/-- A chain of its own. -/
lemma Ok.concat (h : Ok chains) (hc : c ∉ chains.flatten) : Ok (chains ++ [[c]]) := by
  refine ⟨?_, ?_⟩
  · simp only [List.mem_append, List.mem_singleton, not_or]
    exact ⟨h.ne_nil, by simp⟩
  · rw [List.flatten_append, List.flatten_singleton]
    exact List.nodup_append.mpr ⟨h.nodup, List.nodup_singleton c, fun a ha b hb hab =>
      hc (by rw [← List.mem_singleton.mp hb, ← hab]; exact ha)⟩

/-- The other chains do not start with `first`. -/
lemma Ok.head_ne (h : Ok (before ++ chain :: after)) (hfirst : chain.head? = some first)
    {l : List α} (hl : l ∈ before ++ after) : l.head? ≠ some first := by
  intro hhead
  have hnodup := perm_flatten_mid.nodup_iff.mp h.nodup
  have hmem : first ∈ (before ++ after).flatten :=
    List.mem_flatten.mpr ⟨l, hl, List.mem_of_mem_head? hhead⟩
  exact (List.nodup_append.mp hnodup).2.2 first (List.mem_of_mem_head? hfirst) first hmem rfl

/-! ## The operations -/

variable [DecidableEq α]

/-- The cells of the pool that no chain has, in the order in which they are handed out. -/
def free (pool : List α) (chains : List (List α)) : List α :=
  pool.filter fun c => decide (c ∉ chains.flatten)

/-- The chains with `c` behind the one that starts with `first`. -/
def link (first c : α) (chains : List (List α)) : List (List α) :=
  chains.map fun l => if l.head? = some first then l ++ [c] else l

/-- The chain that starts with `first` gets the first free cell, if there is one. -/
def grow (pool : List α) (first : α) (chains : List (List α)) : List (List α) :=
  match (free pool chains).head? with
  | none => chains
  | some c => link first c chains

/-- A new chain of `count` cells, or of as many as are free. -/
def make (pool : List α) (count : ℕ) (chains : List (List α)) : List (List α) :=
  match free pool chains with
  | [] => chains
  | c :: rest => chains ++ [(c :: rest).take count]

/-- The chains without the one that starts with `first`. -/
def erase (first : α) (chains : List (List α)) : List (List α) :=
  chains.filter fun l => decide (l.head? ≠ some first)

lemma mem_free : c ∈ free pool chains ↔ c ∈ pool ∧ c ∉ chains.flatten := by
  rw [free, List.mem_filter, decide_eq_true_eq]

lemma nodup_free (hpool : pool.Nodup) : (free pool chains).Nodup := hpool.filter _

/-- Chains that have one cell more leave the other cells free. -/
lemma free_cons (hpool : pool.Nodup) (hfree : free pool chains = c :: rest)
    (hcells : ∀ x, x ∈ chains'.flatten ↔ x = c ∨ x ∈ chains.flatten) :
    free pool chains' = rest := by
  have hnodup : (c :: rest).Nodup := hfree ▸ nodup_free hpool
  calc free pool chains'
      = pool.filter fun x => decide (x ≠ c) && decide (x ∉ chains.flatten) := by
        refine List.filter_congr fun x _ => ?_
        rw [← Bool.decide_and, decide_eq_decide, hcells, not_or]
    _ = (free pool chains).filter fun x => decide (x ≠ c) := by
        rw [free, List.filter_filter]
    _ = rest := by
        rw [hfree, List.filter_cons_of_neg (by simp)]
        refine List.filter_eq_self.mpr fun x hx => ?_
        rw [decide_eq_true_eq]
        rintro rfl
        exact (List.nodup_cons.mp hnodup).1 hx

lemma Ok.link_eq (h : Ok (before ++ chain :: after)) (hfirst : chain.head? = some first) (c : α) :
    link first c (before ++ chain :: after) = before ++ (chain ++ [c]) :: after := by
  have hsame : ∀ ls : List (List α), (∀ l ∈ ls, l ∈ before ++ after) →
      ls.map (fun l => if l.head? = some first then l ++ [c] else l) = ls := by
    intro ls hls
    refine (List.map_congr_left fun l hl => ?_).trans (List.map_id ls)
    exact if_neg (h.head_ne hfirst (hls l hl))
  rw [link, List.map_append, List.map_cons, if_pos hfirst,
    hsame before fun l hl => List.mem_append_left _ hl,
    hsame after fun l hl => List.mem_append_right _ hl]

lemma Ok.erase_eq (h : Ok (before ++ chain :: after)) (hfirst : chain.head? = some first) :
    erase first (before ++ chain :: after) = before ++ after := by
  have hsame : ∀ ls : List (List α), (∀ l ∈ ls, l ∈ before ++ after) →
      ls.filter (fun l => decide (l.head? ≠ some first)) = ls := by
    intro ls hls
    refine List.filter_eq_self.mpr fun l hl => ?_
    rw [decide_eq_true_eq]
    exact h.head_ne hfirst (hls l hl)
  rw [erase, List.filter_append, List.filter_cons_of_neg (by simp [hfirst]),
    hsame before fun l hl => List.mem_append_left _ hl,
    hsame after fun l hl => List.mem_append_right _ hl]

/-- The name of a chain that grows stays. -/
lemma exists_head_grow (hfirst : ∃ l ∈ chains, l.head? = some first) :
    ∃ l ∈ grow pool first chains, l.head? = some first := by
  obtain ⟨l, hl, hhead⟩ := hfirst
  rw [grow]
  rcases (free pool chains).head? with _ | c
  · exact ⟨l, hl, hhead⟩
  · refine ⟨l ++ [c], List.mem_map.mpr ⟨l, hl, if_pos hhead⟩, ?_⟩
    rw [List.head?_append, hhead]
    rfl

/-- The chain grows by as many cells as are asked for and free. -/
lemma Ok.grow_iterate (hpool : pool.Nodup) (count : ℕ) : ∀ {chain : List α},
    Ok (before ++ chain :: after) → chain.head? = some first →
    (grow pool first)^[count] (before ++ chain :: after) =
      before ++ (chain ++ (free pool (before ++ chain :: after)).take count) :: after := by
  induction count with
  | zero =>
    intro chain _ _
    rw [Function.iterate_zero, id, List.take_zero, List.append_nil]
  | succ count ih =>
    intro chain h hfirst
    rw [Function.iterate_succ_apply]
    cases hfree : free pool (before ++ chain :: after) with
    | nil =>
      have hgrow : grow pool first (before ++ chain :: after) = before ++ chain :: after := by
        rw [grow, hfree]
        rfl
      rw [hgrow, ih h hfirst, hfree, List.take_nil, List.take_nil]
    | cons c rest =>
      have hc := (mem_free.mp (hfree ▸ List.mem_cons_self)).2
      have hgrow : grow pool first (before ++ chain :: after) =
          before ++ (chain ++ [c]) :: after := by
        rw [grow, hfree]
        exact h.link_eq hfirst c
      have hrest : free pool (before ++ (chain ++ [c]) :: after) = rest := by
        refine free_cons hpool hfree fun x => ?_
        rw [mem_flatten_mid, mem_flatten_mid, List.mem_append, List.mem_singleton]
        tauto
      have hfirst' : (chain ++ [c]).head? = some first := by
        rw [List.head?_append, hfirst]
        rfl
      rw [hgrow, ih (h.append hc) hfirst', hrest, List.take_succ_cons, List.append_assoc]
      rfl

/-- A new chain is one of a single cell that has grown. -/
lemma Ok.make_eq (hpool : pool.Nodup) (h : Ok chains) (hfree : free pool chains = c :: rest)
    (count : ℕ) : (grow pool c)^[count] (chains ++ [[c]]) = make pool (count + 1) chains := by
  have hc := (mem_free.mp (hfree ▸ List.mem_cons_self)).2
  have hrest : free pool (chains ++ [[c]]) = rest := by
    refine free_cons hpool hfree fun x => ?_
    rw [List.flatten_append, List.flatten_singleton, List.mem_append, List.mem_singleton]
    exact Or.comm
  rw [Ok.grow_iterate hpool count (h.concat hc) rfl, hrest, make, hfree]
  rfl

/-! ## The accounts -/

/-- Each cell of the pool is free or in a chain. -/
lemma Ok.accounts (hpool : pool.Nodup) (h : Ok chains) :
    (free pool chains).length + (chains.flatten.filter (· ∈ pool)).length = pool.length := by
  have hused : (pool.filter fun c => decide (c ∈ chains.flatten)).Perm
      (chains.flatten.filter (· ∈ pool)) := by
    refine (List.perm_ext_iff_of_nodup (hpool.filter _) (h.nodup.filter _)).mpr fun c => ?_
    simp only [List.mem_filter, decide_eq_true_eq]
    exact And.comm
  rw [← hused.length_eq, free, List.length_eq_length_filter_add
    (l := pool) fun c => decide (c ∉ chains.flatten)]
  congr 2
  refine List.filter_congr fun c _ => ?_
  by_cases hc : c ∈ chains.flatten
  · simp [hc]
  · simp [hc]

end Chains
