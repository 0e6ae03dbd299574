import Mathlib.Algebra.Ring.Nat
import Mathlib.Data.List.Pairwise
import Mathlib.Data.Nat.Find
import Mathlib.Order.Interval.Finset.Nat
import Mathlib.Tactic.Common

/-!
# Extents of a block table

A table of blocks `0, …, total - 1` is shared out in extents, runs of consecutive
blocks.  This file has the vocabulary of such allocators: runs of blocks with a
property and the first of them, families of disjoint extents inside a table, and a
table that records a family of extents block by block.
-/

namespace BlockTable

/-- A run of `len` consecutive blocks from `start` on. -/
structure Extent where
  start : ℕ
  len : ℕ
deriving DecidableEq, Repr

namespace Extent

/-- The block `i` belongs to the extent. -/
def Covers (a : Extent) (i : ℕ) : Prop := a.start ≤ i ∧ i < a.start + a.len

instance (a : Extent) (i : ℕ) : Decidable (a.Covers i) :=
  inferInstanceAs (Decidable (_ ∧ _))

/-- The two extents share no block. -/
def Apart (a b : Extent) : Prop := ∀ i, ¬ (a.Covers i ∧ b.Covers i)

lemma Apart.symm {a b : Extent} (h : a.Apart b) : b.Apart a :=
  fun i hi => h i ⟨hi.2, hi.1⟩

/-- Every block of the extent has the property. -/
def All (p : ℕ → Prop) (a : Extent) : Prop := ∀ i, a.Covers i → p i

/-- The extent is the first run of its length with the property in a table of `total`
blocks. -/
structure FirstFit (p : ℕ → Prop) (total : ℕ) (a : Extent) : Prop where
  inside : a.start + a.len ≤ total
  all : a.All p
  first : ∀ s < a.start, ¬ (⟨s, a.len⟩ : Extent).All p

/-- There is a run of `n` blocks with the property in a table of `total` blocks. -/
def HasRun (p : ℕ → Prop) (total n : ℕ) : Prop :=
  ∃ s, s + n ≤ total ∧ (⟨s, n⟩ : Extent).All p

/-- Where there is a run, there is a first one. -/
lemma HasRun.exists_firstFit {p : ℕ → Prop} {total n : ℕ} (h : HasRun p total n) :
    ∃ s, FirstFit p total ⟨s, n⟩ := by
  classical
  have hex : ∃ s, s + n ≤ total ∧ (⟨s, n⟩ : Extent).All p := h
  obtain ⟨hinside, hall⟩ := Nat.find_spec hex
  refine ⟨Nat.find hex, hinside, hall, fun s hs hrun => Nat.find_min hex hs ⟨?_, hrun⟩⟩
  simp only at hs
  omega

/-- Two first runs of the same length are the same. -/
lemma FirstFit.unique {p : ℕ → Prop} {total s t n : ℕ} (hs : FirstFit p total ⟨s, n⟩)
    (ht : FirstFit p total ⟨t, n⟩) : s = t := by
  rcases Nat.lt_trichotomy s t with h | h | h
  · exact absurd hs.all (ht.first s h)
  · exact h
  · exact absurd ht.all (hs.first t h)

/-! ## Families of extents -/

/-- The extents lie inside the table and are pairwise disjoint. -/
structure Packed (total : ℕ) (L : List Extent) : Prop where
  inside : ∀ a ∈ L, a.start + a.len ≤ total
  apart : L.Pairwise Apart

/-- Some extent of the family has the block. -/
def Covered (L : List Extent) (i : ℕ) : Prop := ∃ a ∈ L, a.Covers i

lemma packed_nil (total : ℕ) : Packed total [] := ⟨by simp, List.Pairwise.nil⟩

/-- A run of uncovered blocks may be added to a family. -/
lemma Packed.cons {total : ℕ} {L : List Extent} {a : Extent} (h : Packed total L)
    (hin : a.start + a.len ≤ total) (hfree : a.All fun i => ¬ Covered L i) :
    Packed total (a :: L) := by
  refine ⟨?_, List.Pairwise.cons ?_ h.apart⟩
  · intro b hb
    rcases List.mem_cons.mp hb with rfl | hb
    · exact hin
    · exact h.inside b hb
  · intro b hb i hi
    exact hfree i hi.1 ⟨b, hb, hi.2⟩

/-- Two members of a family at different places share no block. -/
lemma Packed.apart_of_mem_append {total : ℕ} {L₁ L₂ : List Extent} {a b : Extent}
    (h : Packed total (L₁ ++ a :: L₂)) (hb : b ∈ L₁ ++ L₂) : a.Apart b := by
  have hp := (List.pairwise_middle fun h => Apart.symm h).mp h.apart
  exact (List.pairwise_cons.mp hp).1 b hb

/-- Members with a common block are the same. -/
lemma Packed.eq_of_covers {total : ℕ} {L : List Extent} {a b : Extent} {i : ℕ}
    (h : Packed total L) (ha : a ∈ L) (hb : b ∈ L) (hai : a.Covers i) (hbi : b.Covers i) :
    a = b := by
  obtain ⟨L₁, L₂, rfl⟩ := List.append_of_mem ha
  rcases List.mem_append.mp hb with hb | hb
  · exact absurd ⟨hai, hbi⟩ (h.apart_of_mem_append (List.mem_append_left L₂ hb) i)
  · rcases List.mem_cons.mp hb with rfl | hb
    · rfl
    · exact absurd ⟨hai, hbi⟩ (h.apart_of_mem_append (List.mem_append_right L₁ hb) i)

/-- A member may be taken out of a family. -/
lemma Packed.remove {total : ℕ} {L₁ L₂ : List Extent} {a : Extent}
    (h : Packed total (L₁ ++ a :: L₂)) : Packed total (L₁ ++ L₂) := by
  have hp := (List.pairwise_middle fun h => Apart.symm h).mp h.apart
  refine ⟨fun b hb => h.inside b ?_, (List.pairwise_cons.mp hp).2⟩
  rcases List.mem_append.mp hb with hb | hb
  · simp [hb]
  · simp [hb]

/-- The order of a family does not matter. -/
lemma Packed.perm {total : ℕ} {L L' : List Extent} (h : Packed total L) (hperm : L.Perm L') :
    Packed total L' :=
  ⟨fun a ha => h.inside a (hperm.mem_iff.mpr ha),
    (hperm.pairwise_iff fun hab => hab.symm).mp h.apart⟩

lemma Covered.subset {L L' : List Extent} {i : ℕ} (h : Covered L i) (hsub : L ⊆ L') :
    Covered L' i := by
  obtain ⟨a, ha, hai⟩ := h
  exact ⟨a, hsub ha, hai⟩

lemma covered_middle {L₁ L₂ : List Extent} {a : Extent} {i : ℕ} :
    Covered (L₁ ++ a :: L₂) i ↔ a.Covers i ∨ Covered (L₁ ++ L₂) i := by
  constructor
  · rintro ⟨b, hb, hi⟩
    rcases List.mem_append.mp hb with hb | hb
    · exact Or.inr ⟨b, List.mem_append_left _ hb, hi⟩
    · rcases List.mem_cons.mp hb with rfl | hb
      · exact Or.inl hi
      · exact Or.inr ⟨b, List.mem_append_right _ hb, hi⟩
  · rintro (hi | ⟨b, hb, hi⟩)
    · exact ⟨a, by simp, hi⟩
    · rcases List.mem_append.mp hb with hb | hb
      · exact ⟨b, List.mem_append_left _ hb, hi⟩
      · exact ⟨b, List.mem_append_right _ (List.mem_cons_of_mem _ hb), hi⟩

instance (L : List Extent) (i : ℕ) : Decidable (Covered L i) :=
  inferInstanceAs (Decidable (∃ a ∈ L, a.Covers i))

/-- A family covers as many blocks as its members have together. -/
lemma Packed.card_covered {total : ℕ} {L : List Extent} (h : Packed total L) :
    ((Finset.range total).filter fun i => Covered L i).card = (L.map len).sum := by
  induction L with
  | nil =>
    rw [Finset.filter_false_of_mem fun i _ ⟨a, ha, _⟩ => absurd ha List.not_mem_nil]
    rfl
  | cons a L ih =>
    obtain ⟨hapart, hrest⟩ := List.pairwise_cons.mp h.apart
    obtain ⟨ha, hinside⟩ := List.forall_mem_cons.mp h.inside
    have hsplit : ((Finset.range total).filter fun i => Covered (a :: L) i) =
        Finset.Ico a.start (a.start + a.len) ∪
          (Finset.range total).filter fun i => Covered L i := by
      ext i
      rw [Finset.mem_filter, Finset.mem_union, Finset.mem_Ico, Finset.mem_filter, Finset.mem_range]
      constructor
      · rintro ⟨hi, b, hb, hbi⟩
        rcases List.mem_cons.mp hb with rfl | hb
        · exact Or.inl hbi
        · exact Or.inr ⟨hi, b, hb, hbi⟩
      · rintro (hi | ⟨hi, b, hb, hbi⟩)
        · exact ⟨hi.2.trans_le ha, a, List.mem_cons_self, hi⟩
        · exact ⟨hi, b, List.mem_cons_of_mem a hb, hbi⟩
    rw [hsplit, Finset.card_union_of_disjoint, ih ⟨hinside, hrest⟩, Nat.card_Ico,
      Nat.add_sub_cancel_left, List.map_cons, List.sum_cons]
    refine Finset.disjoint_left.mpr fun i hi hcov => ?_
    obtain ⟨-, b, hb, hbi⟩ := Finset.mem_filter.mp hcov
    exact hapart b hb i ⟨Finset.mem_Ico.mp hi, hbi⟩

end Extent

/-! ## Tables that record a family -/

section Encoding

variable {β : Type*} {code : ℕ → ℕ → β} {free : β} {table table' : ℕ → β} {total : ℕ}
  {L L' : List Extent}

/-- The table records the family: block `j` of an extent of length `n` holds `code n j`, a
block of no extent holds `free`. -/
structure Encodes (code : ℕ → ℕ → β) (free : β) (total : ℕ) (table : ℕ → β)
    (L : List Extent) : Prop where
  packed : Extent.Packed total L
  code_eq : ∀ a ∈ L, ∀ j < a.len, table (a.start + j) = code a.len j
  free_eq : ∀ i < total, ¬ Extent.Covered L i → table i = free

lemma Encodes.code_of_covers (h : Encodes code free total table L) {a : Extent} {i : ℕ}
    (ha : a ∈ L) (hi : a.Covers i) : table i = code a.len (i - a.start) := by
  have hlt : i - a.start < a.len := by
    have := hi.1
    have := hi.2
    omega
  have := h.code_eq a ha (i - a.start) hlt
  rwa [Nat.add_sub_cancel' hi.1] at this

/-- When codes differ from the free mark, the blocks that are not free are the covered
ones. -/
lemma Encodes.ne_free_iff (h : Encodes code free total table L)
    (hcode : ∀ n j, code n j ≠ free) {i : ℕ} (hi : i < total) :
    table i ≠ free ↔ Extent.Covered L i := by
  constructor
  · intro hne
    by_contra hcov
    exact hne (h.free_eq i hi hcov)
  · rintro ⟨a, ha, hai⟩
    rw [h.code_of_covers ha hai]
    exact hcode _ _

/-- The table is determined by the members of the family, whatever their order. -/
lemma Encodes.table_eq (h : Encodes code free total table L)
    (h' : Encodes code free total table' L') (hmem : ∀ a, a ∈ L ↔ a ∈ L') :
    ∀ i < total, table i = table' i := by
  intro i hi
  by_cases hcov : Extent.Covered L i
  · obtain ⟨a, ha, hai⟩ := hcov
    rw [h.code_of_covers ha hai, h'.code_of_covers ((hmem a).mp ha) hai]
  · have hcov' : ¬ Extent.Covered L' i := by
      rintro ⟨a, ha, hai⟩
      exact hcov ⟨a, (hmem a).mpr ha, hai⟩
    rw [h.free_eq i hi hcov, h'.free_eq i hi hcov']

/-- The order of the family does not matter. -/
lemma Encodes.perm (h : Encodes code free total table L) (hperm : L.Perm L') :
    Encodes code free total table L' :=
  ⟨h.packed.perm hperm, fun a ha => h.code_eq a (hperm.mem_iff.mpr ha),
    fun i hi hcov => h.free_eq i hi fun hc => hcov (hc.subset hperm.subset)⟩

/-- Recording one more extent over free blocks. -/
lemma Encodes.insert (h : Encodes code free total table L) {a : Extent}
    (hin : a.start + a.len ≤ total) (hfree : a.All fun i => ¬ Extent.Covered L i)
    (hcode : ∀ j < a.len, table' (a.start + j) = code a.len j)
    (hframe : ∀ i < total, ¬ a.Covers i → table' i = table i) :
    Encodes code free total table' (a :: L) := by
  refine ⟨h.packed.cons hin hfree, ?_, ?_⟩
  · intro b hb j hj
    rcases List.mem_cons.mp hb with rfl | hb
    · exact hcode j hj
    · have hb' : b.Covers (b.start + j) := ⟨by omega, by omega⟩
      have hlt : b.start + j < total := by
        have := h.packed.inside b hb
        omega
      rw [hframe _ hlt fun ha => hfree _ ha ⟨b, hb, hb'⟩]
      exact h.code_eq b hb j hj
  · intro i hi hcov
    rw [hframe i hi fun ha => hcov ⟨a, by simp, ha⟩]
    exact h.free_eq i hi fun ⟨b, hb, hbi⟩ => hcov ⟨b, by simp [hb], hbi⟩

/-- Erasing the record of one extent. -/
lemma Encodes.erase {L₁ L₂ : List Extent} {a : Extent}
    (h : Encodes code free total table (L₁ ++ a :: L₂))
    (hfree : ∀ i, a.Covers i → table' i = free)
    (hframe : ∀ i < total, ¬ a.Covers i → table' i = table i) :
    Encodes code free total table' (L₁ ++ L₂) := by
  refine ⟨h.packed.remove, ?_, ?_⟩
  · intro b hb j hj
    have hb' : b.Covers (b.start + j) := ⟨by omega, by omega⟩
    have hmem : b ∈ L₁ ++ a :: L₂ := by
      rcases List.mem_append.mp hb with hb | hb
      · simp [hb]
      · simp [hb]
    have hlt : b.start + j < total := by
      have := h.packed.inside b hmem
      omega
    rw [hframe _ hlt fun ha => h.packed.apart_of_mem_append hb _ ⟨ha, hb'⟩]
    exact h.code_eq b hmem j hj
  · intro i hi hcov
    by_cases ha : a.Covers i
    · exact hfree i ha
    · rw [hframe i hi ha]
      refine h.free_eq i hi fun hc => ?_
      rcases Extent.covered_middle.mp hc with hc | hc
      · exact ha hc
      · exact hcov hc

end Encoding

end BlockTable
