import Mathlib.Data.List.Basic
import Mathlib.Data.List.Nodup

/-!
# Linked lists in a memory of cells

A memory of cells with a forward link is a function `next`, one with a backward
link a function `prev`.  `Seg next h l e` says that following `next` from `h`
visits exactly the cells of `l` and then arrives at `e`; `BackLinked prev p l`
says that the backward link of every cell of `l` is the cell before it, the
first one pointing to `p`.
-/

namespace Links

variable {α : Type*} {next next' prev prev' : α → α} {h e p a : α} {l l' l₁ l₂ : List α}

/-- Following `next` from `h` visits exactly `l` and then arrives at `e`. -/
def Seg (next : α → α) : α → List α → α → Prop
  | h, [], e => h = e
  | h, a :: l, e => h = a ∧ Seg next (next a) l e

/-- The backward link of every cell of the list is the cell before it, that of the
first cell is `p`. -/
def BackLinked (prev : α → α) : α → List α → Prop
  | _, [] => True
  | p, a :: l => prev a = p ∧ BackLinked prev a l

@[simp] lemma seg_nil : Seg next h [] e ↔ h = e := Iff.rfl

@[simp] lemma seg_cons : Seg next h (a :: l) e ↔ h = a ∧ Seg next (next a) l e := Iff.rfl

@[simp] lemma backLinked_nil : BackLinked prev p [] := trivial

@[simp] lemma backLinked_cons :
    BackLinked prev p (a :: l) ↔ prev a = p ∧ BackLinked prev a l := Iff.rfl

lemma seg_append : Seg next h (l₁ ++ l₂) e ↔ ∃ m, Seg next h l₁ m ∧ Seg next m l₂ e := by
  induction l₁ generalizing h with
  | nil => simp
  | cons a l₁ ih =>
    simp only [List.cons_append, seg_cons, ih]
    constructor
    · rintro ⟨hh, m, h1, h2⟩
      exact ⟨m, ⟨hh, h1⟩, h2⟩
    · rintro ⟨m, ⟨hh, h1⟩, h2⟩
      exact ⟨hh, m, h1, h2⟩

lemma backLinked_append :
    BackLinked prev p (l₁ ++ l₂) ↔
      BackLinked prev p l₁ ∧ BackLinked prev (l₁.getLastD p) l₂ := by
  induction l₁ generalizing p with
  | nil => simp only [List.nil_append, backLinked_nil, List.getLastD_nil, true_and]
  | cons a l₁ ih =>
    simp only [List.cons_append, backLinked_cons, ih, and_assoc, List.getLastD_cons]

/-- A segment only depends on the links of its own cells. -/
lemma Seg.congr (hs : Seg next h l e) (heq : ∀ x ∈ l, next' x = next x) :
    Seg next' h l e := by
  induction l generalizing h with
  | nil => exact hs
  | cons a l ih =>
    obtain ⟨hh, hs⟩ := hs
    refine ⟨hh, ?_⟩
    rw [heq a (by simp)]
    exact ih hs fun x hx => heq x (by simp [hx])

/-- Backward links only depend on the cells of the list. -/
lemma BackLinked.congr (hb : BackLinked prev p l) (heq : ∀ x ∈ l, prev' x = prev x) :
    BackLinked prev' p l := by
  induction l generalizing p with
  | nil => trivial
  | cons a l ih =>
    refine ⟨?_, ih hb.2 fun x hx => heq x (by simp [hx])⟩
    rw [heq a (by simp)]
    exact hb.1

/-- The cells visited on the way to a cell outside the list are determined by the
starting point. -/
lemma Seg.unique (hs : Seg next h l e) (hs' : Seg next h l' e) (hl : e ∉ l) (hl' : e ∉ l') :
    l = l' := by
  induction l generalizing h l' with
  | nil =>
    cases l' with
    | nil => rfl
    | cons b l' =>
      have he : h = e := hs
      exact absurd (he.symm.trans hs'.1) (by rintro rfl; simp at hl')
  | cons a l ih =>
    obtain ⟨rfl, hs⟩ := hs
    cases l' with
    | nil =>
      have he : h = e := hs'
      exact absurd (by simp [he]) hl
    | cons b l' =>
      obtain ⟨rfl, hs'⟩ := hs'
      rw [ih hs hs' (by simp_all) (by simp_all)]

/-- Following links to a cell outside the list never visits a cell twice. -/
lemma Seg.nodup (hs : Seg next h l e) (hl : e ∉ l) : l.Nodup := by
  induction l generalizing h with
  | nil => simp
  | cons a l ih =>
    have hel : e ∉ l := fun hmem => hl (by simp [hmem])
    refine List.nodup_cons.mpr ⟨fun hmem => ?_, ih hs.2 hel⟩
    -- a second visit of `a` would make the rest of the walk a proper part of itself
    obtain ⟨l₁, l₂, rfl⟩ := List.append_of_mem hmem
    obtain ⟨m, -, hm, hs₂⟩ := seg_append.mp hs.2
    have heq := hs.2.unique hs₂ hel (fun hmem' => hel (by simp [hmem']))
    have hlen := congrArg List.length heq
    simp only [List.length_append, List.length_cons] at hlen
    omega

/-- The cell after the head of a list with backward links. -/
lemma BackLinked.mid {l₁ l₂ : List α} {a b : α} (hb : BackLinked prev p (l₁ ++ a :: b :: l₂)) :
    prev b = a := by
  rw [backLinked_append] at hb
  exact hb.2.2.1

/-- The backward link of a cell of the list is a cell of the list or the given first
predecessor. -/
lemma BackLinked.prev_mem (hb : BackLinked prev p l) (ha : a ∈ l) :
    prev a = p ∨ prev a ∈ l := by
  induction l generalizing p with
  | nil => simp at ha
  | cons b l ih =>
    rcases List.mem_cons.mp ha with rfl | ha
    · exact Or.inl hb.1
    · rcases ih hb.2 ha with h | h
      · exact Or.inr (by simp [h])
      · exact Or.inr (by simp [h])

end Links
