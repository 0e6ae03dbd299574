import Mathlib.Data.List.GetD
import Mathlib.Data.Nat.ModEq
import Mathlib.Logic.Function.Basic
import Mathlib.Tactic.Common

/-!
# Queues in a ring of slots

A queue is stored in the slots `0, …, size - 1` from the head on, around the end of the slots.
`Queued slot head q` says that the slots hold the members of `q` in this order and that all
others are marked empty.  There is no counter of the members: a queue is read off from its
marks, so it may fill the ring, but its members must not look like the mark.
-/

namespace Ring

variable {α : Type*} {size head : ℕ} {empty c : α} {slot : ℕ → α} {q : List α}

/-- The slots from `head` on hold the queue, and all others are empty. -/
structure Queued (size : ℕ) (empty : α) (slot : ℕ → α) (head : ℕ) (q : List α) : Prop where
  length_le : q.length ≤ size
  ne_empty : ∀ c ∈ q, c ≠ empty
  slot_eq : ∀ i < size, slot ((head + i) % size) = q.getD i empty

/-- Two slots of the ring at different distances from the head are different. -/
lemma slot_ne {i j : ℕ} (hi : i < size) (hj : j < size) (hne : i ≠ j) :
    (head + i) % size ≠ (head + j) % size := by
  intro h
  have hmod : i ≡ j [MOD size] := Nat.ModEq.add_left_cancel' head h
  exact hne (hmod.eq_of_lt_of_lt hi hj)

/-- Every slot is at some distance from the head. -/
lemma exists_slot {i : ℕ} (hi : i < size) : ∃ j < size, (head + j) % size = i := by
  refine ⟨(i + (size - head % size)) % size, Nat.mod_lt _ (by omega), ?_⟩
  have hhead : head % size < size := Nat.mod_lt _ (by omega)
  rw [Nat.add_mod_mod, ← Nat.mod_add_mod,
    show head % size + (i + (size - head % size)) = i + size by omega, Nat.add_mod_right,
    Nat.mod_eq_of_lt hi]

/-- A ring without a member. -/
lemma queued_nil (h : ∀ i < size, slot i = empty) : Queued size empty slot head [] := by
  refine ⟨Nat.zero_le size, fun c hc => absurd hc List.not_mem_nil, fun i hi => ?_⟩
  exact h _ (Nat.mod_lt _ (by omega))

/-- In a ring without a member all slots are empty. -/
lemma Queued.all_empty (h : Queued size empty slot head []) : ∀ i < size, slot i = empty := by
  intro i hi
  obtain ⟨j, hj, rfl⟩ : ∃ j < size, (head + j) % size = i := exists_slot hi
  exact h.slot_eq j hj

/-- The slot at the head is empty exactly if the queue is. -/
lemma Queued.head_empty_iff (h : Queued size empty slot head q) (hsize : 0 < size) :
    slot (head % size) = empty ↔ q = [] := by
  have hhead := h.slot_eq 0 hsize
  rw [Nat.add_zero] at hhead
  rw [hhead]
  cases q with
  | nil => exact iff_of_true rfl rfl
  | cons c q => exact iff_of_false (h.ne_empty c List.mem_cons_self) (List.cons_ne_nil c q)

/-- A member is put into the slot behind the last one. -/
lemma Queued.push (h : Queued size empty slot head q) (hroom : q.length < size) (hc : c ≠ empty) :
    Queued size empty (Function.update slot ((head + q.length) % size) c) head (q ++ [c]) := by
  refine ⟨?_, ?_, ?_⟩
  · rw [List.length_append, List.length_singleton]
    exact hroom
  · intro x hx
    rcases List.mem_append.mp hx with hx | hx
    · exact h.ne_empty x hx
    · rw [List.mem_singleton.mp hx]
      exact hc
  · intro i hi
    by_cases hlast : i = q.length
    · rw [hlast, Function.update_self, List.getD_append_right _ _ _ _ le_rfl, Nat.sub_self]
      rfl
    · rw [Function.update_of_ne (slot_ne hi hroom hlast), h.slot_eq i hi]
      by_cases hlt : i < q.length
      · rw [List.getD_append _ _ _ _ hlt]
      · rw [List.getD_eq_default _ _ (by omega), List.getD_eq_default]
        rw [List.length_append, List.length_singleton]
        omega

/-- The member at the head is taken out. -/
lemma Queued.pop (h : Queued size empty slot head (c :: q)) :
    slot (head % size) = c ∧
      Queued size empty (Function.update slot (head % size) empty) (head + 1) q := by
  have hlen : q.length < size := h.length_le
  have hhead := h.slot_eq 0 (by omega)
  rw [Nat.add_zero] at hhead
  refine ⟨hhead, hlen.le, fun x hx => h.ne_empty x (List.mem_cons_of_mem c hx), fun i hi => ?_⟩
  rw [Nat.add_assoc, Nat.add_comm 1 i]
  by_cases hwrap : i + 1 = size
  · -- the slot behind the last one is the one that was emptied
    rw [hwrap, Nat.add_mod_right, Function.update_self, List.getD_eq_default _ _ (by omega)]
  · have hne : (head + (i + 1)) % size ≠ head % size :=
      slot_ne (j := 0) (by omega) (by omega) (Nat.succ_ne_zero i)
    rw [Function.update_of_ne hne, h.slot_eq (i + 1) (by omega), List.getD_cons_succ]

end Ring
