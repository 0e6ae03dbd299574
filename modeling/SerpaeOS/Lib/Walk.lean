import SerpaeOS.Lib.Loop
import Mathlib.Logic.Function.Iterate
import Mathlib.Order.Interval.Set.Infinite
import Mathlib.Order.Preorder.Finite

/-!
# Walks

A walk follows a function from an element on, until it comes to an element where it stops.  Among
finitely many elements it stops unless it comes back to an element before.
-/

namespace Walk

variable {α : Type} {next : α → α} {stop : α → Prop} {a : α} {n m : ℕ}

/-- The walk stops after `n` steps and not before. -/
structure StopsIn (next : α → α) (stop : α → Prop) (n : ℕ) (a : α) : Prop where
  stops : stop (next^[n] a)
  not_before : ∀ k < n, ¬ stop (next^[k] a)

/-- The walk stops. -/
def Stops (next : α → α) (stop : α → Prop) (a : α) : Prop := ∃ n, stop (next^[n] a)

/-- The walk comes to an element twice, and has not stopped until then. -/
def ComesBack (next : α → α) (stop : α → Prop) (a : α) : Prop :=
  ∃ i j, i < j ∧ next^[i] a = next^[j] a ∧ ∀ k < j, ¬ stop (next^[k] a)

/-! ## The number of steps -/

lemma Stops.exists_stopsIn (h : Stops next stop a) : ∃ n, StopsIn next stop n a := by
  classical
  exact ⟨Nat.find h, Nat.find_spec h, fun k hk => Nat.find_min h hk⟩

lemma StopsIn.unique (h : StopsIn next stop n a) (h' : StopsIn next stop m a) : n = m := by
  rcases Nat.lt_trichotomy n m with hlt | heq | hlt
  · exact absurd h.stops (h'.not_before n hlt)
  · exact heq
  · exact absurd h'.stops (h.not_before m hlt)

lemma stopsIn_zero : StopsIn next stop 0 a ↔ stop a :=
  ⟨fun h => h.stops, fun h => ⟨h, fun k hk => absurd hk (Nat.not_lt_zero k)⟩⟩

lemma stopsIn_succ :
    StopsIn next stop (n + 1) a ↔ ¬ stop a ∧ StopsIn next stop n (next a) := by
  constructor
  · refine fun h => ⟨h.not_before 0 (Nat.zero_lt_succ n), h.stops, fun k hk => ?_⟩
    exact h.not_before (k + 1) (Nat.succ_lt_succ hk)
  · rintro ⟨ha, h⟩
    refine ⟨h.stops, fun k hk => ?_⟩
    cases k with
    | zero => exact ha
    | succ k => exact h.not_before k (Nat.lt_of_succ_lt_succ hk)

lemma Stops.of_next (h : Stops next stop (next a)) : Stops next stop a := by
  obtain ⟨n, hn⟩ := h
  exact ⟨n + 1, hn⟩

/-! ## Coming back -/

/-- Behind a return the walk goes on among the elements that it has visited. -/
lemma ComesBack.not_stops (h : ComesBack next stop a) : ¬ Stops next stop a := by
  obtain ⟨i, j, hij, heq, hall⟩ := h
  rintro ⟨n, hn⟩
  induction n using Nat.strong_induction_on with
  | _ n ih =>
    rcases Nat.lt_or_ge n j with hlt | hge
    · exact hall n hlt hn
    · obtain ⟨m, rfl⟩ := Nat.exists_eq_add_of_le hge
      refine ih (i + m) (by omega) ?_
      rw [Nat.add_comm, Function.iterate_add_apply] at hn ⊢
      rwa [heq]

/-- Among finitely many elements a walk stops or comes back. -/
lemma stops_iff_not_comesBack (hfinite : (Set.range next).Finite) :
    Stops next stop a ↔ ¬ ComesBack next stop a := by
  refine ⟨fun h hback => hback.not_stops h, fun h => ?_⟩
  by_contra hnever
  have hmem : ∀ n, next^[n + 1] a ∈ Set.range next := fun n =>
    ⟨_, (Function.iterate_succ_apply' next n a).symm⟩
  obtain ⟨i, j, hij, heq⟩ := hfinite.exists_lt_map_eq_of_forall_mem hmem
  exact h ⟨i + 1, j + 1, Nat.succ_lt_succ hij, heq, fun k _ hk => hnever ⟨k, hk⟩⟩

/-! ## The loop -/

/-- The loop over a walk, which leaves with the element where it stops. -/
def loop (next : α → α) (stop : α → Prop) [DecidablePred stop] : Loop α α :=
  ⟨fun a => some (if stop a then .inr a else .inl (next a))⟩

variable [DecidablePred stop]

lemma loop_isSome_iff : ((loop next stop).run a).isSome ↔ Stops next stop a := by
  have hleave : ∀ a, stop a → (loop next stop).run a = some a := fun a ha =>
    Loop.run_leave (congrArg some (if_pos ha))
  have hnext : ∀ a, ¬ stop a → (loop next stop).run a = (loop next stop).run (next a) :=
    fun a ha => Loop.run_next (congrArg some (if_neg ha))
  constructor
  · intro h
    obtain ⟨b, hb⟩ := Option.isSome_iff_exists.mp h
    refine Loop.run_induction (P := fun a _ => Stops next stop a) ?_ ?_ hb
    · intro a b hbody
      by_cases ha : stop a
      · exact ⟨0, ha⟩
      · exact absurd (hbody.symm.trans (congrArg some (if_neg ha))) nofun
    · intro a a' b hbody hstops
      by_cases ha : stop a
      · exact ⟨0, ha⟩
      · cases hbody.symm.trans (congrArg some (if_neg ha))
        exact hstops.of_next
  · intro h
    obtain ⟨n, hn⟩ := h.exists_stopsIn
    induction n generalizing a with
    | zero =>
      rw [hleave a (stopsIn_zero.mp hn)]
      rfl
    | succ n ih =>
      obtain ⟨ha, hn⟩ := stopsIn_succ.mp hn
      rw [hnext a ha]
      exact ih ⟨n, hn.stops⟩ hn

end Walk
