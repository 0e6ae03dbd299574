import Mathlib.Data.List.Nodup
import Mathlib.Data.List.Rotate
import Mathlib.Data.List.TakeWhile
import Mathlib.Tactic.Common

/-!
# Taking turns along a list

The members of a list that are ready take turns: behind the one whose turn it is the next ready one
is looked for, and behind the last member of the list the search starts at the front.  The search
does not go around the end of the list, so the turns go on for ever if and only if the last member
is ready, and then the ready ones follow each other around in the order of the list.
-/

namespace RoundRobin

variable {α : Type*} [DecidableEq α] {p : α → Bool} {l before after : List α} {a b : α}

/-- The member whose turn it is after `a`. -/
def turn (p : α → Bool) (l : List α) (a : α) : Option α :=
  let after := (l.dropWhile (· ≠ a)).tail
  if after = [] then l.find? p else after.find? p

/-- The members of so many turns after the one of `a`. -/
def turns (p : α → Bool) (l : List α) : ℕ → α → Option (List α)
  | 0, _ => some []
  | n + 1, a => (turn p l a).bind fun b => (turns p l n b).map (b :: ·)

/-- The number of ready members up to `a`. -/
def passed (p : α → Bool) (l : List α) (a : α) : ℕ :=
  ((l.takeWhile (· ≠ a) ++ [a]).filter p).length

lemma exists_split (hnodup : l.Nodup) (hne : l ≠ []) (ha : a ∈ l) : ∃ before after,
    l = before ++ a :: after ∧ l.takeWhile (· ≠ a) = before ∧ (l.dropWhile (· ≠ a)).tail = after ∧
      (a = l.getLast hne → after = []) ∧ (a ≠ l.getLast hne → l.getLast hne ∈ after) := by
  obtain ⟨before, after, hl, hnot⟩ := List.eq_append_cons_of_mem ha
  have hbefore : ∀ b ∈ before, decide (b ≠ a) = true := fun b hb =>
    decide_eq_true fun hc => hnot (hc ▸ hb)
  have hlast : l.getLast hne = (a :: after).getLast (List.cons_ne_nil a after) := by
    simp only [hl, List.getLast_append_of_ne_nil _ (List.cons_ne_nil a after)]
  refine ⟨before, after, hl, ?_, ?_, fun hc => ?_, fun hc => ?_⟩
  · rw [hl, List.takeWhile_append_of_pos hbefore, List.takeWhile_cons_of_neg (by simp),
      List.append_nil]
  · rw [hl, List.dropWhile_append_of_pos hbefore, List.dropWhile_cons_of_neg (by simp),
      List.tail_cons]
  · by_contra hafter
    rw [hlast, List.getLast_cons hafter] at hc
    rw [hl] at hnodup
    refine (List.nodup_cons.mp (List.nodup_append.mp hnodup).2.1).1 ?_
    rw [hc]
    exact List.getLast_mem hafter
  · cases after with
    | nil => exact absurd hlast.symm hc
    | cons b after =>
      rw [hlast, List.getLast_cons (List.cons_ne_nil b after)]
      exact List.getLast_mem _

lemma length_filter_split (hl : l = before ++ a :: after) (htake : l.takeWhile (· ≠ a) = before) :
    l.filter p = (before ++ [a]).filter p ++ after.filter p ∧
      passed p l a = ((before ++ [a]).filter p).length := by
  refine ⟨?_, by rw [passed, htake]⟩
  rw [← List.filter_append, List.append_assoc, hl]
  rfl

/-- Behind `a` the ready members go on where they have been passed. -/
lemma turn_of_ne_getLast (hnodup : l.Nodup) (hne : l ≠ []) (ha : a ∈ l)
    (hlast : a ≠ l.getLast hne) : turn p l a = (l.filter p)[passed p l a]? := by
  obtain ⟨before, after, hl, htake, hdrop, -, hafter⟩ := exists_split hnodup hne ha
  obtain ⟨hfilter, hpassed⟩ := length_filter_split (p := p) hl htake
  rw [turn, hpassed, hfilter, List.getElem?_append_right le_rfl, Nat.sub_self]
  simp only [hdrop]
  rw [if_neg (List.ne_nil_of_mem (hafter hlast)), ← List.head?_filter, List.head?_eq_getElem?]

/-- Behind the last member the search starts at the front. -/
lemma turn_getLast (hnodup : l.Nodup) (hne : l ≠ []) :
    turn p l (l.getLast hne) = (l.filter p)[0]? := by
  obtain ⟨before, after, -, -, hdrop, hafter, -⟩ :=
    exists_split hnodup hne (List.getLast_mem hne)
  rw [turn]
  simp only [hdrop]
  rw [if_pos (hafter rfl), ← List.head?_filter, List.head?_eq_getElem?]

/-- The ready members are passed in their order. -/
lemma passed_getElem (hnodup : l.Nodup) {i : ℕ} (hi : (l.filter p)[i]? = some a) :
    passed p l a = i + 1 := by
  obtain ⟨hlt, hget⟩ := List.getElem?_eq_some_iff.mp hi
  have hmem : a ∈ l.filter p := hget ▸ List.getElem_mem hlt
  obtain ⟨ha, hready⟩ := List.mem_filter.mp hmem
  obtain ⟨before, after, hl, htake, -, -, -⟩ := exists_split hnodup (List.ne_nil_of_mem ha) ha
  have hsplit : l.filter p = before.filter p ++ a :: after.filter p := by
    rw [hl, List.filter_append, List.filter_cons_of_pos hready]
  have hplace : (before.filter p).length < (l.filter p).length := by
    rw [hsplit, List.length_append, List.length_cons]
    omega
  have hat : (l.filter p)[(before.filter p).length] = (l.filter p)[i] := by
    rw [hget]
    simp only [hsplit, List.getElem_append_right le_rfl, Nat.sub_self, List.getElem_cons_zero]
  rw [passed, htake, List.filter_append, List.length_append,
    ((hnodup.filter _).getElem_inj_iff).mp hat]
  simp [hready]

/-- The next turn, when the last member is ready. -/
lemma turn_eq (hnodup : l.Nodup) (hne : l ≠ []) (hlast : p (l.getLast hne) = true) (ha : a ∈ l) :
    turn p l a = (l.filter p)[passed p l a % (l.filter p).length]? := by
  obtain ⟨before, after, hl, htake, -, hnil, hmem⟩ := exists_split hnodup hne ha
  obtain ⟨hfilter, hpassed⟩ := length_filter_split (p := p) hl htake
  have hlen : (l.filter p).length = passed p l a + (after.filter p).length := by
    rw [hpassed, ← List.length_append, ← hfilter]
  by_cases ha' : a = l.getLast hne
  · rw [hnil ha', List.filter_nil, List.length_nil, Nat.add_zero] at hlen
    rw [hlen, Nat.mod_self]
    conv_lhs => rw [ha']
    exact turn_getLast hnodup hne
  · have hpos : 0 < (after.filter p).length :=
      List.length_pos_of_mem (List.mem_filter.mpr ⟨hmem ha', hlast⟩)
    rw [turn_of_ne_getLast hnodup hne ha ha', Nat.mod_eq_of_lt (by omega)]

/-- The ready members follow each other around. -/
lemma turns_eq (hnodup : l.Nodup) (hne : l ≠ []) (hlast : p (l.getLast hne) = true) (n : ℕ) :
    ∀ {a : α}, a ∈ l → ∃ bs, turns p l n a = some bs ∧ bs.map some =
      (List.range n).map fun j => (l.filter p)[(passed p l a + j) % (l.filter p).length]? := by
  have hpos : 0 < (l.filter p).length :=
    List.length_pos_of_mem (List.mem_filter.mpr ⟨List.getLast_mem hne, hlast⟩)
  induction n with
  | zero => exact fun _ => ⟨[], rfl, rfl⟩
  | succ n ih =>
    intro a ha
    obtain ⟨b, hb⟩ : ∃ b, (l.filter p)[passed p l a % (l.filter p).length]? = some b :=
      ⟨_, List.getElem?_eq_getElem (Nat.mod_lt _ hpos)⟩
    have hmem : b ∈ l := (List.mem_filter.mp (List.mem_of_getElem? hb)).1
    obtain ⟨bs, hbs, hmap⟩ := ih hmem
    refine ⟨b :: bs, ?_, ?_⟩
    · rw [turns, turn_eq hnodup hne hlast ha, hb, Option.bind_some, hbs, Option.map_some]
    · rw [List.map_cons, hmap, List.range_succ_eq_map, List.map_cons, List.map_map, Nat.add_zero,
        hb, passed_getElem hnodup hb]
      refine congrArg _ (List.map_congr_left fun j _ => ?_)
      rw [Function.comp, Nat.add_assoc (passed p l a % _), Nat.mod_add_mod, Nat.add_comm 1 j]

/-- As many turns as there are ready members go once around. -/
theorem turns_rotate (hnodup : l.Nodup) (hne : l ≠ []) (hlast : p (l.getLast hne) = true)
    (ha : a ∈ l) (n : ℕ) : ∃ bs, turns p l n a = some bs ∧ bs.length = n ∧
      ∀ i, i + (l.filter p).length ≤ n →
        (bs.drop i).take (l.filter p).length = (l.filter p).rotate (passed p l a + i) := by
  obtain ⟨bs, hbs, hmap⟩ := turns_eq hnodup hne hlast n ha
  have hlen : bs.length = n := by
    have := congrArg List.length hmap
    rwa [List.length_map, List.length_map, List.length_range] at this
  refine ⟨bs, hbs, hlen, fun i hi => List.ext_getElem ?_ fun j hj hj' => ?_⟩
  · rw [List.length_take, List.length_drop, List.length_rotate]
    omega
  · rw [List.length_rotate] at hj'
    have hpos : 0 < (l.filter p).length := by omega
    have hat : (bs.map some)[i + j]? = ((List.range n).map fun j =>
        (l.filter p)[(passed p l a + j) % (l.filter p).length]?)[i + j]? := by rw [hmap]
    rw [List.getElem?_map, List.getElem?_map, List.getElem?_range (by omega),
      List.getElem?_eq_getElem (by omega), Option.map_some, Option.map_some,
      List.getElem?_eq_getElem (Nat.mod_lt _ hpos)] at hat
    rw [List.getElem_take, List.getElem_drop, List.getElem_rotate]
    have := Option.some.inj (Option.some.inj hat)
    rw [this]
    congr 2
    omega

/-- With a last member that is not ready the turns come to an end behind the last ready one. -/
lemma turns_of_passed (hnodup : l.Nodup) (hne : l ≠ []) (hlast : p (l.getLast hne) = false) :
    ∀ (d : ℕ) {a : α}, a ∈ l → a ≠ l.getLast hne →
      (l.filter p).length ≤ passed p l a + d → turns p l (d + 1) a = none := by
  intro d
  induction d with
  | zero =>
    intro a ha hne' hle
    rw [Nat.add_zero] at hle
    rw [turns, turn_of_ne_getLast hnodup hne ha hne', List.getElem?_eq_none hle, Option.bind_none]
  | succ d ih =>
    intro a ha hne' hle
    rw [turns, turn_of_ne_getLast hnodup hne ha hne']
    cases hb : (l.filter p)[passed p l a]? with
    | none => rfl
    | some b =>
      obtain ⟨hmem, hready⟩ := List.mem_filter.mp (List.mem_of_getElem? hb)
      have hb' : b ≠ l.getLast hne := by
        rintro rfl
        rw [hlast] at hready
        cases hready
      rw [Option.bind_some, ih hmem hb' (by rw [passed_getElem hnodup hb]; omega), Option.map_none]

/-- The turns go on for ever if and only if the last member is ready. -/
theorem turns_forever_iff (hnodup : l.Nodup) (hne : l ≠ []) (ha : a ∈ l) :
    (∀ n, turns p l n a ≠ none) ↔ p (l.getLast hne) = true := by
  constructor
  · intro hturns
    by_contra hlast
    rw [Bool.not_eq_true] at hlast
    refine hturns ((l.filter p).length + 2) ?_
    by_cases ha' : a = l.getLast hne
    · rw [turns, ha', turn_getLast hnodup hne]
      cases hb : (l.filter p)[0]? with
      | none => rfl
      | some b =>
        obtain ⟨hmem, hready⟩ := List.mem_filter.mp (List.mem_of_getElem? hb)
        have hb' : b ≠ l.getLast hne := by
          rintro rfl
          rw [hlast] at hready
          cases hready
        rw [Option.bind_some, turns_of_passed hnodup hne hlast _ hmem hb' (Nat.le_add_left _ _),
          Option.map_none]
    · exact turns_of_passed hnodup hne hlast _ ha ha' (by omega)
  · intro hlast n hnone
    obtain ⟨bs, hbs, -⟩ := turns_eq hnodup hne hlast n ha
    rw [hnone] at hbs
    cases hbs

end RoundRobin
