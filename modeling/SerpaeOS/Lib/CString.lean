import SerpaeOS.Lib.Bytes

/-!
# Strings in a memory

A string at an address is a list of characters other than zero, with a zero behind them.
-/

namespace Bytes

variable {b b' : ℕ → UInt8} {a : ℕ} {l l₁ l₂ : List UInt8}

/-- The characters of the string are at the address, and a zero behind them. -/
def HasString (b : ℕ → UInt8) : ℕ → List UInt8 → Prop
  | a, [] => b a = 0
  | a, c :: l => b a = c ∧ c ≠ 0 ∧ HasString b (a + 1) l

/-- A string only depends on its own bytes. -/
lemma HasString.congr (h : HasString b a l)
    (heq : ∀ x, a ≤ x → x ≤ a + l.length → b' x = b x) : HasString b' a l := by
  induction l generalizing a with
  | nil => exact (heq a le_rfl le_rfl).trans h
  | cons c l ih =>
    obtain ⟨hc, hne, hrest⟩ := h
    rw [List.length_cons] at heq
    refine ⟨(heq a le_rfl (by omega)).trans hc, hne, ih hrest fun x hx hx' => ?_⟩
    exact heq x (by omega) (by omega)

/-- A character stored in front of a string belongs to it. -/
lemma HasString.cons {c : UInt8} (h : HasString b (a + 1) l) (hc : c ≠ 0) :
    HasString (Function.update b a c) a (c :: l) := by
  refine ⟨Function.update_self _ _ _, hc, h.congr fun x hx _ => ?_⟩
  exact Function.update_of_ne (by omega) _ _

lemma HasString.drop (h : HasString b a (l₁ ++ l₂)) : HasString b (a + l₁.length) l₂ := by
  induction l₁ generalizing a with
  | nil => exact h
  | cons c l ih =>
    have hrest := ih h.2.2
    rwa [Nat.add_assoc, Nat.add_comm 1, ← List.length_cons (a := c)] at hrest

/-- A string is cut off where a zero is stored in it. -/
lemma HasString.cut (h : HasString b a (l₁ ++ l₂)) :
    HasString (Function.update b (a + l₁.length) 0) a l₁ := by
  induction l₁ generalizing a with
  | nil => exact Function.update_self _ _ _
  | cons c l ih =>
    have hrest := ih h.2.2
    rw [List.length_cons, ← Nat.add_assoc, Nat.add_right_comm]
    refine ⟨?_, h.2.1, hrest⟩
    rw [Function.update_of_ne (by omega)]
    exact h.1

lemma HasString.ne_zero (h : HasString b a l) : ∀ c ∈ l, c ≠ 0 := by
  induction l generalizing a with
  | nil => exact fun c hc => nomatch hc
  | cons c l ih => exact List.forall_mem_cons.mpr ⟨h.2.1, ih h.2.2⟩

/-- Storing the characters and a zero makes a string. -/
lemma hasString_store (hl : 0 ∉ l) : HasString (store b a (l ++ [0])) a l := by
  induction l generalizing b a with
  | nil => exact store_add (l := [0]) (i := 0) (by decide)
  | cons c l ih =>
    obtain ⟨hc, hl⟩ := List.ne_and_not_mem_of_not_mem_cons hl
    rw [List.cons_append, ← store_cons]
    refine ⟨?_, hc.symm, ih hl⟩
    rw [store_of_lt (Or.inl (Nat.lt_succ_self a)), Function.update_self]

/-- The characters up to the next zero, of at most `n` bytes. -/
def cstring (b : ℕ → UInt8) (a n : ℕ) : List UInt8 := (slice b a n).takeWhile (· ≠ 0)

lemma cstring_zero (b : ℕ → UInt8) (a : ℕ) : cstring b a 0 = [] := rfl

lemma cstring_succ (b : ℕ → UInt8) (a n : ℕ) :
    cstring b a (n + 1) = if b a = 0 then [] else b a :: cstring b (a + 1) n := by
  rw [cstring, cstring, Nat.add_comm n 1, slice_add]
  by_cases h : b a = 0
  · simp [slice, h]
  · simp [slice, h]

lemma length_cstring_le (b : ℕ → UInt8) (a n : ℕ) : (cstring b a n).length ≤ n :=
  (List.takeWhile_prefix _).length_le.trans_eq (length_slice b a n)

/-- What is read of a string is what is there of it. -/
lemma HasString.cstring_eq_take (h : HasString b a l) (n : ℕ) : cstring b a n = l.take n := by
  induction n generalizing a l with
  | zero => rw [cstring_zero, List.take_zero]
  | succ n ih =>
    rw [cstring_succ]
    cases l with
    | nil => rw [if_pos (show b a = 0 from h), List.take_nil]
    | cons c l =>
      obtain ⟨hc, hne, hrest⟩ := h
      rw [hc, if_neg hne, ih hrest, List.take_succ_cons]

lemma HasString.cstring_eq (h : HasString b a l) {n : ℕ} (hlen : l.length < n) :
    cstring b a n = l := by
  rw [h.cstring_eq_take, List.take_of_length_le hlen.le]

/-- The addresses that are read of a string: up to the zero behind it, and at most `n`. -/
def stringBytes (b : ℕ → UInt8) (a n : ℕ) : Set ℕ :=
  {x | a ≤ x ∧ x < a + n ∧ x ≤ a + (cstring b a n).length}

lemma self_mem_stringBytes (b : ℕ → UInt8) (a n : ℕ) : a ∈ stringBytes b a (n + 1) :=
  ⟨le_rfl, by omega, by omega⟩

lemma stringBytes_succ {n : ℕ} (h : b a ≠ 0) :
    stringBytes b (a + 1) n ⊆ stringBytes b a (n + 1) := by
  rintro x ⟨hlow, hhigh, hlen⟩
  refine ⟨by omega, by omega, ?_⟩
  rw [cstring_succ, if_neg h, List.length_cons]
  omega

/-- The string only depends on the bytes that are read. -/
lemma cstring_congr {n : ℕ} (h : ∀ x ∈ stringBytes b a n, b' x = b x) :
    cstring b' a n = cstring b a n := by
  induction n generalizing a with
  | zero => rfl
  | succ n ih =>
    rw [cstring_succ, cstring_succ, h a (self_mem_stringBytes b a n)]
    by_cases hzero : b a = 0
    · rw [if_pos hzero, if_pos hzero]
    · rw [if_neg hzero, if_neg hzero, ih fun x hx => h x (stringBytes_succ hzero hx)]

lemma stringBytes_congr {n : ℕ} (h : ∀ x ∈ stringBytes b a n, b' x = b x) :
    stringBytes b' a n = stringBytes b a n := by
  rw [stringBytes, stringBytes, cstring_congr h]

/-- A string is its characters and the zero behind them. -/
lemma hasString_of_slice (h : slice b a l.length = l) (hl : 0 ∉ l) (hend : b (a + l.length) = 0) :
    HasString b a l := by
  induction l generalizing a with
  | nil => exact hend
  | cons c l ih =>
    obtain ⟨hc, hl⟩ := List.ne_and_not_mem_of_not_mem_cons hl
    have hone : slice b a 1 = [b a] := rfl
    rw [List.length_cons, Nat.add_comm l.length, slice_add, hone] at h
    obtain ⟨hfirst, hrest⟩ := List.cons.inj h
    refine ⟨hfirst, Ne.symm hc, ih hrest hl ?_⟩
    rwa [List.length_cons, Nat.add_comm l.length, ← Nat.add_assoc] at hend

end Bytes
