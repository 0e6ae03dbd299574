import Mathlib.Data.UInt
import Mathlib.Data.List.TakeWhile
import Mathlib.Data.List.Basic

/-!
# Strings

The functions of `string.c` that the file layer uses.  A C string is the list of its
characters, without the terminating zero; reading past the end of the list gives zero.
-/

namespace SerpaeOS

/-- `tolower`. -/
def tolower (x : UInt8) : UInt8 := if 0x41 ≤ x ∧ x ≤ 0x5A then x + 0x20 else x

/-- `istrncmp`. -/
def istrncmp : List UInt8 → List UInt8 → ℕ → ℤ
  | _, _, 0 => 0
  | s1, s2, n + 1 =>
    let u1 := s1.headD 0
    let u2 := s2.headD 0
    if u1 ≠ u2 ∧ tolower u1 ≠ tolower u2 then (u1.toNat : ℤ) - u2.toNat
    else if u1 = 0 then 0
    else istrncmp s1.tail s2.tail n

/-- The characters that `istrncmp` compares. -/
def fold (s : List UInt8) : List UInt8 := s.map tolower

lemma tolower_eq_zero_iff (x : UInt8) : tolower x = 0 ↔ x = 0 := by
  rw [tolower]
  split_ifs with h
  · have h1 : 0x41 ≤ x.toNat := UInt8.le_iff_toNat_le.mp h.1
    have h2 : x.toNat ≤ 0x5A := UInt8.le_iff_toNat_le.mp h.2
    constructor
    · intro hc
      have hz := congrArg UInt8.toNat hc
      rw [UInt8.toNat_add] at hz
      simp only [UInt8.reduceToNat] at hz
      omega
    · rintro rfl
      exact absurd h1 (by decide)
  · rfl

/-- The step of `istrncmp` in terms of the two characters compared. -/
lemma istrncmp_succ {s1 s2 : List UInt8} {a b : UInt8} (h1 : s1.headD 0 = a)
    (h2 : s2.headD 0 = b) (n : ℕ) :
    istrncmp s1 s2 (n + 1) =
      if a ≠ b ∧ tolower a ≠ tolower b then (a.toNat : ℤ) - b.toNat
      else if a = 0 then 0 else istrncmp s1.tail s2.tail n := by
  subst h1 h2
  rw [istrncmp]

lemma sub_ne_zero_of_ne {a b : UInt8} (h : a ≠ b) : (a.toNat : ℤ) - b.toNat ≠ 0 := by
  intro hc
  refine h (UInt8.toNat_inj.mp ?_)
  omega

/-- Two strings compare equal when their first `n` characters do up to case. -/
lemma istrncmp_eq_zero_iff {s1 s2 : List UInt8} {n : ℕ} (h1 : 0 ∉ s1) (h2 : 0 ∉ s2) :
    istrncmp s1 s2 n = 0 ↔ fold (s1.take n) = fold (s2.take n) := by
  induction n generalizing s1 s2 with
  | zero => simp [istrncmp]
  | succ n ih =>
    cases s1 with
    | nil =>
      cases s2 with
      | nil => simp [istrncmp]
      | cons b s2 =>
        have hb : b ≠ 0 := fun hb => h2 (by simp [hb])
        have hlow : tolower 0 ≠ tolower b := by
          rw [show tolower 0 = 0 from rfl]
          exact fun hc => hb ((tolower_eq_zero_iff b).mp hc.symm)
        rw [istrncmp_succ (a := 0) (b := b) rfl rfl, if_pos ⟨hb.symm, hlow⟩]
        simp only [fold, List.take_nil, List.take_succ_cons, List.map_nil, List.map_cons]
        exact iff_of_false (sub_ne_zero_of_ne hb.symm) (by simp)
    | cons a s1 =>
      have ha : a ≠ 0 := fun ha => h1 (by simp [ha])
      cases s2 with
      | nil =>
        have hlow : tolower a ≠ tolower 0 := by
          rw [show tolower 0 = 0 from rfl]
          exact fun hc => ha ((tolower_eq_zero_iff a).mp hc)
        rw [istrncmp_succ (a := a) (b := 0) rfl rfl, if_pos ⟨ha, hlow⟩]
        simp only [fold, List.take_nil, List.take_succ_cons, List.map_nil, List.map_cons]
        exact iff_of_false (sub_ne_zero_of_ne ha) (by simp)
      | cons b s2 =>
        rw [istrncmp_succ (a := a) (b := b) rfl rfl, List.tail_cons, List.tail_cons]
        simp only [fold, List.take_succ_cons, List.map_cons, List.cons.injEq]
        by_cases hlow : tolower a = tolower b
        · rw [if_neg (fun hc => hc.2 hlow), if_neg ha]
          rw [ih (fun hc => h1 (by simp [hc])) (fun hc => h2 (by simp [hc]))]
          simp [hlow, fold]
        · have hab : a ≠ b := fun hab => hlow (by rw [hab])
          rw [if_pos ⟨hab, hlow⟩]
          exact iff_of_false (sub_ne_zero_of_ne hab) fun hc => hlow hc.1

/-- Against a string shorter than the bound the whole strings are compared. -/
lemma istrncmp_eq_zero_iff_of_lt {s1 s2 : List UInt8} {n : ℕ} (h1 : 0 ∉ s1) (h2 : 0 ∉ s2)
    (hn : s1.length < n) : istrncmp s1 s2 n = 0 ↔ fold s1 = fold s2 := by
  rw [istrncmp_eq_zero_iff h1 h2, List.take_of_length_le hn.le]
  constructor
  · intro h
    have hlen := congrArg List.length h
    simp only [fold, List.length_map, List.length_take] at hlen
    rwa [List.take_of_length_le (by omega)] at h
  · intro h
    have hlen := congrArg List.length h
    simp only [fold, List.length_map] at hlen
    rwa [List.take_of_length_le (by omega)]

end SerpaeOS
