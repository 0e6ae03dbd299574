import Mathlib.Data.List.TakeWhile
import SerpaeOS.Fs.Str

/-!
# Comparing strings up to case

The user library has the `istrncmp` of the kernel with a `tolower` of its own: the macro leaves a
small letter as it is and adds 32 to every other character, in the arithmetic of `int`.  It takes
no two characters to the same number that the kernel's `tolower` tells apart.
-/

namespace SerpaeOS

/-- The characters of a string up to the terminator. -/
def untilZero (s : List UInt8) : List UInt8 := s.takeWhile (· ≠ 0)

namespace Stdlib

/-- `tolower` of the user library. -/
def tolower (c : UInt8) : ℕ := if c ≤ 0x7A ∧ 0x61 ≤ c then c.toNat else c.toNat + 32

/-- `istrncmp` of the user library. -/
def istrncmp : List UInt8 → List UInt8 → ℕ → ℤ
  | _, _, 0 => 0
  | s1, s2, n + 1 =>
    let u1 := s1.headD 0
    let u2 := s2.headD 0
    if u1 ≠ u2 ∧ tolower u1 ≠ tolower u2 then (u1.toNat : ℤ) - u2.toNat
    else if u1 = 0 then 0
    else istrncmp s1.tail s2.tail n

end Stdlib

/-! ## The two mappings -/

lemma toNat_tolower (c : UInt8) : (tolower c).toNat =
    if 0x41 ≤ c.toNat ∧ c.toNat ≤ 0x5A then c.toNat + 0x20 else c.toNat := by
  simp only [tolower, UInt8.le_iff_toNat_le, UInt8.reduceToNat]
  split_ifs with h
  · simp only [UInt8.toNat_add, UInt8.reduceToNat]
    omega
  · rfl

/-- No character is mapped to a capital letter. -/
lemma tolower_not_capital (c : UInt8) :
    ¬ (0x41 ≤ (tolower c).toNat ∧ (tolower c).toNat ≤ 0x5A) := by
  rw [toNat_tolower]
  split_ifs <;> omega

namespace Stdlib

lemma tolower_eq (c : UInt8) :
    tolower c = if c.toNat ≤ 0x7A ∧ 0x61 ≤ c.toNat then c.toNat else c.toNat + 32 := by
  simp only [tolower, UInt8.le_iff_toNat_le, UInt8.reduceToNat]

/-- The mapping of the user library only depends on what the kernel maps a character to. -/
lemma tolower_tolower (c : UInt8) : tolower (SerpaeOS.tolower c) = tolower c := by
  rw [tolower_eq, tolower_eq, toNat_tolower]
  split_ifs <;> omega

/-- Among the characters that are no capital letters, the user library maps no two to the same
number: the small letters stay, and of the others only the capital ones come to where they are. -/
lemma tolower_injOn {a b : UInt8} (ha : ¬ (0x41 ≤ a.toNat ∧ a.toNat ≤ 0x5A))
    (hb : ¬ (0x41 ≤ b.toNat ∧ b.toNat ≤ 0x5A)) (h : tolower a = tolower b) : a = b := by
  rw [tolower_eq, tolower_eq] at h
  refine UInt8.toNat_inj.mp ?_
  split_ifs at h <;> omega

/-- The two mappings identify the same characters. -/
lemma tolower_eq_tolower_iff (a b : UInt8) :
    tolower a = tolower b ↔ SerpaeOS.tolower a = SerpaeOS.tolower b := by
  constructor
  · intro h
    rw [← tolower_tolower a, ← tolower_tolower b] at h
    exact tolower_injOn (tolower_not_capital a) (tolower_not_capital b) h
  · intro h
    rw [← tolower_tolower a, ← tolower_tolower b, h]

/-- The comparisons of the kernel and of the user library agree round by round. -/
lemma istrncmp_eq (s1 s2 : List UInt8) (n : ℕ) :
    istrncmp s1 s2 n = SerpaeOS.istrncmp s1 s2 n := by
  induction n generalizing s1 s2 with
  | zero => rw [istrncmp, SerpaeOS.istrncmp]
  | succ n ih => simp only [istrncmp, SerpaeOS.istrncmp, ne_eq, tolower_eq_tolower_iff, ih]

end Stdlib

/-! ## What is compared -/

lemma untilZero_cons_zero (s : List UInt8) : untilZero (0 :: s) = [] := by simp [untilZero]

lemma untilZero_cons {c : UInt8} (hc : c ≠ 0) (s : List UInt8) :
    untilZero (c :: s) = c :: untilZero s := by simp [untilZero, hc]

lemma zero_notMem_untilZero (s : List UInt8) : 0 ∉ untilZero s := by
  intro h
  simpa using List.mem_takeWhile_imp h

lemma headD_untilZero (s : List UInt8) : (untilZero s).headD 0 = s.headD 0 := by
  rcases s with _ | ⟨c, s⟩
  · rfl
  · by_cases hc : c = 0
    · simp [hc, untilZero_cons_zero]
    · simp [untilZero_cons hc]

lemma tail_untilZero {s : List UInt8} (h : s.headD 0 ≠ 0) :
    (untilZero s).tail = untilZero s.tail := by
  rcases s with _ | ⟨c, s⟩
  · rfl
  · rw [untilZero_cons (by simpa using h), List.tail_cons, List.tail_cons]

/-- The comparison does not look behind the terminators. -/
lemma istrncmp_untilZero (s1 s2 : List UInt8) (n : ℕ) :
    istrncmp (untilZero s1) (untilZero s2) n = istrncmp s1 s2 n := by
  induction n generalizing s1 s2 with
  | zero => rw [istrncmp, istrncmp]
  | succ n ih =>
    rw [istrncmp, istrncmp, headD_untilZero, headD_untilZero]
    split_ifs with hne hzero
    · rfl
    · rfl
    · -- the first characters are equal up to case, so that neither ends its string
      have hlow : tolower (s1.headD 0) = tolower (s2.headD 0) := by
        by_contra hc
        exact hne ⟨fun h => hc (by rw [h]), hc⟩
      have hzero2 : s2.headD 0 ≠ 0 := fun h => by
        rw [h, show tolower 0 = 0 from rfl, tolower_eq_zero_iff] at hlow
        exact hzero hlow
      rw [tail_untilZero hzero, tail_untilZero hzero2, ih]

/-- The comparisons of the kernel and of the user library return the same, and zero exactly for
strings whose first characters are equal up to case.  A bound that is not positive allows no
round of the loop. -/
theorem istrncmp_user_eq_kernel (s1 s2 : List UInt8) (n : ℤ) :
    Stdlib.istrncmp s1 s2 n.toNat = istrncmp s1 s2 n.toNat ∧
    (istrncmp s1 s2 n.toNat = 0 ↔
      fold ((untilZero s1).take n.toNat) = fold ((untilZero s2).take n.toNat)) := by
  refine ⟨Stdlib.istrncmp_eq s1 s2 n.toNat, ?_⟩
  rw [← istrncmp_untilZero]
  exact istrncmp_eq_zero_iff (zero_notMem_untilZero s1) (zero_notMem_untilZero s2)

end SerpaeOS
