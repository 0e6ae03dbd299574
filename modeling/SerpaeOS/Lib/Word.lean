import Mathlib.Algebra.Group.Int.Defs
import Mathlib.Algebra.Group.Nat.Defs
import Mathlib.Data.Int.Init
import Mathlib.Data.Nat.Notation
import Mathlib.Data.Int.Notation

/-!
# 32-bit machine words

Unsigned words are natural numbers reduced modulo `2 ^ 32`, signed words integers in
`[-2 ^ 31, 2 ^ 31)`.  `i32` is the conversion of a word to a signed integer, `u32` the
conversion of an integer to an unsigned word.  Signed arithmetic must not overflow: `checked` is
its result where it is a signed word.
-/

namespace Word

/-- Conversion to a signed 32-bit integer. -/
def i32 (x : ℤ) : ℤ := Int.bmod x (2 ^ 32)

/-- Conversion to an unsigned 32-bit integer. -/
def u32 (x : ℤ) : ℕ := (x % 2 ^ 32).toNat

/-- A result of signed arithmetic. -/
def checked (x : ℤ) : Option ℤ := if -2 ^ 31 ≤ x ∧ x < 2 ^ 31 then some x else none

lemma checked_of {x : ℤ} (h0 : -2 ^ 31 ≤ x) (h : x < 2 ^ 31) : checked x = some x :=
  if_pos ⟨h0, h⟩

lemma i32_of_lt {x : ℤ} (h0 : 0 ≤ x) (h : x < 2 ^ 31) : i32 x = x := by
  unfold i32
  rw [Int.bmod_def]
  omega

/-- A word from `2 ^ 31` on is negative as a signed integer. -/
lemma i32_of_ge {x : ℤ} (h : 2 ^ 31 ≤ x) (h' : x < 2 ^ 32) : i32 x = x - 2 ^ 32 := by
  unfold i32
  rw [Int.bmod_def]
  omega

lemma u32_of_lt {x : ℕ} (h : x < 2 ^ 32) : u32 x = x := by
  unfold u32
  omega

lemma u32_lt (x : ℤ) : u32 x < 2 ^ 32 := by
  unfold u32
  omega

lemma i32_i32 (x : ℤ) : i32 (i32 x) = i32 x := Int.bmod_bmod

lemma i32_add_i32 (x y : ℤ) : i32 (i32 x + y) = i32 (x + y) := Int.bmod_add_bmod

lemma i32_u32 (x : ℤ) : i32 (u32 x) = i32 x := by
  have h : ((u32 x : ℕ) : ℤ) = x % 2 ^ 32 := by
    rw [u32]
    omega
  rw [h]
  exact Int.emod_bmod x (2 ^ 32)

lemma u32_i32 (x : ℤ) : u32 (i32 x) = u32 x := by
  simp only [u32, i32, Int.bmod_def]
  omega

end Word
