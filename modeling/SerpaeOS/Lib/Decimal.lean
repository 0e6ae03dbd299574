import Mathlib.Data.Nat.Digits.Lemmas
import Mathlib.Data.UInt

/-!
# Decimal representations

A numeral is a string of digits, the most significant one first, with no leading zero unless it is
the only digit.  Every natural number has exactly one, `ofNat`, which consists of the digits of
`Nat.digits`.  A negative integer is represented with a minus sign in front of the numeral.
-/

namespace Decimal

/-- The characters `0` to `9`. -/
def IsDigit (c : UInt8) : Prop := 0x30 ≤ c.toNat ∧ c.toNat ≤ 0x39

/-- The character of a digit. -/
def digitChar (d : ℕ) : UInt8 := UInt8.ofNat (0x30 + d)

/-- The digit of a character. -/
def digitValue (c : UInt8) : ℕ := c.toNat - 0x30

def zeroChar : UInt8 := 0x30

def minusChar : UInt8 := 0x2D

/-- The number that is reached from `r` by reading digits. -/
def valueFrom (r : ℕ) (s : List UInt8) : ℕ := s.foldl (fun v c => 10 * v + digitValue c) r

/-- The digits of a number, the most significant one first; none for zero. -/
def digits (n : ℕ) : List UInt8 := ((Nat.digits 10 n).map digitChar).reverse

/-- The string is the numeral of the number. -/
structure IsNumeral (s : List UInt8) (n : ℕ) : Prop where
  ne_nil : s ≠ []
  isDigit : ∀ c ∈ s, IsDigit c
  value : valueFrom 0 s = n
  leading : s.head? = some zeroChar → s = [zeroChar]

/-- The numeral of a number. -/
def ofNat (n : ℕ) : List UInt8 := if n = 0 then [zeroChar] else digits n

/-- The string represents the integer. -/
def IsDecimal (s : List UInt8) (i : ℤ) : Prop :=
  if i < 0 then ∃ t, s = minusChar :: t ∧ IsNumeral t i.natAbs else IsNumeral s i.natAbs

/-- The representation of an integer. -/
def ofInt (i : ℤ) : List UInt8 :=
  if i < 0 then minusChar :: ofNat i.natAbs else ofNat i.natAbs

variable {d n r : ℕ} {c : UInt8} {s : List UInt8}

/-! ## Digits -/

lemma toNat_digitChar (hd : d < 10) : (digitChar d).toNat = 0x30 + d := by
  rw [digitChar, UInt8.toNat_ofNat']
  omega

lemma isDigit_digitChar (hd : d < 10) : IsDigit (digitChar d) := by
  rw [IsDigit, toNat_digitChar hd]
  omega

lemma digitValue_digitChar (hd : d < 10) : digitValue (digitChar d) = d := by
  rw [digitValue, toNat_digitChar hd]
  omega

lemma digitChar_digitValue (hc : IsDigit c) : digitChar (digitValue c) = c := by
  refine UInt8.toNat_inj.mp ?_
  obtain ⟨h1, h2⟩ := hc
  rw [digitChar, digitValue, UInt8.toNat_ofNat']
  omega

lemma digitValue_lt (hc : IsDigit c) : digitValue c < 10 := by
  obtain ⟨h1, h2⟩ := hc
  rw [digitValue]
  omega

lemma IsDigit.ne_zero (hc : IsDigit c) : c ≠ 0 := by
  rintro rfl
  have h0 := hc.1
  simp at h0

/-! ## Values -/

@[simp] lemma valueFrom_nil : valueFrom r [] = r := rfl

@[simp] lemma valueFrom_cons :
    valueFrom r (c :: s) = valueFrom (10 * r + digitValue c) s := by
  rw [valueFrom, List.foldl_cons, valueFrom]

lemma le_valueFrom : r ≤ valueFrom r s := by
  induction s generalizing r with
  | nil => rw [valueFrom_nil]
  | cons c s ih =>
    rw [valueFrom_cons]
    exact le_trans (by omega) ih

/-- Reading the digits from the front is evaluating them from the back. -/
lemma valueFrom_eq_ofDigits (s : List UInt8) :
    valueFrom 0 s = Nat.ofDigits 10 (s.map digitValue).reverse := by
  rw [Nat.ofDigits_eq_foldr, List.foldr_reverse, List.foldl_map]
  refine List.foldl_ext _ _ _ fun v c _ => ?_
  simp only [Nat.cast_id]
  omega

/-! ## The digits of a number -/

@[simp] lemma digits_zero : digits 0 = [] := by simp [digits]

/-- The last digit is the remainder, and the others are those of the quotient. -/
lemma digits_of_pos (hn : 0 < n) : digits n = digits (n / 10) ++ [digitChar (n % 10)] := by
  rw [digits, Nat.digits_def' (by omega) hn, List.map_cons, List.reverse_cons, digits]

lemma isDigit_of_mem_digits (hc : c ∈ digits n) : IsDigit c := by
  rw [digits, List.mem_reverse, List.mem_map] at hc
  obtain ⟨d, hd, rfl⟩ := hc
  exact isDigit_digitChar (Nat.digits_lt_base (by omega) hd)

lemma map_digitValue_digits (n : ℕ) : (digits n).map digitValue = (Nat.digits 10 n).reverse := by
  rw [digits, List.map_reverse, List.map_map]
  refine congrArg List.reverse ?_
  refine (List.map_congr_left fun d hd => ?_).trans (List.map_id _)
  exact digitValue_digitChar (Nat.digits_lt_base (by omega) hd)

lemma valueFrom_digits (n : ℕ) : valueFrom 0 (digits n) = n := by
  rw [valueFrom_eq_ofDigits, map_digitValue_digits, List.reverse_reverse, Nat.ofDigits_digits]

lemma length_digits_le {k : ℕ} (hn : n < 10 ^ k) : (digits n).length ≤ k := by
  rw [digits, List.length_reverse, List.length_map]
  exact (Nat.digits_length_le_iff (by omega) n).mpr hn

lemma digits_ne_nil (hn : n ≠ 0) : digits n ≠ [] := by
  rw [digits, ne_eq, List.reverse_eq_nil_iff, List.map_eq_nil_iff]
  exact Nat.digits_ne_nil_iff_ne_zero.mpr hn

/-- The first digit of a number is not zero. -/
lemma head?_digits (n : ℕ) : (digits n).head? ≠ some zeroChar := by
  intro h
  rw [digits, List.head?_reverse, List.getLast?_map, Option.map_eq_some_iff] at h
  obtain ⟨d, hd, hzero⟩ := h
  have hn : n ≠ 0 := by
    rintro rfl
    simp at hd
  have hmem := List.mem_of_getLast? hd
  have hval := digitValue_digitChar (Nat.digits_lt_base (by omega) hmem)
  rw [hzero] at hval
  rw [List.getLast?_eq_some_getLast (Nat.digits_ne_nil_iff_ne_zero.mpr hn)] at hd
  exact Nat.getLast_digit_ne_zero 10 hn ((Option.some.inj hd).trans hval.symm)

/-! ## Numerals -/

lemma isNumeral_ofNat (n : ℕ) : IsNumeral (ofNat n) n := by
  rw [ofNat]
  split_ifs with hn
  · subst hn
    exact ⟨by simp, by simp [IsDigit, zeroChar], rfl, fun _ => rfl⟩
  · exact ⟨digits_ne_nil hn, fun _ => isDigit_of_mem_digits, valueFrom_digits n,
      fun h => absurd h (head?_digits n)⟩

/-- A string of digits without a leading zero consists of the digits of its value. -/
lemma digits_valueFrom (hs : ∀ c ∈ s, IsDigit c) (hlead : s.head? ≠ some zeroChar) :
    digits (valueFrom 0 s) = s := by
  rw [valueFrom_eq_ofDigits, digits, Nat.digits_ofDigits 10 (by omega)]
  · rw [List.map_reverse, List.reverse_reverse, List.map_map]
    exact (List.map_congr_left fun c hc => digitChar_digitValue (hs c hc)).trans (List.map_id s)
  · intro d hd
    rw [List.mem_reverse, List.mem_map] at hd
    obtain ⟨c, hc, rfl⟩ := hd
    exact digitValue_lt (hs c hc)
  · intro hne hzero
    rcases s with _ | ⟨c, s⟩
    · exact hne rfl
    · rw [List.getLast_reverse, List.head_map, List.head_cons] at hzero
      refine hlead (congrArg some ?_)
      rw [← digitChar_digitValue (hs c (by simp)), hzero]
      rfl

/-- A number has one numeral. -/
theorem isNumeral_iff : IsNumeral s n ↔ s = ofNat n := by
  refine ⟨fun h => ?_, fun h => h ▸ isNumeral_ofNat n⟩
  obtain ⟨hne, hdig, rfl, hlead⟩ := h
  by_cases hhead : s.head? = some zeroChar
  · rw [hlead hhead]
    rfl
  · have hs := digits_valueFrom hdig hhead
    rw [ofNat, if_neg fun h0 => ?_, hs]
    rw [h0, digits_zero] at hs
    exact hne hs.symm

/-- An integer has one representation. -/
theorem isDecimal_iff {i : ℤ} : IsDecimal s i ↔ s = ofInt i := by
  rw [IsDecimal, ofInt]
  split_ifs
  · simp [isNumeral_iff]
  · exact isNumeral_iff

end Decimal
