import SerpaeOS.Lib.CString
import SerpaeOS.Lib.Decimal
import SerpaeOS.Lib.Loop
import SerpaeOS.Lib.Word
import Mathlib.Data.Int.Init

/-!
# Numbers as strings

`itoa` fills a static buffer from its end, and works on negative numbers, so that the smallest one
is no exception.  The kernel and the user library have the same function.  The result is `none`
where signed arithmetic would overflow, or a byte outside the buffer would be written.
-/

namespace SerpaeOS

open Bytes Decimal Word

/-- The size of the array `text`. -/
def textSize : ℕ := 12

/-- Store a character in front of the position `loc` of the buffer at `text`. -/
def putText (text : ℕ) (c : UInt8) (p : ℕ × (ℕ → UInt8)) : Option (ℕ × (ℕ → UInt8)) :=
  if 0 < p.1 ∧ p.1 ≤ textSize then
    some (p.1 - 1, Function.update p.2 (text + (p.1 - 1)) c)
  else none

/-- The loop of `itoa`: the number that is left, the position `loc`, and the memory. -/
def itoaLoop (text : ℕ) : Loop (ℤ × ℕ × (ℕ → UInt8)) (ℕ × (ℕ → UInt8)) where
  body := fun (i, p) =>
    if i = 0 then some (.inr p)
    else do
      let c ← checked (0x30 - i.tmod 10)
      let p ← putText text (UInt8.ofInt c) p
      let i ← checked (i.tdiv 10)
      some (.inl (i, p))

/-- The digits of `itoa`, for a number that is not positive. -/
def itoaDigits (text : ℕ) (i : ℤ) (byte : ℕ → UInt8) : Option (ℕ × (ℕ → UInt8)) := do
  let p ← (itoaLoop text).run (i, 11, Function.update byte (text + 11) 0)
  if p.1 = 11 then putText text zeroChar p else some p

/-- `itoa`, with the address of the buffer; it returns an address and the memory. -/
def itoa (text : ℕ) (i : ℤ) (byte : ℕ → UInt8) : Option (ℕ × (ℕ → UInt8)) := do
  let neg := i < 0
  let i ← (if 0 ≤ i then checked (-i) else some i)
  let p ← itoaDigits text i byte
  let p ← (if neg then putText text minusChar p else some p)
  some (text + p.1, p.2)

namespace Stdlib

/-- `itoa` of the user library. -/
def itoa (text : ℕ) (i : ℤ) (byte : ℕ → UInt8) : Option (ℕ × (ℕ → UInt8)) :=
  SerpaeOS.itoa text i byte

/-- `isdigit`. -/
def isdigit (c : UInt8) : Bool := 0x30 ≤ c && c ≤ 0x39

/-- `tonumericdigit`, of a character that may be taken as signed. -/
def tonumericdigit (c : UInt8) : ℤ := if isdigit c then (c.toNat : ℤ) - 0x30 else c.toInt8.toInt

/-- The loop of `atoi`. -/
def atoiLoop (byte : ℕ → UInt8) : Loop (ℕ × ℤ) ℤ where
  body := fun (s, res) =>
    if byte s ≠ 0 ∧ isdigit (byte s) then do
      let res ← checked (res * 10)
      let res ← checked (res + tonumericdigit (byte s))
      some (.inl (s + 1, res))
    else some (.inr res)

/-- `atoi`. -/
def atoi (byte : ℕ → UInt8) (s : ℕ) : Option ℤ := (atoiLoop byte).run (s, 0)

end Stdlib

/-- The function returns a string for every number, which is its decimal representation, and
changes no byte outside the buffer. -/
def WritesDecimal (f : ℕ → ℤ → (ℕ → UInt8) → Option (ℕ × (ℕ → UInt8))) : Prop :=
  ∀ (text : ℕ) (i : Int32) (byte : ℕ → UInt8), ∃ a byte' s,
    f text i.toInt byte = some (a, byte') ∧ HasString byte' a s ∧ IsDecimal s i.toInt ∧
    text ≤ a ∧ a + s.length < text + textSize ∧
    ∀ x, x < text ∨ text + textSize ≤ x → byte' x = byte x

variable {text loc n : ℕ} {byte : ℕ → UInt8} {s : List UInt8} {c : UInt8}

/-! ## The digits -/

lemma putText_succ (hloc : loc + 1 ≤ textSize) : putText text c (loc + 1, byte) =
    some (loc, Function.update byte (text + loc) c) := if_pos ⟨Nat.succ_pos loc, hloc⟩

/-- The character of a round is that of the last digit. -/
lemma ofInt_tmod (n : ℕ) : UInt8.ofInt (0x30 - (-(n : ℤ)).tmod 10) = digitChar (n % 10) := by
  rw [Int.neg_tmod, Int.tmod_eq_emod_of_nonneg (by omega), UInt8.ofInt, digitChar]
  refine congrArg UInt8.ofNat ?_
  omega

lemma itoaLoop_next (hn : 0 < n) (hmax : n ≤ 2 ^ 31) (hloc : loc + 1 ≤ textSize) :
    (itoaLoop text).run (-(n : ℤ), loc + 1, byte) = (itoaLoop text).run
      (-((n / 10 : ℕ) : ℤ), loc, Function.update byte (text + loc) (digitChar (n % 10))) := by
  refine Loop.run_next ?_
  have hrem : (-(n : ℤ)).tmod 10 = -((n % 10 : ℕ) : ℤ) := by
    rw [Int.neg_tmod, Int.tmod_eq_emod_of_nonneg (by omega)]
    rfl
  have hquot : (-(n : ℤ)).tdiv 10 = -((n / 10 : ℕ) : ℤ) := by
    rw [Int.neg_tdiv, Int.tdiv_eq_ediv_of_nonneg (by omega)]
    rfl
  have hchar := ofInt_tmod n
  rw [hrem] at hchar
  simp only [itoaLoop, if_neg (show ¬ -(n : ℤ) = 0 by omega), hrem, hquot]
  rw [checked_of (by omega) (by omega), checked_of (by omega) (by omega)]
  simp only [Option.bind_eq_bind, Option.bind_some, hchar, putText_succ hloc]

/-- The loop puts the digits of the number in front of the string. -/
lemma itoaLoop_run (hmax : n ≤ 2 ^ 31) (hlen : (digits n).length ≤ loc) (hloc : loc ≤ textSize)
    (hs : HasString byte (text + loc) s) : ∃ byte',
    (itoaLoop text).run (-(n : ℤ), loc, byte) = some (loc - (digits n).length, byte') ∧
    HasString byte' (text + (loc - (digits n).length)) (digits n ++ s) ∧
    ∀ x, x < text ∨ text + loc ≤ x → byte' x = byte x := by
  induction n using Nat.strong_induction_on generalizing loc byte s with
  | _ n ih =>
    rcases Nat.eq_zero_or_pos n with rfl | hn
    · refine ⟨byte, Loop.run_leave ?_, ?_, fun _ _ => rfl⟩
      · simp [itoaLoop]
      · simpa using hs
    · rw [digits_of_pos hn, List.length_append, List.length_singleton] at hlen ⊢
      obtain ⟨loc, rfl⟩ := Nat.exists_eq_add_of_le' (show 1 ≤ loc by omega)
      have hchar : digitChar (n % 10) ≠ 0 := (isDigit_digitChar (by omega)).ne_zero
      have hs : HasString byte (text + loc + 1) s := hs
      obtain ⟨byte', hrun, hs', hframe⟩ := ih (n / 10) (by omega) (by omega) (by omega) (by omega)
        (hs.cons hchar)
      rw [itoaLoop_next hn hmax hloc, Nat.add_sub_add_right]
      refine ⟨byte', hrun, ?_, fun x hx => ?_⟩
      · rwa [List.append_assoc, List.singleton_append]
      · rw [hframe x (by omega), Function.update_of_ne (by omega)]

/-! ## The string -/

/-- The digits are the numeral of the number, and room is left for the sign. -/
lemma itoaDigits_spec (text : ℕ) (hmax : n ≤ 2 ^ 31) (byte : ℕ → UInt8) : ∃ loc byte',
    itoaDigits text (-(n : ℤ)) byte = some (loc + 1, byte') ∧
    loc + 1 + (ofNat n).length = 11 ∧ HasString byte' (text + (loc + 1)) (ofNat n) ∧
    ∀ x, x < text ∨ text + textSize ≤ x → byte' x = byte x := by
  have hend : HasString (Function.update byte (text + 11) 0) (text + 11) [] :=
    Function.update_self _ _ _
  have hlen : (digits n).length ≤ 10 := length_digits_le (by omega)
  obtain ⟨byte₁, hrun, hs, hframe⟩ := itoaLoop_run hmax (by omega) (by decide) hend
  rw [List.append_nil] at hs
  rw [itoaDigits, hrun, Option.bind_eq_bind, Option.bind_some, ofNat]
  by_cases hn : n = 0
  · -- zero has no digits
    subst hn
    rw [digits_zero, List.length_nil, Nat.sub_zero] at hs ⊢
    rw [if_pos rfl, if_pos rfl]
    refine ⟨9, _, putText_succ (by decide), rfl, ?_, fun x hx => ?_⟩
    · exact HasString.cons (a := text + 10) hs (by decide)
    · rw [textSize] at hx
      rw [Function.update_of_ne (by omega), hframe x (by omega), Function.update_of_ne (by omega)]
  · have hpos := List.length_pos_iff.mpr (digits_ne_nil hn)
    obtain ⟨loc, hloc⟩ := Nat.exists_eq_add_of_le' (show 1 ≤ 11 - (digits n).length by omega)
    rw [hloc] at hs ⊢
    rw [if_neg (by omega), if_neg hn]
    refine ⟨loc, byte₁, rfl, by omega, hs, fun x hx => ?_⟩
    rw [textSize] at hx
    rw [hframe x (by omega), Function.update_of_ne (by omega)]

/-- Every number becomes its representation, the smallest one included. -/
lemma writesDecimal_itoa : WritesDecimal itoa := by
  intro text i byte
  have hmin := Int32.le_toInt i
  have hmax := Int32.toInt_lt i
  generalize i.toInt = i at hmin hmax
  have hneg : (if 0 ≤ i then checked (-i) else some i) = some (-(i.natAbs : ℤ)) := by
    split_ifs with h0
    · rw [checked_of (by omega) (by omega)]
      exact congrArg some (by omega)
    · exact congrArg some (by omega)
  obtain ⟨loc, byte₁, hdigits, hlen, hs, houtside⟩ :=
    itoaDigits_spec (n := i.natAbs) text (by omega) byte
  simp only [isDecimal_iff, itoa, hneg, hdigits, Option.bind_eq_bind, Option.bind_some]
  rw [ofInt]
  by_cases hi : i < 0
  · rw [if_pos hi, if_pos hi, putText_succ (by rw [textSize]; omega), Option.bind_some]
    have hs : HasString byte₁ (text + loc + 1) (ofNat i.natAbs) := hs
    refine ⟨_, _, _, rfl, hs.cons (by decide), rfl, Nat.le_add_right _ _, ?_, fun x hx => ?_⟩
    · rw [List.length_cons, textSize]
      omega
    · rw [← houtside x hx]
      rw [textSize] at hx
      exact Function.update_of_ne (by omega) _ _
  · rw [if_neg hi, if_neg hi, Option.bind_some]
    refine ⟨_, _, _, rfl, hs, rfl, Nat.le_add_right _ _, ?_, houtside⟩
    rw [textSize]
    omega

/-- Both functions write the representation of every number. -/
theorem itoa_decimal : WritesDecimal itoa ∧ WritesDecimal Stdlib.itoa :=
  ⟨writesDecimal_itoa, writesDecimal_itoa⟩

/-! ## Reading a number back -/

namespace Stdlib

lemma isdigit_iff : isdigit c = true ↔ IsDigit c := by
  simp [isdigit, IsDigit, UInt8.le_iff_toNat_le]

lemma tonumericdigit_eq (hc : IsDigit c) : tonumericdigit c = digitValue c := by
  have h := hc.1
  rw [tonumericdigit, if_pos (isdigit_iff.mpr hc), digitValue]
  omega

lemma atoiLoop_leave {a : ℕ} (r : ℤ) (ha : ¬ IsDigit (byte a)) :
    (atoiLoop byte).run (a, r) = some r := by
  refine Loop.run_leave ?_
  simp [atoiLoop, isdigit_iff, ha]

/-- The loop reads a string of digits, unless its value is too large. -/
lemma atoiLoop_run {a r : ℕ} (hs : HasString byte a s) (hdig : ∀ c ∈ s, IsDigit c)
    (hmax : valueFrom r s < 2 ^ 31) :
    (atoiLoop byte).run (a, (r : ℤ)) = some (valueFrom r s : ℤ) := by
  induction s generalizing a r with
  | nil =>
    have hend : byte a = 0 := hs
    exact atoiLoop_leave r (fun h => h.ne_zero hend)
  | cons c s ih =>
    obtain ⟨hc, hne, hs⟩ := hs
    have hdigit := hdig c (by simp)
    have hle := le_valueFrom (r := 10 * r + digitValue c) (s := s)
    rw [valueFrom_cons] at hmax ⊢
    rw [← ih hs (fun c hc => hdig c (by simp [hc])) hmax]
    refine Loop.run_next ?_
    simp only [atoiLoop, hc]
    rw [if_pos ⟨hne, isdigit_iff.mpr hdigit⟩, tonumericdigit_eq hdigit]
    rw [checked_of (by omega) (by omega), Option.bind_eq_bind, Option.bind_some]
    rw [checked_of (by omega) (by omega), Option.bind_some]
    push_cast
    rw [Int.mul_comm]

/-- The string of `itoa` is read back by `atoi` as the number. -/
def RoundTrip (text : ℕ) (i : Int32) (byte : ℕ → UInt8) : Prop :=
  ∃ a byte', itoa text i.toInt byte = some (a, byte') ∧ atoi byte' a = some i.toInt

/-- `atoi` knows no sign: it reads a negative number as zero. -/
lemma atoi_itoa (text : ℕ) (i : Int32) (byte : ℕ → UInt8) : ∃ a byte',
    itoa text i.toInt byte = some (a, byte') ∧ atoi byte' a = some (max i.toInt 0) := by
  obtain ⟨a, byte', s, hrun, hs, hdec, -⟩ := writesDecimal_itoa text i byte
  refine ⟨a, byte', hrun, ?_⟩
  have hmax := Int32.toInt_lt i
  rw [IsDecimal] at hdec
  split_ifs at hdec with hi
  · obtain ⟨t, rfl, -⟩ := hdec
    have hminus : ¬ IsDigit (byte' a) := by
      rw [hs.1]
      simp [IsDigit, minusChar]
    rw [atoi, atoiLoop_leave 0 hminus, max_eq_right hi.le]
  · have hrun' := atoiLoop_run (r := 0) hs hdec.isDigit (by rw [hdec.value]; omega)
    rw [hdec.value] at hrun'
    rw [atoi, max_eq_left (not_lt.mp hi), ← Nat.cast_zero, hrun']
    exact congrArg some (by omega)

/-- A number is read back exactly when it is not negative. -/
theorem atoi_itoa_iff (text : ℕ) (i : Int32) (byte : ℕ → UInt8) :
    RoundTrip text i byte ↔ 0 ≤ i.toInt := by
  obtain ⟨a, byte', hrun, hread⟩ := atoi_itoa text i byte
  constructor
  · rintro ⟨b, byte'', hrun', hread'⟩
    obtain ⟨rfl, rfl⟩ := Prod.mk.inj (Option.some.inj (hrun.symm.trans hrun'))
    have heq := Option.some.inj (hread.symm.trans hread')
    omega
  · intro hi
    rw [max_eq_left hi] at hread
    exact ⟨a, byte', hrun, hread⟩

/-- The time zone `-6` is read back as zero. -/
theorem not_atoi_itoa : ¬ ∀ text i byte, RoundTrip text i byte := by
  intro h
  obtain ⟨a, byte', hrun, hread⟩ := atoi_itoa 0 (-6) fun _ => 0
  obtain ⟨b, byte'', hrun', hread'⟩ := h 0 (-6) fun _ => 0
  obtain ⟨rfl, rfl⟩ := Prod.mk.inj (Option.some.inj (hrun.symm.trans hrun'))
  exact absurd (hread.symm.trans hread') (by decide)

end Stdlib

end SerpaeOS
