import Mathlib.Data.Nat.Notation
import Mathlib.Data.UInt
import Mathlib.Data.List.Range
import Mathlib.Logic.Function.Basic

/-!
# Sequences of bytes

A sequence of bytes is a function on positions.  `u16le` and `u32le` read a little-endian
number of two or four bytes at a position, `slice` a list of bytes; `store` replaces the
bytes from a position on by a list.
-/

namespace Bytes

variable {b b' : ℕ → UInt8} {a a' : ℕ}

/-- The two-byte number at a position. -/
def u16le (b : ℕ → UInt8) (a : ℕ) : ℕ := (b a).toNat + 256 * (b (a + 1)).toNat

/-- The four-byte number at a position. -/
def u32le (b : ℕ → UInt8) (a : ℕ) : ℕ := u16le b a + 65536 * u16le b (a + 2)

lemma u16le_lt (b : ℕ → UInt8) (a : ℕ) : u16le b a < 2 ^ 16 := by
  have h0 := (b a).toNat_lt
  have h1 := (b (a + 1)).toNat_lt
  simp only [u16le]
  omega

lemma u32le_lt (b : ℕ → UInt8) (a : ℕ) : u32le b a < 2 ^ 32 := by
  have h0 := u16le_lt b a
  have h1 := u16le_lt b (a + 2)
  simp only [u32le]
  omega

/-- The number with the given bytes, lowest byte first. -/
def number (l : List UInt8) : ℕ := l.foldr (fun u n => u.toNat + 256 * n) 0

lemma number_lt (l : List UInt8) : number l < 256 ^ l.length := by
  induction l with
  | nil => simp [number]
  | cons u l ih =>
    have hu := u.toNat_lt
    simp only [number, List.foldr_cons, List.length_cons] at *
    rw [Nat.pow_succ]
    omega

/-- A number of a given size determines its bytes. -/
lemma number_inj : ∀ {l l' : List UInt8}, l.length = l'.length → number l = number l' → l = l'
  | [], [], _, _ => rfl
  | u :: l, u' :: l', hlen, h => by
    have hu := u.toNat_lt
    have hu' := u'.toNat_lt
    have hcons : ∀ (x : UInt8) (t : List UInt8), number (x :: t) = x.toNat + 256 * number t :=
      fun _ _ => rfl
    rw [hcons, hcons] at h
    have hfirst : u = u' := UInt8.toNat_inj.mp (by omega)
    rw [hfirst, number_inj (Nat.succ.inj hlen) (by omega)]

/-- The low bytes of a number, lowest byte first. -/
def numberBytes : ℕ → ℕ → List UInt8
  | 0, _ => []
  | size + 1, n => UInt8.ofNat n :: numberBytes size (n / 256)

@[simp] lemma length_numberBytes (size n : ℕ) : (numberBytes size n).length = size := by
  induction size generalizing n with
  | zero => rfl
  | succ size ih => rw [numberBytes, List.length_cons, ih]

lemma number_numberBytes_mod (size n : ℕ) : number (numberBytes size n) = n % 256 ^ size := by
  induction size generalizing n with
  | zero => rw [Nat.pow_zero, Nat.mod_one]; rfl
  | succ size ih =>
    have hrest := ih (n / 256)
    have hsplit : n % 256 ^ (size + 1) = n % 256 + 256 * (n / 256 % 256 ^ size) := by
      rw [Nat.pow_succ', Nat.mod_mul]
    rw [number] at hrest
    rw [numberBytes, number, List.foldr_cons, hrest, UInt8.toNat_ofNat', hsplit]

lemma number_numberBytes {size n : ℕ} (h : n < 256 ^ size) :
    number (numberBytes size n) = n := by
  rw [number_numberBytes_mod, Nat.mod_eq_of_lt h]

/-- A number only depends on its own bytes. -/
lemma u16le_congr (h : ∀ i < 2, b (a + i) = b' (a' + i)) : u16le b a = u16le b' a' := by
  have h0 := h 0 (by omega)
  have h1 := h 1 (by omega)
  simp only [Nat.add_zero] at h0
  rw [u16le, u16le, h0, h1]

lemma u32le_congr (h : ∀ i < 4, b (a + i) = b' (a' + i)) : u32le b a = u32le b' a' := by
  have h0 : u16le b a = u16le b' a' := u16le_congr fun i hi => h i (by omega)
  have h2 : u16le b (a + 2) = u16le b' (a' + 2) := by
    refine u16le_congr fun i hi => ?_
    have := h (2 + i) (by omega)
    rwa [← Nat.add_assoc, ← Nat.add_assoc] at this
  rw [u32le, u32le, h0, h2]

/-- Two areas, given by their positions and lengths, have a position in common. -/
def Overlap (p n q m : ℕ) : Prop := p < q + m ∧ q < p + n

instance (p n q m : ℕ) : Decidable (Overlap p n q m) := inferInstanceAs (Decidable (_ ∧ _))

lemma Overlap.symm {p n q m : ℕ} (h : Overlap p n q m) : Overlap q m p n := ⟨h.2, h.1⟩

/-! ## Slices -/

/-- The `n` bytes from a position on. -/
def slice (b : ℕ → UInt8) (a n : ℕ) : List UInt8 := (List.range n).map fun i => b (a + i)

@[simp] lemma length_slice (b : ℕ → UInt8) (a n : ℕ) : (slice b a n).length = n := by
  simp [slice]

lemma slice_eq_iff {n : ℕ} :
    slice b a n = slice b' a' n ↔ ∀ i < n, b (a + i) = b' (a' + i) := by
  simp [slice]

lemma slice_add (b : ℕ → UInt8) (a m n : ℕ) :
    slice b a (m + n) = slice b a m ++ slice b (a + m) n := by
  simp only [slice, List.range_add, List.map_append, List.map_map]
  congr 1
  refine List.map_congr_left fun i _ => ?_
  rw [Function.comp_apply, Nat.add_assoc]

/-- A slice is made of two others. -/
lemma slice_eq_append_iff {c d : ℕ → UInt8} {m n : ℕ} :
    slice b 0 (m + n) = slice c 0 m ++ slice d 0 n ↔
      (∀ i < m, b i = c i) ∧ ∀ i < n, b (m + i) = d i := by
  rw [slice_add, Nat.zero_add]
  constructor
  · intro h
    obtain ⟨h1, h2⟩ := List.append_inj h (by simp)
    rw [slice_eq_iff] at h1 h2
    simp only [Nat.zero_add] at h1 h2
    exact ⟨h1, h2⟩
  · rintro ⟨h1, h2⟩
    have hfirst : slice b 0 m = slice c 0 m := slice_eq_iff.mpr (by simpa using h1)
    have hsecond : slice b m n = slice d 0 n := slice_eq_iff.mpr (by simpa using h2)
    rw [hfirst, hsecond]

lemma getD_slice {n i : ℕ} (hi : i < n) : (slice b a n).getD i 0 = b (a + i) := by
  simp [slice, List.getD, hi]

/-- The bytes with a list stored from a position on. -/
def store (b : ℕ → UInt8) (a : ℕ) (l : List UInt8) : ℕ → UInt8 :=
  fun x => if a ≤ x ∧ x < a + l.length then l.getD (x - a) 0 else b x

lemma store_of_lt {l : List UInt8} {x : ℕ} (h : x < a ∨ a + l.length ≤ x) :
    store b a l x = b x := by
  rw [store, if_neg (by omega)]

lemma store_add {l : List UInt8} {i : ℕ} (h : i < l.length) :
    store b a l (a + i) = l.getD i 0 := by
  rw [store, if_pos (by omega), Nat.add_sub_cancel_left]

lemma slice_store_self (l : List UInt8) : slice (store b a l) a l.length = l := by
  refine List.ext_getElem (length_slice _ _ _) fun i hi hl => ?_
  simp only [slice, List.getElem_map, List.getElem_range]
  rw [store_add hl]
  simp [List.getD, hl]

lemma u32le_eq_number (b : ℕ → UInt8) (a : ℕ) : u32le b a = number (slice b a 4) := by
  simp only [slice, number, List.range, List.range.loop, List.map_cons, List.map_nil,
    List.foldr_cons, List.foldr_nil, u32le, u16le, Nat.add_zero, Nat.add_assoc, Nat.reduceAdd]
  omega

lemma u16le_eq_number (b : ℕ → UInt8) (a : ℕ) : u16le b a = number (slice b a 2) := by
  simp only [slice, number, List.range, List.range.loop, List.map_cons, List.map_nil,
    List.foldr_cons, List.foldr_nil, u16le, Nat.add_zero]
  omega

/-- The number that is read is the number that was stored. -/
lemma u16le_store {n : ℕ} (hn : n < 2 ^ 16) : u16le (store b a (numberBytes 2 n)) a = n := by
  have hself := slice_store_self (b := b) (a := a) (numberBytes 2 n)
  rw [length_numberBytes] at hself
  rw [u16le_eq_number, hself]
  exact number_numberBytes hn

lemma u32le_store_mod (n : ℕ) : u32le (store b a (numberBytes 4 n)) a = n % 2 ^ 32 := by
  have hself := slice_store_self (b := b) (a := a) (numberBytes 4 n)
  rw [length_numberBytes] at hself
  rw [u32le_eq_number, hself]
  exact number_numberBytes_mod 4 n

lemma u32le_store {n : ℕ} (hn : n < 2 ^ 32) : u32le (store b a (numberBytes 4 n)) a = n := by
  rw [u32le_store_mod, Nat.mod_eq_of_lt hn]

/-- Storing elsewhere leaves a slice as it is. -/
lemma slice_store_of_disjoint {l : List UInt8} {x n : ℕ} (h : x + n ≤ a ∨ a + l.length ≤ x) :
    slice (store b a l) x n = slice b x n := by
  rw [slice_eq_iff]
  intro i hi
  rw [store_of_lt (by omega)]

lemma store_nil : store b a [] = b := by
  funext x
  rw [store_of_lt (by simp; omega)]

lemma store_cons (u : UInt8) (l : List UInt8) :
    store (Function.update b a u) (a + 1) l = store b a (u :: l) := by
  funext x
  rcases Nat.lt_trichotomy x a with h | rfl | h
  · rw [store_of_lt (by omega), store_of_lt (by omega), Function.update_of_ne (by omega)]
  · rw [store_of_lt (by omega), Function.update_self, store, if_pos (by simp), Nat.sub_self]
    rfl
  · by_cases hx : x < a + 1 + l.length
    · rw [store, if_pos (by omega), store, if_pos (by simp; omega),
        show x - a = (x - (a + 1)) + 1 by omega, List.getD_cons_succ]
    · rw [store_of_lt (by omega), store_of_lt (by simp; omega),
        Function.update_of_ne (by omega)]

/-- A list can be stored in two parts. -/
lemma store_append (l₁ l₂ : List UInt8) :
    store b a (l₁ ++ l₂) = store (store b a l₁) (a + l₁.length) l₂ := by
  induction l₁ generalizing b a with
  | nil => rw [List.nil_append, store_nil, List.length_nil, Nat.add_zero]
  | cons u l₁ ih =>
    rw [List.cons_append, ← store_cons, ih, store_cons, List.length_cons, Nat.add_assoc,
      Nat.add_comm 1]

lemma slice_update_of_le {x n : ℕ} {c : UInt8} (h : a + n ≤ x) :
    slice (Function.update b x c) a n = slice b a n :=
  slice_eq_iff.mpr fun i hi => Function.update_of_ne (by omega) _ _

lemma slice_eq_concat_iff {l : List UInt8} {c : UInt8} :
    slice b a (l ++ [c]).length = l ++ [c] ↔
      slice b a l.length = l ∧ b (a + l.length) = c := by
  have hone : slice b (a + l.length) 1 = [b (a + l.length)] := rfl
  rw [List.length_append, List.length_singleton, slice_add, hone]
  refine ⟨fun h => ?_, fun ⟨h, hc⟩ => by rw [h, hc]⟩
  obtain ⟨hl, hlast⟩ := List.append_inj' h rfl
  exact ⟨hl, (List.cons.inj hlast).1⟩

/-! ## Memory behind a translation of addresses -/

/-- The memory as it is seen through a translation. -/
def view (f : ℕ → ℕ) (b : ℕ → UInt8) : ℕ → UInt8 := fun a => b (f a)

/-- The memory with a list stored through a translation. -/
def storeVia (f : ℕ → ℕ) (b : ℕ → UInt8) : ℕ → List UInt8 → ℕ → UInt8
  | _, [] => b
  | a, u :: l => storeVia f (Function.update b (f a) u) (a + 1) l

end Bytes
