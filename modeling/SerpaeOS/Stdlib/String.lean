import SerpaeOS.Lib.CString
import SerpaeOS.Lib.Loop
import SerpaeOS.Lib.Tokens

/-!
# The strings of a user program

`strlen`, `strncpy` and `strtok` of the user library; the kernel has the same `strncpy`.
`strtok` edits the string and keeps its position in a static variable, which the call without
string and delimiters resets.  A loop that does not end is `none`.
-/

namespace SerpaeOS.Stdlib

open Bytes Prog Tokens

/-! ## Copying -/

/-- The loop of `strlen`. -/
def strlenLoop (byte : ℕ → UInt8) (ptr : ℕ) (i : ℕ) : Option ℕ :=
  Loop.run ⟨fun (ptr, i) => some (if byte ptr = 0 then .inr i else .inl (ptr + 1, i + 1))⟩ (ptr, i)

lemma strlenLoop_step (byte : ℕ → UInt8) (ptr i : ℕ) :
    strlenLoop byte ptr i =
      if byte ptr = 0 then some i else strlenLoop byte (ptr + 1) (i + 1) := by
  by_cases h : byte ptr = 0
  · rw [if_pos h]
    exact Loop.run_leave (congrArg some (if_pos h))
  · rw [if_neg h]
    exact Loop.run_next (congrArg some (if_neg h))

/-- `strlen`. -/
def strlen (byte : ℕ → UInt8) (ptr : ℕ) : Option ℕ := strlenLoop byte ptr 0

/-- The loop of `strncpy` with `n` characters to go, and the end of the string. -/
def strncpyLoop : ℕ → ℕ → ℕ → (ℕ → UInt8) → ℕ → UInt8
  | 0, dest, _, byte => Function.update byte dest 0
  | n + 1, dest, src, byte =>
    if byte src = 0 then Function.update byte dest 0
    else strncpyLoop n (dest + 1) (src + 1) (Function.update byte dest (byte src))

/-- `strncpy`, which always ends the string. -/
def strncpy (dest src : ℕ) (count : ℕ) (byte : ℕ → UInt8) : ℕ → UInt8 :=
  strncpyLoop (count - 1) dest src byte

/-! ## Tokens -/

/-- The memory of a program, and the static variable `sp` of `strtok`. -/
structure Strings where
  byte : ℕ → UInt8
  sp : ℕ

abbrev StringsProg := StateT Strings Option

/-- The loop of `strtok` over the delimiters in front of a token. -/
def skipDelimiters (delimiters : List UInt8) (byte : ℕ → UInt8) (pStart : ℕ) : Option ℕ :=
  Loop.run
    ⟨fun pStart => some (if byte pStart ∈ delimiters then .inl (pStart + 1) else .inr pStart)⟩
    pStart

/-- The loop of `strtok` over the token: the delimiter behind it is overwritten. -/
def endToken (delimiters : List UInt8) (byte : ℕ → UInt8) (sp : ℕ) : Option Strings :=
  Loop.run ⟨fun sp => some <|
    if byte sp = 0 then .inr ⟨byte, sp⟩
    else if byte sp ∈ delimiters then .inr ⟨Function.update byte sp 0, sp + 1⟩
    else .inl (sp + 1)⟩ sp

/-- The part of `strtok` with a position and delimiters. -/
def strtokFrom (delimiters : List UInt8) (sp : ℕ) : StringsProg ℕ := fun t => do
  let pStart ← skipDelimiters delimiters t.byte sp
  if t.byte pStart = 0 then some (0, { t with sp := 0 })
  else do
    let t ← endToken delimiters t.byte pStart
    some (pStart, t)

/-- `strtok`; the delimiters `none` are `NULL`, which come without a string. -/
def strtok (s : ℕ) (delimiters : Option (List UInt8)) : StringsProg ℕ := fun t =>
  match delimiters with
  | none => do
    let _ ← strlen t.byte 0
    if s ≠ 0 then none
    else if t.sp = 0 then some (0, t)
    else some (0, { t with sp := 0 })
  | some delimiters =>
    if s = 0 ∧ t.sp = 0 then some (0, t)
    else strtokFrom delimiters (if t.sp = 0 then s else t.sp) t

variable {byte : ℕ → UInt8} {dest src a : ℕ} {n count : ℕ} {l : List UInt8}

/-! ## What is copied -/

/-- Only the bytes from the destination on change. -/
lemma strncpyLoop_of_outside (n : ℕ) : ∀ {dest src : ℕ} {byte : ℕ → UInt8},
    a < dest ∨ dest + n < a → strncpyLoop n dest src byte a = byte a := by
  induction n with
  | zero => exact fun ha => Function.update_of_ne (by omega) _ _
  | succ n ih =>
    intro dest src byte ha
    rw [strncpyLoop]
    split_ifs
    · exact Function.update_of_ne (by omega) _ _
    · rw [ih (by omega), Function.update_of_ne (by omega)]

lemma strncpyLoop_hasString (n : ℕ) : ∀ {l : List UInt8} {dest src : ℕ} {byte : ℕ → UInt8},
    HasString byte src l → src + l.length < dest ∨ dest + n < src →
    HasString (strncpyLoop n dest src byte) dest (l.take n) := by
  induction n with
  | zero =>
    intro l dest src byte _ _
    rw [List.take_zero]
    exact Function.update_self _ _ _
  | succ n ih =>
    intro l dest src byte hsrc happart
    rcases l with _ | ⟨c, l⟩
    · rw [strncpyLoop, if_pos (by exact hsrc)]
      exact Function.update_self _ _ _
    obtain ⟨hc, hne, hrest⟩ := hsrc
    rw [List.length_cons] at happart
    rw [strncpyLoop, hc, if_neg hne, List.take_succ_cons]
    refine ⟨?_, hne, ih (hrest.congr fun x hx hx' => ?_) (by omega)⟩
    · rw [strncpyLoop_of_outside n (by omega), Function.update_self]
    · exact Function.update_of_ne (by omega) _ _

lemma strncpy_of_outside (hpos : 0 < count) (ha : a < dest ∨ dest + count ≤ a) :
    strncpy dest src count byte a = byte a := strncpyLoop_of_outside _ (by omega)

/-- The copy of a string is cut to what there is room for. -/
lemma strncpy_hasString (hpos : 0 < count) (hsrc : HasString byte src l)
    (happart : src + l.length < dest ∨ dest + count ≤ src) :
    HasString (strncpy dest src count byte) dest (l.take (count - 1)) :=
  strncpyLoop_hasString _ hsrc (by omega)

/-! ## What `strtok` finds -/

variable {delimiters : List UInt8} {sp : ℕ}

lemma skipDelimiters_step (pStart : ℕ) : skipDelimiters delimiters byte pStart =
    if byte pStart ∈ delimiters then skipDelimiters delimiters byte (pStart + 1)
    else some pStart := by
  by_cases h : byte pStart ∈ delimiters
  · rw [if_pos h]
    exact Loop.run_next (congrArg some (if_pos h))
  · rw [if_neg h]
    exact Loop.run_leave (congrArg some (if_neg h))

lemma endToken_step (sp : ℕ) : endToken delimiters byte sp =
    if byte sp = 0 then some ⟨byte, sp⟩
    else if byte sp ∈ delimiters then some ⟨Function.update byte sp 0, sp + 1⟩
    else endToken delimiters byte (sp + 1) := by
  by_cases hzero : byte sp = 0
  · rw [if_pos hzero]
    exact Loop.run_leave (congrArg some (if_pos hzero))
  · rw [if_neg hzero]
    by_cases h : byte sp ∈ delimiters
    · rw [if_pos h]
      exact Loop.run_leave (congrArg some ((if_neg hzero).trans (if_pos h)))
    · rw [if_neg h]
      exact Loop.run_next (congrArg some ((if_neg hzero).trans (if_neg h)))

lemma skipDelimiters_eq (hzero : 0 ∉ delimiters) : ∀ {l : List UInt8} {a : ℕ},
    HasString byte a l → skipDelimiters delimiters byte a =
      some (a + (l.takeWhile (· ∈ delimiters)).length) := by
  intro l
  induction l with
  | nil =>
    intro a h
    have hend : byte a = 0 := h
    rw [skipDelimiters_step, hend, if_neg hzero]
    rfl
  | cons c l ih =>
    rintro a ⟨hc, -, hrest⟩
    rw [skipDelimiters_step, hc]
    by_cases hmem : c ∈ delimiters
    · rw [if_pos hmem, ih hrest, List.takeWhile_cons_of_pos (by simpa using hmem), List.length_cons]
      congr 1
      omega
    · rw [if_neg hmem, List.takeWhile_cons_of_neg (by simpa using hmem)]
      rfl

/-- The loop over a token ends at the delimiter behind it, or at the end of the string. -/
lemma endToken_eq : ∀ {l : List UInt8} {a : ℕ}, HasString byte a l →
    endToken delimiters byte a =
      some (match l.dropWhile fun c => !decide (c ∈ delimiters) with
        | [] => ⟨byte, a + l.length⟩
        | _ :: _ =>
          let behind := a + (l.takeWhile fun c => !decide (c ∈ delimiters)).length
          ⟨Function.update byte behind 0, behind + 1⟩) := by
  intro l
  induction l with
  | nil =>
    intro a h
    have hend : byte a = 0 := h
    rw [endToken_step, if_pos hend]
    rfl
  | cons c l ih =>
    rintro a ⟨hc, hne, hrest⟩
    rw [endToken_step, hc, if_neg hne]
    by_cases hmem : c ∈ delimiters
    · rw [if_pos hmem, List.takeWhile_cons_of_neg (by simpa using hmem),
        List.dropWhile_cons_of_neg (by simpa using hmem)]
      rfl
    · rw [if_neg hmem, ih hrest, List.takeWhile_cons_of_pos (by simpa using hmem),
        List.dropWhile_cons_of_pos (by simpa using hmem), List.length_cons, List.length_cons,
        Nat.add_right_comm, Nat.add_assoc, Nat.add_right_comm a 1]
      rfl

/-- What the loop over a token leaves behind: the token is cut off, and the position is behind the
delimiter. -/
lemma endToken_spec {l : List UInt8} {a : ℕ} (h : HasString byte a l) :
    ∃ t, endToken delimiters byte a = some t ∧
      HasString t.byte a (l.takeWhile fun c => !decide (c ∈ delimiters)) ∧
      HasString t.byte t.sp (l.dropWhile fun c => !decide (c ∈ delimiters)).tail ∧
      (a ≤ t.sp ∧ t.sp + (l.dropWhile fun c => !decide (c ∈ delimiters)).tail.length ≤
        a + l.length) ∧
      ∀ x, x < a ∨ a + l.length < x → t.byte x = byte x := by
  have hsplit := List.takeWhile_append_dropWhile (p := fun c => !decide (c ∈ delimiters)) (l := l)
  refine ⟨_, endToken_eq h, ?_⟩
  generalize (l.takeWhile fun c => !decide (c ∈ delimiters)) = token at hsplit ⊢
  generalize (l.dropWhile fun c => !decide (c ∈ delimiters)) = left at hsplit ⊢
  rcases left with _ | ⟨d, rest⟩
  · -- no delimiter comes behind the token
    obtain rfl := hsplit
    have hend := h.drop
    rw [List.append_nil] at h ⊢
    exact ⟨h, hend, ⟨Nat.le_add_right _ _, le_rfl⟩, fun _ _ => rfl⟩
  · obtain rfl := hsplit
    obtain ⟨-, -, hrest⟩ := h.drop
    rw [List.length_append, List.length_cons, List.tail_cons]
    refine ⟨h.cut, hrest.congr fun x hx _ => ?_, ⟨?_, ?_⟩, fun x hx => ?_⟩
    · exact Function.update_of_ne (by omega) _ _
    · exact Nat.le_succ_of_le (Nat.le_add_right _ _)
    · dsimp only
      omega
    · exact Function.update_of_ne (by omega) _ _

/-- `strtok` is in a string that lies between two addresses, and has these tokens to come. -/
def Pending (delimiters : List UInt8) (lo hi : ℕ) (t : Strings) (ts : List (List UInt8)) : Prop :=
  ∃ rest, HasString t.byte t.sp rest ∧ tokens (fun c => decide (c ∈ delimiters)) rest = ts ∧
    lo ≤ t.sp ∧ t.sp + rest.length ≤ hi

variable {lo hi : ℕ} {t : Strings} {token : List UInt8} {ts : List (List UInt8)}

lemma Pending.congr (h : Pending delimiters lo hi t ts)
    (heq : ∀ x, lo ≤ x → x ≤ hi → byte x = t.byte x) :
    Pending delimiters lo hi { t with byte := byte } ts := by
  obtain ⟨rest, hrest, htokens, hle, hlen⟩ := h
  exact ⟨rest, hrest.congr fun x hx hx' => heq x (by omega) (by omega), htokens, hle, hlen⟩

/-- The call without string and delimiters gives the position up, if `strlen` returns. -/
lemma strtok_reset (hnull : (strlen t.byte 0).isSome) :
    strtok 0 none t = some (0, { t with sp := 0 }) := by
  obtain ⟨n, hn⟩ := Option.isSome_iff_exists.mp hnull
  simp only [strtok, hn, Option.bind_eq_bind, Option.bind_some, ne_eq, not_true, if_false]
  split_ifs with hsp
  · rw [← hsp]
  · rfl

/-- A call with a string starts in it. -/
lemma strtok_start {s : ℕ} (hs : s ≠ 0) (ht : t.sp = 0) :
    strtok s (some delimiters) t = strtok 0 (some delimiters) { t with sp := s } := by
  simp only [strtok, ht, hs, false_and, and_false, if_true, if_false]
  rfl

/-- The delimiters in front are skipped: what is left begins with a token, if there is one. -/
lemma Pending.skip (h : Pending delimiters lo hi t ts) (hzero : 0 ∉ delimiters) :
    ∃ pStart l, skipDelimiters delimiters t.byte t.sp = some pStart ∧ HasString t.byte pStart l ∧
      tokens (fun c => decide (c ∈ delimiters)) l = ts ∧ (∀ c ∈ l.head?, c ∉ delimiters) ∧
      lo ≤ pStart ∧ pStart + l.length ≤ hi := by
  obtain ⟨rest, hrest, htokens, hle, hlen⟩ := h
  have hsplit := List.takeWhile_append_dropWhile (p := (· ∈ delimiters)) (l := rest)
  refine ⟨_, rest.dropWhile (· ∈ delimiters), skipDelimiters_eq hzero hrest, ?_, ?_,
    fun c hc => ?_, by omega, ?_⟩
  · rw [← hsplit] at hrest
    exact hrest.drop
  · rw [tokens_dropWhile, htokens]
  · have hhead := List.head?_dropWhile_not (· ∈ delimiters) rest
    rw [Option.mem_def.mp hc] at hhead
    simpa using hhead
  · have hlength := congrArg List.length hsplit
    rw [List.length_append] at hlength
    omega

/-- After the last token the position is given up. -/
lemma Pending.strtok_nil (h : Pending delimiters lo hi t []) (hzero : 0 ∉ delimiters)
    (hlo : 0 < lo) : strtok 0 (some delimiters) t = some (0, { t with sp := 0 }) := by
  obtain ⟨pStart, l, hskip, hl, htokens, hhead, -⟩ := h.skip hzero
  have hsp : t.sp ≠ 0 := by
    obtain ⟨-, -, -, hle, -⟩ := h
    omega
  have hnil : l = [] := by
    rcases l with _ | ⟨c, l⟩
    · rfl
    · rw [tokens_takeWhile (by simpa using hhead c rfl)] at htokens
      exact absurd htokens (List.cons_ne_nil _ _)
  subst hnil
  have hend : t.byte pStart = 0 := hl
  simp only [strtok, hsp, and_false, if_false, strtokFrom, hskip, Option.bind_eq_bind,
    Option.bind_some, hend, if_true]

/-- The next token is cut off. -/
lemma Pending.strtok_cons (h : Pending delimiters lo hi t (token :: ts)) (hzero : 0 ∉ delimiters)
    (hlo : 0 < lo) : ∃ q t', strtok 0 (some delimiters) t = some (q, t') ∧
      HasString t'.byte q token ∧ (lo ≤ q ∧ q + token.length ≤ hi) ∧
      Pending delimiters lo hi t' ts ∧
      ∀ x, x < lo ∨ hi < x → t'.byte x = t.byte x := by
  obtain ⟨pStart, l, hskip, hl, htokens, hhead, hle, hlen⟩ := h.skip hzero
  have hsp : t.sp ≠ 0 := by
    obtain ⟨-, -, -, hle, -⟩ := h
    omega
  rcases l with _ | ⟨c, l⟩
  · rw [tokens_nil] at htokens
    exact absurd htokens.symm (List.cons_ne_nil _ _)
  have hne : t.byte pStart ≠ 0 := by
    rw [hl.1]
    exact hl.2.1
  obtain ⟨t', hend, htoken, hleft, hbound, hframe⟩ := @endToken_spec _ delimiters _ _ hl
  rw [tokens_takeWhile (by simpa using hhead c rfl)] at htokens
  obtain ⟨rfl, rfl⟩ := List.cons_eq_cons.mp htokens
  refine ⟨pStart, t', ?_, htoken, ⟨hle, ?_⟩, ⟨_, hleft, rfl, by omega, by omega⟩, fun x hx => ?_⟩
  · simp only [strtok, hsp, and_false, if_false, strtokFrom, hskip, Option.bind_eq_bind,
      Option.bind_some, hne, hend]
  · have hlength := (List.takeWhile_prefix (l := c :: l)
      (fun c => !decide (c ∈ delimiters))).length_le
    omega
  · exact hframe x (by omega)

end SerpaeOS.Stdlib
