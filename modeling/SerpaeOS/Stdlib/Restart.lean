import SerpaeOS.Stdlib.String

/-!
# `strtok` with another string

The position of `strtok` outlives the string it is in.  A call with a string takes the string only
when there is no position, and goes on at the position otherwise: the earlier scan has to be read
to its end, up to the call that returns `NULL`, before another one can start.
-/

namespace SerpaeOS.Stdlib

open Bytes Prog Tokens

/-- The states that a program can be in, with what the last call of `strtok` returned.  Between
the calls it writes its memory. -/
inductive History : Strings → ℕ → Prop
  | start (byte : ℕ → UInt8) : History ⟨byte, 0⟩ 0
  | write {t : Strings} {last : ℕ} (byte : ℕ → UInt8) (h : History t last) :
      History { t with byte := byte } last
  | call {t t' : Strings} {last q s : ℕ} {delimiters : Option (List UInt8)} (h : History t last)
      (hcall : strtok s delimiters t = some (q, t')) : History t' q

/-- A call of `strtok` with `s`, and calls with `NULL` behind it, return the maximal parts without
delimiters of the text at `a`, one after the other and each as a string in its place, and then
`NULL`. -/
inductive ReadsAll (delimiters : List UInt8) : ℕ → Strings → ℕ → List UInt8 → Prop
  | done {s a : ℕ} {t t' : Strings} {text : List UInt8} (htext : ∀ c ∈ text, c ∈ delimiters)
      (hcall : strtok s (some delimiters) t = some (0, t')) : ReadsAll delimiters s t a text
  | token {s a : ℕ} {t t' : Strings} {skipped token rest : List UInt8}
      (hskipped : ∀ c ∈ skipped, c ∈ delimiters) (hne : token ≠ [])
      (htoken : ∀ c ∈ token, c ∉ delimiters) (hrest : ∀ c ∈ rest.head?, c ∈ delimiters)
      (hcall : strtok s (some delimiters) t = some (a + skipped.length, t'))
      (hstring : HasString t'.byte (a + skipped.length) token)
      (hmore : ReadsAll delimiters 0 t' (a + skipped.length + token.length) rest) :
      ReadsAll delimiters s t a (skipped ++ (token ++ rest))

/-- The first byte from `a` on that is not a delimiter is at `p`. -/
structure FirstOther (byte : ℕ → UInt8) (delimiters : List UInt8) (a p : ℕ) : Prop where
  le : a ≤ p
  skipped : ∀ x, a ≤ x → x < p → byte x ∈ delimiters
  other : byte p ∉ delimiters

/-- A scan from `a` and one from `b` begin with the same token, or both find only delimiters. -/
def ScansAlike (byte : ℕ → UInt8) (delimiters : List UInt8) (a b : ℕ) : Prop :=
  ∃ p q, FirstOther byte delimiters a p ∧ FirstOther byte delimiters b q ∧
    (p = q ∨ byte p = 0 ∧ byte q = 0)

variable {byte : ℕ → UInt8} {delimiters : List UInt8} {s a b p q last : ℕ} {t t' : Strings}
  {text : List UInt8}

/-! ## The two loops -/

lemma FirstOther.unique (h : FirstOther byte delimiters a p) (h' : FirstOther byte delimiters a q) :
    p = q := by
  rcases Nat.lt_trichotomy p q with hlt | heq | hlt
  · exact absurd (h'.skipped p h.le hlt) h.other
  · exact heq
  · exact absurd (h.skipped q h'.le hlt) h'.other

lemma FirstOther.of_succ (ha : byte a ∈ delimiters) (h : FirstOther byte delimiters (a + 1) p) :
    FirstOther byte delimiters a p := by
  refine ⟨by have := h.le; omega, fun x hx hxp => ?_, h.other⟩
  rcases hx.eq_or_lt with rfl | hx
  · exact ha
  · exact h.skipped x hx hxp

/-- The loop over the delimiters finds the first byte that is none. -/
lemma skipDelimiters_iff :
    skipDelimiters delimiters byte a = some p ↔ FirstOther byte delimiters a p := by
  constructor
  · intro h
    refine Loop.run_induction (P := fun a p => FirstOther byte delimiters a p) ?_ ?_ h
    · intro a p hbody
      dsimp only at hbody
      split_ifs at hbody with ha
      · cases hbody
      · cases hbody
        exact ⟨le_rfl, fun x hx hx' => absurd hx' (by omega), ha⟩
    · intro a a' p hbody hrest
      dsimp only at hbody
      split_ifs at hbody with ha
      · cases hbody
        exact hrest.of_succ ha
      · cases hbody
  · intro h
    obtain ⟨n, rfl⟩ := Nat.exists_eq_add_of_le h.le
    induction n generalizing a with
    | zero => exact (skipDelimiters_step a).trans (if_neg h.other)
    | succ n ih =>
      have hstep : a + 1 + n = a + (n + 1) := by omega
      rw [skipDelimiters_step, if_pos (h.skipped a le_rfl (by omega)), ih, hstep]
      rw [hstep]
      exact ⟨by omega, fun x hx hx' => h.skipped x (by omega) hx', h.other⟩

/-- In a string there is such a byte. -/
lemma firstOther_of_hasString (hzero : 0 ∉ delimiters) (h : HasString byte a text) :
    FirstOther byte delimiters a (a + (text.takeWhile (· ∈ delimiters)).length) :=
  skipDelimiters_iff.mp (skipDelimiters_eq hzero h)

/-- It is the end of the string if there are only delimiters in it. -/
lemma byte_skipped_iff (h : HasString byte a text) :
    byte (a + (text.takeWhile (· ∈ delimiters)).length) = 0 ↔ ∀ c ∈ text, c ∈ delimiters := by
  have hsplit := List.takeWhile_append_dropWhile (p := (· ∈ delimiters)) (l := text)
  have hdrop := h
  rw [← hsplit] at hdrop
  have hdrop := hdrop.drop
  rcases hrest : text.dropWhile (· ∈ delimiters) with _ | ⟨c, rest⟩
  · rw [hrest] at hdrop
    refine iff_of_true hdrop fun c hc => ?_
    simpa using List.dropWhile_eq_nil_iff.mp hrest c hc
  · rw [hrest] at hdrop hsplit
    have hne := hdrop.2.1
    rw [← hdrop.1] at hne
    refine iff_of_false hne fun hall => ?_
    have hhead := List.head?_dropWhile_not (· ∈ delimiters) text
    rw [hrest] at hhead
    have hc : c ∈ text := by
      rw [← hsplit]
      simp
    simp [hall c hc] at hhead

/-- The loop over a token goes forward. -/
lemma le_of_endToken (h : endToken delimiters byte a = some t) : a ≤ t.sp := by
  refine Loop.run_induction (P := fun a t => a ≤ Strings.sp t) ?_ ?_ h
  · intro a t hbody
    dsimp only at hbody
    split_ifs at hbody with hzero hmem
    · cases hbody
      exact le_rfl
    · cases hbody
      exact Nat.le_succ a
    · cases hbody
  · intro a a' t hbody hle
    dsimp only at hbody
    split_ifs at hbody with hzero hmem
    · cases hbody
    · cases hbody
    · cases hbody
      exact (Nat.le_succ a).trans hle

/-! ## A scan -/

variable {skipped token rest gap : List UInt8}

/-- In a string of delimiters there is no token. -/
lemma strtokFrom_nil (hzero : 0 ∉ delimiters) (h : HasString t.byte a text)
    (htext : ∀ c ∈ text, c ∈ delimiters) :
    strtokFrom delimiters a t = some (0, { t with sp := 0 }) := by
  have hskip := skipDelimiters_eq hzero h
  rw [List.takeWhile_eq_self_iff.mpr fun c hc => by simpa using htext c hc] at hskip
  have hend : t.byte (a + text.length) = 0 := by
    have hdrop : HasString t.byte a (text ++ []) := by rwa [List.append_nil]
    exact hdrop.drop
  simp only [strtokFrom, hskip, Option.bind_eq_bind, Option.bind_some, hend, if_true]

/-- Otherwise the first token is cut off, and the position is behind the delimiter that ended it,
if there is one. -/
lemma strtokFrom_token (hzero : 0 ∉ delimiters)
    (h : HasString t.byte a (skipped ++ (token ++ rest)))
    (hskipped : ∀ c ∈ skipped, c ∈ delimiters) (hne : token ≠ [])
    (htoken : ∀ c ∈ token, c ∉ delimiters) (hrest : ∀ c ∈ rest.head?, c ∈ delimiters) :
    ∃ t', strtokFrom delimiters a t = some (a + skipped.length, t') ∧
      HasString t'.byte (a + skipped.length) token ∧
      ∃ gap behind, rest = gap ++ behind ∧ (∀ c ∈ gap, c ∈ delimiters) ∧
        t'.sp = a + skipped.length + token.length + gap.length ∧
          HasString t'.byte t'.sp behind := by
  obtain ⟨c, token, rfl⟩ := List.exists_cons_of_ne_nil hne
  have hskip := skipDelimiters_eq hzero h
  rw [Tokens.takeWhile_span (by simpa using hskipped) (by simpa using htoken c)] at hskip
  have hl := h.drop
  have hbyte : t.byte (a + skipped.length) ≠ 0 := by
    rw [hl.1]
    exact hl.2.1
  have htake : ((c :: token) ++ rest).takeWhile (fun c => !decide (c ∈ delimiters)) =
      c :: token := Tokens.takeWhile_span (by simpa using htoken) (by simpa using hrest)
  have hdrop : ((c :: token) ++ rest).dropWhile (fun c => !decide (c ∈ delimiters)) = rest := by
    have hsplit := List.takeWhile_append_dropWhile (p := fun c => !decide (c ∈ delimiters))
      (l := (c :: token) ++ rest)
    rw [htake] at hsplit
    exact List.append_cancel_left hsplit
  obtain ⟨t', hend, hstring, -⟩ := @endToken_spec _ delimiters _ _ hl
  have hend' := @endToken_eq _ delimiters _ _ hl
  rw [htake] at hstring
  rw [htake, hdrop, hend] at hend'
  have hrun : strtokFrom delimiters a t = some (a + skipped.length, t') := by
    simp only [strtokFrom, hskip, Option.bind_eq_bind, Option.bind_some, hbyte, hend, if_false]
  refine ⟨t', hrun, hstring, ?_⟩
  rcases rest with _ | ⟨d, rest⟩
  · obtain rfl := Option.some.inj hend'
    refine ⟨[], [], rfl, fun c hc => absurd hc List.not_mem_nil, ?_, ?_⟩
    · rw [List.append_nil]
      rfl
    · have hnil := hl.drop
      rw [List.append_nil]
      exact hnil
  · obtain rfl := Option.some.inj hend'
    refine ⟨[d], rest, rfl, fun c hc => ?_, rfl, ?_⟩
    · rw [List.mem_singleton.mp hc]
      exact hrest d rfl
    · refine hl.drop.2.2.congr fun x hx hx' => Function.update_of_ne ?_ _ _
      omega

lemma strtok_position (hsp : t.sp ≠ 0) :
    strtok s (some delimiters) t = strtokFrom delimiters t.sp t := by
  simp only [strtok, hsp, and_false, if_false]

lemma strtok_string (hs : s ≠ 0) (hsp : t.sp = 0) :
    strtok s (some delimiters) t = strtokFrom delimiters s t := by
  simp only [strtok, hs, hsp, false_and, if_true, if_false]

/-- A scan that begins at most some delimiters behind the text reads all of it. -/
lemma readsAll_of_scan (hzero : 0 ∉ delimiters) (n : ℕ) :
    ∀ {s a b : ℕ} {t : Strings} {gap text : List UInt8}, text.length < n →
      strtok s (some delimiters) t = strtokFrom delimiters b t → b = a + gap.length →
      (∀ c ∈ gap, c ∈ delimiters) → HasString t.byte b text →
      ReadsAll delimiters s t a (gap ++ text) := by
  induction n with
  | zero => exact fun h => absurd h (Nat.not_lt_zero _)
  | succ n ih =>
    intro s a b t gap text hlen hcall hb hgap h
    obtain ⟨skipped, rest, rfl, hskipped, hhead⟩ := exists_span (· ∈ delimiters) text
    obtain ⟨token, rest, rfl, htoken, hrest⟩ := exists_span (· ∉ delimiters) rest
    simp only [not_not] at hrest
    rw [List.length_append, List.length_append] at hlen
    rw [← List.append_assoc]
    have hall : ∀ c ∈ gap ++ skipped, c ∈ delimiters := fun c hc =>
      (List.mem_append.mp hc).elim (hgap c) (hskipped c)
    by_cases hne : token = []
    · -- only delimiters are left
      subst hne
      have hnil : rest = [] := by
        rcases rest with _ | ⟨c, rest⟩
        · rfl
        · exact absurd (hrest c rfl) (hhead c rfl)
      subst hnil
      rw [List.append_nil, List.append_nil] at h ⊢
      exact .done hall (hcall.trans (strtokFrom_nil hzero h hskipped))
    · obtain ⟨t', hrun, hstring, gap', behind, rfl, hgap', hsp, hbehind⟩ :=
        strtokFrom_token hzero h hskipped hne htoken hrest
      have hpos := List.length_pos_iff.mpr hne
      rw [List.length_append] at hlen
      have hplace : a + (gap ++ skipped).length = b + skipped.length := by
        rw [List.length_append, hb, Nat.add_assoc]
      rw [← hplace] at hrun hstring
      refine .token hall hne htoken hrest (hcall.trans hrun) hstring ?_
      rw [hplace]
      exact ih (by omega) (strtok_position (by omega)) hsp hgap' hbehind

/-! ## Histories -/

/-- A scan returns where it has found a byte that is no delimiter.  It gives its position up at the
end of a string. -/
lemma strtokFrom_returns (h : strtokFrom delimiters a t = some (q, t')) :
    ∃ p, FirstOther t.byte delimiters a p ∧
      (t.byte p = 0 ∧ q = 0 ∧ t'.sp = 0 ∨ t.byte p ≠ 0 ∧ q = p ∧ p ≤ t'.sp) := by
  rw [strtokFrom] at h
  obtain ⟨p, hskip, h⟩ := Option.bind_eq_some_iff.mp h
  refine ⟨p, skipDelimiters_iff.mp hskip, ?_⟩
  split_ifs at h with hzero
  · cases h
    exact Or.inl ⟨hzero, rfl, rfl⟩
  · obtain ⟨t₁, hend, h⟩ := Option.bind_eq_some_iff.mp h
    cases h
    exact Or.inr ⟨hzero, rfl, le_of_endToken hend⟩

lemma strtokFrom_sp (ha : a ≠ 0) (h : strtokFrom delimiters a t = some (q, t')) :
    t'.sp = 0 ↔ q = 0 := by
  obtain ⟨p, hp, ⟨-, hq, hsp⟩ | ⟨-, hq, hsp⟩⟩ := strtokFrom_returns h
  · exact iff_of_true hsp hq
  · have hle := hp.le
    exact iff_of_false (by omega) (by omega)

/-- There is a position exactly when the last call has returned a token. -/
lemma strtok_sp {o : Option (List UInt8)} (h : strtok s o t = some (q, t')) :
    t'.sp = 0 ↔ q = 0 := by
  cases o with
  | none =>
    rw [strtok] at h
    obtain ⟨n, -, h⟩ := Option.bind_eq_some_iff.mp h
    split_ifs at h with hs hsp
    · cases h
      exact iff_of_true hsp rfl
    · cases h
      exact iff_of_true rfl rfl
  | some delimiters =>
    rw [strtok] at h
    split_ifs at h with hnone hsp
    · cases h
      exact iff_of_true hnone.2 rfl
    · exact strtokFrom_sp (fun hs => hnone ⟨hs, hsp⟩) h
    · exact strtokFrom_sp hsp h

lemma History.sp_iff (h : History t last) : t.sp = 0 ↔ last = 0 := by
  induction h with
  | start byte => exact iff_of_true rfl rfl
  | write byte h ih => exact ih
  | call h hcall ih => exact strtok_sp hcall

/-- After any calls of `strtok`, a call with a string reads all of this string exactly when the
last call returned `NULL`, or the scan at the old position begins like the one of the string. -/
theorem strtok_restart_iff (h : History t last) (hs : s ≠ 0) (hzero : 0 ∉ delimiters)
    (htext : HasString t.byte s text) :
    ReadsAll delimiters s t s text ↔ last = 0 ∨ ScansAlike t.byte delimiters t.sp s := by
  rw [← h.sp_iff]
  have hfirst := firstOther_of_hasString hzero htext
  have hscan : strtok s (some delimiters) t = strtokFrom delimiters s t →
      ReadsAll delimiters s t s text := fun hcall =>
    @readsAll_of_scan _ hzero _ s s s t [] text (Nat.lt_succ_self _) hcall rfl
      (fun _ hc => absurd hc List.not_mem_nil) htext
  by_cases hsp : t.sp = 0
  · exact iff_of_true (hscan (strtok_string hs hsp)) (Or.inl hsp)
  have hcall : strtok s (some delimiters) t = strtokFrom delimiters t.sp t := strtok_position hsp
  rw [or_iff_right hsp]
  constructor
  · intro hreads
    cases hreads with
    | done hall hdone =>
      obtain ⟨p, hp, ⟨hbyte, -, -⟩ | ⟨-, rfl, -⟩⟩ := strtokFrom_returns (hcall.symm.trans hdone)
      · exact ⟨p, _, hp, hfirst, Or.inr ⟨hbyte, (byte_skipped_iff htext).mpr hall⟩⟩
      · exact absurd hp.le (by omega)
    | token hskipped hne htoken hrest htok hstring hmore =>
      obtain ⟨p, hp, ⟨-, hnull, -⟩ | ⟨-, hp', -⟩⟩ := strtokFrom_returns (hcall.symm.trans htok)
      · omega
      · subst hp'
        refine ⟨_, _, hp, hfirst, Or.inl ?_⟩
        obtain ⟨c, token, rfl⟩ := List.exists_cons_of_ne_nil hne
        rw [Tokens.takeWhile_span (by simpa using hskipped)
          (by simpa using htoken c List.mem_cons_self)]
  · rintro ⟨p, q, hp, hq, rfl | ⟨hp', hq'⟩⟩
    · refine hscan (hcall.trans ?_)
      rw [strtokFrom, strtokFrom, skipDelimiters_iff.mpr hp, skipDelimiters_iff.mpr hq]
    · obtain rfl := hq.unique hfirst
      have hnull : strtokFrom delimiters t.sp t = some (0, { t with sp := 0 }) := by
        simp only [strtokFrom, skipDelimiters_iff.mpr hp, Option.bind_eq_bind, Option.bind_some,
          hp', if_true]
      exact .done ((byte_skipped_iff htext).mp hq') (hcall.trans hnull)

/-- The strings `a b` and `c`, one behind the other. -/
def twoStrings : ℕ → UInt8 := store (fun _ => 0) 16 [0x61, 0x20, 0x62, 0, 0x63, 0]

lemma hasString_twoStrings : HasString twoStrings 20 [0x63] := ⟨rfl, by decide, rfl⟩

theorem strtok_restart_iff_first :
    ReadsAll [0x20] 20 ⟨twoStrings, 0⟩ 20 [0x63] ↔
      0 = 0 ∨ ScansAlike twoStrings [0x20] 0 20 :=
  strtok_restart_iff (.start twoStrings) (by decide) (by decide) hasString_twoStrings

/-- The first call does not return anything in front of the text. -/
lemma ReadsAll.first (h : ReadsAll delimiters s t a text) :
    ∃ q t', strtok s (some delimiters) t = some (q, t') ∧ (q = 0 ∨ a ≤ q) := by
  cases h with
  | done _ hcall => exact ⟨_, _, hcall, Or.inl rfl⟩
  | token _ _ _ _ hcall => exact ⟨_, _, hcall, Or.inr (Nat.le_add_right _ _)⟩

/-- After one token of `a b` a call with the string `c` returns the `b`. -/
theorem not_strtok_restart : ∃ t last, History t last ∧ HasString t.byte 20 [0x63] ∧
    (∃ t', strtok 20 (some [0x20]) t = some (18, t')) ∧ ¬ ReadsAll [0x20] 20 t 20 [0x63] := by
  let t : Strings := ⟨Function.update twoStrings 17 0, 18⟩
  have hcall : strtok 16 (some [0x20]) ⟨twoStrings, 0⟩ = some (16, t) := by
    have hskip : skipDelimiters [0x20] twoStrings 16 = some 16 :=
      (skipDelimiters_step 16).trans (if_neg (by decide))
    have hend : endToken [0x20] twoStrings 16 = some t := by
      rw [endToken_step, if_neg (by decide), if_neg (by decide), endToken_step,
        if_neg (by decide), if_pos (by decide)]
    rw [strtok_string (by decide) rfl, strtokFrom, hskip]
    exact congrArg (·.bind fun t => some (16, t)) hend
  have hcall' : strtok 20 (some [0x20]) t = some (18, { t with sp := 19 }) := by
    have hskip : skipDelimiters [0x20] t.byte 18 = some 18 :=
      (skipDelimiters_step 18).trans (if_neg (by decide))
    have hend : endToken [0x20] t.byte 18 = some { t with sp := 19 } := by
      rw [endToken_step, if_neg (by decide), if_neg (by decide), endToken_step,
        if_pos (by decide)]
    rw [strtok_position (by decide), strtokFrom, hskip]
    exact congrArg (·.bind fun t => some (18, t)) hend
  refine ⟨t, 16, .call (.start twoStrings) hcall, ⟨rfl, by decide, rfl⟩, ⟨_, hcall'⟩,
    fun hreads => ?_⟩
  obtain ⟨q, t', hfirst, hq⟩ := hreads.first
  cases hcall'.symm.trans hfirst
  omega

end SerpaeOS.Stdlib
