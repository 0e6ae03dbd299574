import SerpaeOS.Fs.PathText
import Mathlib.Data.List.TakeWhile

/-!
# Paths written back

A path can be written back from what it was parsed into: the drive, `:/`, and the components with
slashes between them.  The parser takes an empty component for the end of the path, so that the
text behind two slashes in a row is dropped.
-/

namespace SerpaeOS

open BlockTable Prog

/-- The path is accepted and has at least one component. -/
def ParsesTo (path : List UInt8) (root : PathRoot) : Prop :=
  (∃ m m', pathparserParse path m = some (some root, m')) ∧ root.first ≠ []

/-- The path is what the root is written back as, perhaps with a slash behind it. -/
def WritesBack (path : List UInt8) (root : PathRoot) : Prop :=
  ∃ slash, path = pathText root.driveNo (root.first.map PathPart.part) slash

/-- Two roots have the same drive and the same components. -/
def SameResult (root root' : PathRoot) : Prop :=
  root.driveNo = root'.driveNo ∧ root.first.map PathPart.part = root'.first.map PathPart.part

/-- Two paths are equal up to one slash behind them. -/
def UpToSlash (path path' : List UInt8) : Prop :=
  path = path' ∨ path = path' ++ [0x2F] ∨ path' = path ++ [0x2F]

/-- No two slashes stand next to each other in the path. -/
def NoDoubleSlash (path : List UInt8) : Prop := ¬ [0x2F, 0x2F] <:+: path

instance (path : List UInt8) : Decidable (NoDoubleSlash path) :=
  inferInstanceAs (Decidable (¬ _))

variable {path path' rest name : List UInt8} {root root' : PathRoot}
  {components : List (List UInt8)} {c d : UInt8}

/-! ## Slashes in a row -/

lemma noDoubleSlash_cons :
    NoDoubleSlash (c :: path) ↔ ¬ (c = 0x2F ∧ path.head? = some 0x2F) ∧ NoDoubleSlash path := by
  rw [NoDoubleSlash, List.infix_cons_iff, not_or, List.cons_prefix_cons, NoDoubleSlash]
  refine and_congr_left fun _ => not_congr (and_congr eq_comm ?_)
  cases path with
  | nil => simp
  | cons d path => simp [eq_comm]

/-- In front of what does not begin with a slash any name can stand. -/
lemma noDoubleSlash_append (hname : ∀ c ∈ name, c ≠ 0x2F) (hrest : NoDoubleSlash rest) :
    NoDoubleSlash (name ++ rest) := by
  induction name with
  | nil => exact hrest
  | cons c name ih =>
    obtain ⟨hc, hname⟩ := List.forall_mem_cons.mp hname
    exact noDoubleSlash_cons.mpr ⟨fun h => hc h.1, ih hname⟩

/-- Names with slashes between them and perhaps behind them. -/
lemma noDoubleSlash_components (slash : Bool) (hok : ∀ name ∈ components, name ≠ [] ∧
    ∀ c ∈ name, c ≠ 0x2F) (hne : components ≠ []) :
    (List.intercalate [0x2F] components ++ if slash then [(0x2F : UInt8)] else []).head? ≠
        some 0x2F ∧
      NoDoubleSlash (List.intercalate [0x2F] components ++ if slash then [0x2F] else []) := by
  induction components with
  | nil => exact absurd rfl hne
  | cons name components ih =>
    obtain ⟨⟨hname, hfree⟩, hok⟩ := List.forall_mem_cons.mp hok
    have hhead : ∀ l : List UInt8, (name ++ l).head? ≠ some 0x2F := by
      obtain ⟨c, name, rfl⟩ := List.exists_cons_of_ne_nil hname
      exact fun l h => hfree c List.mem_cons_self (Option.some.inj h)
    cases components with
    | nil =>
      rw [List.intercalate_singleton]
      refine ⟨hhead _, noDoubleSlash_append hfree ?_⟩
      cases slash with
      | false => decide
      | true => decide
    | cons next components =>
      obtain ⟨hnext, hrest⟩ := ih hok (List.cons_ne_nil _ _)
      rw [List.intercalate_cons_cons, List.append_assoc, List.append_assoc, List.singleton_append]
      refine ⟨hhead _, noDoubleSlash_append hfree (noDoubleSlash_cons.mpr ⟨?_, hrest⟩)⟩
      exact fun h => hnext h.2

/-! ## The end of a path -/

/-- What the parser leaves of a path: nothing, a slash, or the text from two slashes on. -/
def Dropped (rest : List UInt8) : Prop :=
  rest = [] ∨ rest = [0x2F] ∨ ∃ more, rest = 0x2F :: 0x2F :: more

/-- The names of a path with slashes between them, and what is dropped, are the path. -/
lemma exists_dropped (calls : ℕ) : ∀ {rest : List UInt8}, rest.length < calls →
    pathNames calls rest ≠ [] → ∃ dropped, Dropped dropped ∧
      rest = List.intercalate [0x2F] (pathNames calls rest) ++ dropped := by
  induction calls with
  | zero => exact fun h => absurd h (by omega)
  | succ calls ih =>
    intro rest hcalls hne
    rw [pathNames] at hne ⊢
    by_cases hempty : firstPart rest = []
    · rw [if_pos hempty] at hne
      exact absurd rfl hne
    rw [if_neg hempty]
    have hlt := length_afterPart_lt hempty
    have hsplit : firstPart rest ++ rest.dropWhile (· != 0x2F) = rest :=
      List.takeWhile_append_dropWhile
    cases hbehind : rest.dropWhile (· != 0x2F) with
    | nil =>
      -- the path ends with the part
      rw [afterPart, hbehind, List.drop_nil, pathNames_nil, List.intercalate_singleton]
      rw [hbehind] at hsplit
      exact ⟨[], Or.inl rfl, hsplit.symm⟩
    | cons c behind =>
      have hslash : c = 0x2F := by
        have hhead := List.head?_dropWhile_not (fun c : UInt8 => c != 0x2F) rest
        rw [hbehind] at hhead
        simpa using hhead
      subst hslash
      have hafter : afterPart rest = behind := by rw [afterPart, hbehind]; rfl
      rw [hbehind] at hsplit
      rw [hafter] at hlt ⊢
      cases hnames : pathNames calls behind with
      | nil =>
        -- behind the slash the path ends, or another slash follows
        refine ⟨0x2F :: behind, ?_, by rw [List.intercalate_singleton, hsplit]⟩
        rcases behind with _ | ⟨d, behind⟩
        · exact Or.inr (Or.inl rfl)
        · obtain ⟨calls, rfl⟩ := Nat.exists_eq_succ_of_ne_zero (by omega : calls ≠ 0)
          rw [pathNames] at hnames
          have hd : d = 0x2F := by
            by_contra hd
            have hfirst : firstPart (d :: behind) ≠ [] := by simp [firstPart, hd]
            rw [if_neg hfirst] at hnames
            exact List.cons_ne_nil _ _ hnames
          rw [hd]
          exact Or.inr (Or.inr ⟨behind, rfl⟩)
      | cons next names =>
        have hsome : pathNames calls behind ≠ [] := by
          rw [hnames]
          exact List.cons_ne_nil _ _
        obtain ⟨dropped, hdropped, heq⟩ := ih (by omega) hsome
        refine ⟨dropped, hdropped, ?_⟩
        rw [hnames] at heq
        rw [List.intercalate_cons_cons, List.append_assoc, List.append_assoc, List.singleton_append,
          ← heq, hsplit]

lemma mem_pathNames (calls : ℕ) : ∀ {rest : List UInt8}, ∀ name ∈ pathNames calls rest,
    name ≠ [] ∧ ∀ c ∈ name, c ≠ 0x2F := by
  induction calls with
  | zero => exact fun name hname => absurd hname List.not_mem_nil
  | succ calls ih =>
    intro rest name hname
    rw [pathNames] at hname
    split_ifs at hname with hempty
    · exact absurd hname List.not_mem_nil
    · rcases List.mem_cons.mp hname with rfl | hname
      · refine ⟨hempty, fun c hc => ?_⟩
        simpa using List.mem_takeWhile_imp hc
      · exact ih name hname

/-! ## Accepted paths -/

/-- An accepted path begins with its drive. -/
lemma PathAccepted.split (h : PathAccepted path) : tonumericdigit (path.getD 0 0) < 10 ∧
    path = UInt8.ofNat (0x30 + tonumericdigit (path.getD 0 0)) :: 0x3A :: 0x2F :: path.drop 3 := by
  have hvalid := h.2
  simp only [pathparserPathValidFormat, Bool.and_eq_true, decide_eq_true_eq, beq_iff_eq] at hvalid
  obtain ⟨⟨⟨hlen, hdigit⟩, hcolon⟩, hslash⟩ := hvalid
  obtain ⟨c, d, e, rest, rfl⟩ : ∃ c d e rest, path = c :: d :: e :: rest := by
    rcases path with _ | ⟨c, _ | ⟨d, _ | ⟨e, rest⟩⟩⟩
    · exact absurd hlen (by decide)
    · exact absurd hlen (by simp)
    · exact absurd hlen (by simp)
    · exact ⟨c, d, e, rest, rfl⟩
  simp only [List.getD_cons_zero, List.getD_cons_succ] at hdigit hcolon hslash ⊢
  rw [isdigit, Bool.and_eq_true, decide_eq_true_eq, decide_eq_true_eq, UInt8.le_iff_toNat_le,
    UInt8.le_iff_toNat_le] at hdigit
  have hlow : 0x30 ≤ c.toNat := hdigit.1
  have hhigh : c.toNat ≤ 0x39 := hdigit.2
  rw [tonumericdigit, Nat.add_sub_cancel' hlow, UInt8.ofNat_toNat, hcolon, hslash]
  exact ⟨by omega, rfl⟩

/-- What a root says about the path it comes from. -/
lemma ParsesTo.facts (h : ParsesTo path root) : PathAccepted path ∧
    root.driveNo = tonumericdigit (path.getD 0 0) ∧
    root.first.map PathPart.part = namesOf path ∧ namesOf path ≠ [] := by
  obtain ⟨⟨m, m', hparse⟩, hne⟩ := h
  by_cases hpath : PathAccepted path
  · obtain ⟨p, parts, hroot, hparts⟩ := ends_pathparserParse_accepted hpath m _ _ hparse
    obtain rfl := Option.some.inj hroot
    refine ⟨hpath, rfl, hparts, ?_⟩
    rw [← hparts]
    exact fun hnil => hne (List.map_eq_nil_iff.mp hnil)
  · rw [pathparserParse_rejected hpath] at hparse
    exact absurd (congrArg Prod.fst (Option.some.inj hparse)) nofun

/-- Without two slashes in a row nothing of the path is dropped, and with them something is. -/
lemma ParsesTo.writesBack_iff (h : ParsesTo path root) :
    WritesBack path root ↔ NoDoubleSlash path := by
  obtain ⟨hpath, hdrive, hnames, hne⟩ := h.facts
  obtain ⟨-, hsplit⟩ := hpath.split
  have hlen := congrArg List.length hsplit
  simp only [List.length_cons] at hlen
  constructor
  · rintro ⟨slash, htext⟩
    rw [hnames, pathText] at htext
    have hok : ∀ name ∈ namesOf path, name ≠ [] ∧ ∀ c ∈ name, c ≠ 0x2F := mem_pathNames _
    obtain ⟨hhead, hrest⟩ := noDoubleSlash_components slash hok hne
    rw [htext]
    refine noDoubleSlash_cons.mpr ⟨fun hc => absurd hc.2 (by simp), ?_⟩
    refine noDoubleSlash_cons.mpr ⟨fun hc => absurd hc.1 (by decide), ?_⟩
    exact noDoubleSlash_cons.mpr ⟨fun hc => hhead hc.2, hrest⟩
  · intro hfree
    obtain ⟨dropped, hdropped, heq⟩ := exists_dropped _ (by omega) hne
    have hback : ∀ slash : Bool, dropped = (if slash then [0x2F] else []) →
        path = pathText root.driveNo (root.first.map PathPart.part) slash := by
      intro slash hslash
      rw [pathText, hdrive, hnames, ← hslash]
      exact hsplit.trans (congrArg (_ :: _ :: _ :: ·) heq)
    rcases hdropped with hnil | hslash | ⟨more, hmore⟩
    · exact ⟨false, hback false hnil⟩
    · exact ⟨true, hback true hslash⟩
    · -- the rest of the path from the two slashes on is not in the names
      refine absurd ?_ hfree
      have htwo : [0x2F, 0x2F] <:+: path.drop 3 := by
        refine ⟨List.intercalate [0x2F] (namesOf path), more, ?_⟩
        rw [List.append_assoc, heq, hmore, namesOf]
        rfl
      exact htwo.trans (List.drop_suffix 3 path).isInfix

/-- Paths that are written back from one result differ in a slash behind them. -/
lemma upToSlash_of_writesBack (h : WritesBack path root) (h' : WritesBack path' root')
    (hsame : SameResult root root') : UpToSlash path path' := by
  obtain ⟨slash, rfl⟩ := h
  obtain ⟨slash', rfl⟩ := h'
  rw [UpToSlash, hsame.1, hsame.2]
  cases slash with
  | false =>
    cases slash' with
    | false => exact Or.inl rfl
    | true => exact Or.inr (Or.inr (by simp [pathText]))
  | true =>
    cases slash' with
    | false => exact Or.inr (Or.inl (by simp [pathText]))
    | true => exact Or.inl rfl

/-- Two accepted paths are written back from their results, and with one result they differ in
a slash behind them, exactly when neither has two slashes in a row. -/
theorem pathparser_parse_back_iff (h : ParsesTo path root) (h' : ParsesTo path' root') :
    (WritesBack path root ∧ WritesBack path' root' ∧
        (SameResult root root' → UpToSlash path path')) ↔
      NoDoubleSlash path ∧ NoDoubleSlash path' := by
  rw [← h.writesBack_iff, ← h'.writesBack_iff]
  constructor
  · exact fun ⟨hback, hback', _⟩ => ⟨hback, hback'⟩
  · exact fun ⟨hback, hback'⟩ => ⟨hback, hback', upToSlash_of_writesBack hback hback'⟩

/-- The paths `0:/a` and `0:/a//b`. -/
def pathOne : List UInt8 := [0x30, 0x3A, 0x2F, 0x61]
def pathDropped : List UInt8 := [0x30, 0x3A, 0x2F, 0x61, 0x2F, 0x2F, 0x62]

/-- A short path is parsed in the memory that the kernel starts with. -/
lemma exists_parsesTo (path : List UInt8) (hpath : PathAccepted path) (hlen : path.length ≤ 100)
    (hne : namesOf path ≠ []) : ∃ root, ParsesTo path root := by
  have hroomy : Roomy [] 203 := by
    refine ⟨0, by decide, fun i _ hcov => ?_⟩
    obtain ⟨e, he, -⟩ := hcov
    exact List.not_mem_nil he
  have hstart : Accounts ⟨bootHeap, [], []⟩ [] ⟨bootHeap, [], []⟩ [] 203 :=
    accounts_refl bootHeap_kernelHeap hroomy fun _ he => absurd he List.not_mem_nil
  obtain ⟨r, m', hparse, p, parts, rfl, -, -, hparts, -⟩ :=
    accounts_ledger.pathparserParse hstart hpath (by omega)
  refine ⟨_, ⟨_, _, hparse⟩, fun hnil => hne ?_⟩
  rw [← hparts, List.map_eq_nil_iff]
  exact hnil

theorem pathparser_parse_back_iff_pathOne :
    ∃ root, ParsesTo pathOne root ∧
      ((WritesBack pathOne root ∧ WritesBack pathOne root ∧
          (SameResult root root → UpToSlash pathOne pathOne)) ↔
        NoDoubleSlash pathOne ∧ NoDoubleSlash pathOne) := by
  obtain ⟨root, hroot⟩ := exists_parsesTo pathOne (by decide) (by decide) (by decide)
  exact ⟨root, hroot, pathparser_parse_back_iff hroot hroot⟩

/-- Of `0:/a//b` only `0:/a` is parsed. -/
theorem not_pathparser_parse_back : ∃ root root', ParsesTo pathDropped root ∧
    ParsesTo pathOne root' ∧ ¬ WritesBack pathDropped root ∧ SameResult root root' ∧
    ¬ UpToSlash pathDropped pathOne := by
  obtain ⟨root, hroot⟩ :=
    exists_parsesTo pathDropped (by decide) (by decide) (by decide)
  obtain ⟨root', hroot'⟩ := exists_parsesTo pathOne (by decide) (by decide) (by decide)
  refine ⟨root, root', hroot, hroot', fun hback => ?_, ⟨?_, ?_⟩, ?_⟩
  · exact absurd (hroot.writesBack_iff.mp hback) (by decide)
  · exact hroot.facts.2.1.trans hroot'.facts.2.1.symm
  · exact hroot.facts.2.2.1.trans hroot'.facts.2.2.1.symm
  · rw [UpToSlash]
    decide

end SerpaeOS
