import SerpaeOS.Heap.Ledger
import Mathlib.Algebra.Order.Group.Multiset
import Mathlib.Tactic.Abel

/-!
# The path parser

`pparser.c` takes a path such as `0:/dir/file` apart into a drive and a linked list of
parts.  The root, every part and the text of every part are blocks of their own.
-/

namespace SerpaeOS

open BlockTable Prog

/-- `struct path_part`: the text, where it is stored, and where the part is. -/
structure PathPart where
  part : List UInt8
  partPtr : Ptr
  ptr : Ptr

/-- `struct path_root`, with the list of its parts. -/
structure PathRoot where
  ptr : Ptr
  driveNo : ℕ
  first : List PathPart

/-- The sizes of `struct path_root` and `struct path_part`. -/
def pathRootSize : ℕ := 8
def pathPartSize : ℕ := 8

def isdigit (c : UInt8) : Bool := 0x30 ≤ c && c ≤ 0x39
def tonumericdigit (c : UInt8) : ℕ := c.toNat - 0x30

def pathparserPathValidFormat (filename : List UInt8) : Bool :=
  3 ≤ filename.length && isdigit (filename.getD 0 0) && filename.getD 1 0 == 0x3A &&
    filename.getD 2 0 == 0x2F

/-- The text of the part that a path begins with. -/
def firstPart (path : List UInt8) : List UInt8 := path.takeWhile (· != 0x2F)

/-- What follows the first part and the slash behind it. -/
def afterPart (path : List UInt8) : List UInt8 := (path.dropWhile (· != 0x2F)).drop 1

/-- `pathparser_get_path_part`: the text, unless it is empty. -/
def pathparserGetPathPart (path : List UInt8) : KProg (Option Ptr) := do
  let resultPathPart ← allocate maxPath
  if firstPart path = [] then
    release resultPathPart
    return none
  -- the characters are stored through the pointer
  else if resultPathPart = 0 then stuck
  else return some resultPathPart

/-- `pathparser_parse_path_part`. -/
def pathparserParsePathPart (path : List UInt8) : KProg (Option PathPart) := do
  let pathPartStr ← pathparserGetPathPart path
  match pathPartStr with
  | none => return none
  | some partPtr => do
    let ptr ← allocate pathPartSize
    if ptr = 0 then stuck else return some ⟨firstPart path, partPtr, ptr⟩

/-- The loop over the parts; it ends with an empty part, after at most as many steps as
there are characters. -/
def pathparserLoop : ℕ → List UInt8 → KProg (List PathPart)
  | 0, _ => return []
  | calls + 1, path => do
    let part ← pathparserParsePathPart path
    match part with
    | none => return []
    | some part => do
      let parts ← pathparserLoop calls (afterPart path)
      return part :: parts

/-- `pathparser_parse`. -/
def pathparserParse (path : List UInt8) : KProg (Option PathRoot) :=
  if path.length > maxPath then return none
  else if !pathparserPathValidFormat path then return none
  else do
    let ptr ← allocate pathRootSize
    if ptr = 0 then stuck
    else do
      let parts ← pathparserLoop (path.length + 1) (path.drop 3)
      return some ⟨ptr, tonumericdigit (path.getD 0 0), parts⟩

/-- The loop of `pathparser_free`. -/
def freeParts : List PathPart → KProg Unit
  | [] => return ()
  | part :: parts => do
    release part.partPtr
    release part.ptr
    freeParts parts

/-- `pathparser_free`. -/
def pathparserFree (root : PathRoot) : KProg Unit := do
  freeParts root.first
  release root.ptr

/-! ## What is parsed -/

/-- The texts of the parts of a path. -/
def pathNames : ℕ → List UInt8 → List (List UInt8)
  | 0, _ => []
  | calls + 1, path =>
    if firstPart path = [] then [] else firstPart path :: pathNames calls (afterPart path)

/-- The path is accepted by the parser. -/
def PathAccepted (path : List UInt8) : Prop :=
  path.length ≤ maxPath ∧ pathparserPathValidFormat path = true

instance (path : List UInt8) : Decidable (PathAccepted path) :=
  inferInstanceAs (Decidable (_ ∧ _))

/-- The names in a path, behind the drive. -/
def namesOf (path : List UInt8) : List (List UInt8) := pathNames (path.length + 1) (path.drop 3)

/-- The blocks of a list of parts. -/
def pathExtents : List PathPart → List Extent
  | [] => []
  | part :: parts => extentAt part.partPtr 1 :: extentAt part.ptr 1 :: pathExtents parts

/-- The pointers of the parts are addresses of blocks. -/
def PartsOk (parts : List PathPart) : Prop :=
  ∀ part ∈ parts, IsBlock part.partPtr ∧ IsBlock part.ptr

variable {A : KMemory → List Extent → ℕ → Prop} {m₀ m : KMemory} {L : List Extent} {n : ℕ}

lemma length_afterPart_lt {path : List UInt8} (h : firstPart path ≠ []) :
    (afterPart path).length < path.length := by
  have hsplit := congrArg List.length (List.takeWhile_append_dropWhile (p := (· != 0x2F))
    (l := path))
  have hpos := List.length_pos_iff.mpr h
  rw [List.length_append, ← firstPart] at hsplit
  rw [afterPart, List.length_drop]
  omega

/-- A part is taken with its text, or the text is empty. -/
lemma Ledger.parsePathPart (hA : Ledger A) (h : A m L n) (path : List UInt8) (hn : 2 ≤ n) :
    Runs (pathparserParsePathPart path) m fun part m' =>
      (firstPart path = [] ∧ part = none ∧ A m' L (n - 1)) ∨
      (firstPart path ≠ [] ∧ ∃ p q, part = some ⟨firstPart path, p, q⟩ ∧ IsBlock p ∧ IsBlock q ∧
        A m' (extentAt q 1 :: extentAt p 1 :: L) (n - 2)) := by
  have hblocks : blocksFor maxPath = 1 := by decide
  have hblocks' : blocksFor pathPartSize = 1 := by decide
  by_cases hempty : firstPart path = []
  · -- the text is freed again
    have hget : Runs (pathparserGetPathPart path) m fun r m' =>
        r = none ∧ A m' L (n - 1) := by
      refine (hA.allocate h maxPath (by decide) (by omega)).bind
        fun p m' hp => ?_
      rw [if_pos hempty]
      rw [hblocks] at hp
      refine (hA.release hp.2 hp.1 (by omega)).bind fun _ m'' hm => ?_
      exact runs_pure ⟨rfl, hm⟩
    refine hget.bind fun r m' hr => ?_
    obtain ⟨rfl, hm⟩ := hr
    exact runs_pure (Or.inl ⟨hempty, rfl, hm⟩)
  · have hget : Runs (pathparserGetPathPart path) m fun r m' => ∃ p, r = some p ∧ IsBlock p ∧
        A m' (extentAt p 1 :: L) (n - 1) := by
      refine (hA.allocate h maxPath (by decide) (by omega)).bind
        fun p m' hp => ?_
      rw [if_neg hempty, if_neg hp.1.ne_zero]
      rw [hblocks] at hp
      exact runs_pure ⟨p, rfl, hp⟩
    refine hget.bind fun r m' hr => ?_
    obtain ⟨p, rfl, hp, hm⟩ := hr
    refine (hA.allocate hm pathPartSize (by decide) (by omega)).bind
      fun q m'' hq => ?_
    rw [if_neg hq.1.ne_zero]
    rw [hblocks', show n - 1 - 1 = n - 2 by omega] at hq
    exact runs_pure (Or.inr ⟨hempty, p, q, rfl, hp, hq⟩)

/-- The parts of a path are taken, each with its text. -/
lemma Ledger.pathparserLoop (hA : Ledger A) : ∀ (calls : ℕ) {path : List UInt8} {m : KMemory}
    {L : List Extent} {n : ℕ}, A m L n → path.length < calls → 2 * path.length + 2 ≤ n →
    Runs (pathparserLoop calls path) m fun parts m' =>
      parts.map PathPart.part = pathNames calls path ∧ PartsOk parts ∧
        A m' (pathExtents parts ++ L) (n - (2 * path.length + 2)) := by
  intro calls
  induction calls with
  | zero => exact fun _ hlt => absurd hlt (by omega)
  | succ calls ih =>
    intro path m L n h hcalls hn
    refine (hA.parsePathPart h path (by omega)).bind fun part m' hpart => ?_
    rw [pathNames]
    rcases hpart with ⟨hempty, rfl, hm⟩ | ⟨hne, p, q, rfl, hp, hq, hm⟩
    · rw [if_pos hempty]
      exact runs_pure ⟨rfl, fun _ hmem => absurd hmem (by simp), hA.mono hm (by omega)⟩
    · rw [if_neg hne]
      have hlt := length_afterPart_lt hne
      refine (ih hm (by omega) (by omega)).bind fun parts m'' hparts => ?_
      obtain ⟨hnames, hok, hm''⟩ := hparts
      refine runs_pure ⟨by rw [List.map_cons, hnames], ?_, ?_⟩
      · intro part hpart
        rcases List.mem_cons.mp hpart with rfl | hpart
        · exact ⟨hp, hq⟩
        · exact hok part hpart
      · refine hA.perm (hA.mono hm'' (by omega)) ?_
        rw [← Multiset.coe_eq_coe, pathExtents]
        simp only [← Multiset.coe_add, ← Multiset.cons_coe, ← Multiset.singleton_add]
        abel

/-- The parts of a parsed path are its names. -/
lemma ends_pathparserLoop (calls : ℕ) : ∀ (path : List UInt8) (m : KMemory),
    Ends (pathparserLoop calls path) m fun parts _ =>
      parts.map PathPart.part = pathNames calls path := by
  induction calls with
  | zero => exact fun path m => ends_pure rfl
  | succ calls ih =>
    intro path m
    have hpart : Ends (pathparserParsePathPart path) m fun r _ =>
        (r = none ∧ firstPart path = []) ∨
          (firstPart path ≠ [] ∧ ∃ part, r = some part ∧ part.part = firstPart path) := by
      refine Ends.bind (P := fun r _ => r = none ↔ firstPart path = []) ?_ fun r m₁ hr => ?_
      · refine Ends.bind (P := fun _ _ => True) (fun _ _ _ => trivial) fun q m₁ _ => ?_
        refine Ends.ite (fun hnil => ?_) fun hne => Ends.ite (fun _ => ends_stuck) fun _ => ?_
        · refine Ends.bind (P := fun _ _ => True) (fun _ _ _ => trivial) fun _ m₂ _ => ?_
          exact ends_pure (iff_of_true rfl hnil)
        · exact ends_pure (iff_of_false (Option.some_ne_none q) hne)
      · cases r with
        | none => exact ends_pure (Or.inl ⟨rfl, hr.mp rfl⟩)
        | some q =>
          have hne : firstPart path ≠ [] := fun hnil => Option.some_ne_none q (hr.mpr hnil)
          refine Ends.bind (P := fun _ _ => True) (fun _ _ _ => trivial) fun ptr m₂ _ => ?_
          refine Ends.ite (fun _ => ends_stuck) fun _ => ?_
          exact ends_pure (Or.inr ⟨hne, _, rfl, rfl⟩)
    refine hpart.bind fun r m₁ hr => ?_
    rcases hr with ⟨rfl, hnil⟩ | ⟨hne, part, rfl, hpart⟩
    · refine ends_pure ?_
      rw [pathNames, if_pos hnil, List.map_nil]
    · refine (ih _ _).bind fun parts m₂ hparts => ends_pure ?_
      rw [pathNames, if_neg hne, List.map_cons, hpart, hparts]

/-- A path that is not accepted takes no memory. -/
lemma pathparserParse_rejected {path : List UInt8} (h : ¬ PathAccepted path) (m : KMemory) :
    pathparserParse path m = some (none, m) := by
  rw [pathparserParse]
  split_ifs with hlen hvalid
  · rfl
  · rfl
  · exact absurd ⟨by omega, by simpa using hvalid⟩ h

/-- An accepted path is parsed into its root and its parts. -/
lemma Ledger.pathparserParse (hA : Ledger A) (h : A m L n) {path : List UInt8}
    (hpath : PathAccepted path) (hn : 2 * path.length + 3 ≤ n) :
    Runs (pathparserParse path) m fun r m' => ∃ p parts,
      r = some ⟨p, tonumericdigit (path.getD 0 0), parts⟩ ∧ IsBlock p ∧ PartsOk parts ∧
        parts.map PathPart.part = namesOf path ∧
        A m' (pathExtents parts ++ extentAt p 1 :: L)
          (n - (2 * path.length + 3)) := by
  have hblocks : blocksFor pathRootSize = 1 := by decide
  have hdrop : (path.drop 3).length ≤ path.length := by
    rw [List.length_drop]
    omega
  have hlen := hpath.1
  rw [SerpaeOS.pathparserParse, if_neg (by omega), hpath.2]
  simp only [Bool.not_true, Bool.false_eq_true, if_false]
  refine (hA.allocate h pathRootSize (by decide) (by omega)).bind
    fun p m' hp => ?_
  rw [if_neg hp.1.ne_zero]
  rw [hblocks] at hp
  refine (hA.pathparserLoop (path.length + 1) hp.2 (by omega) (by omega)).bind
    fun parts m'' hparts => ?_
  exact runs_pure ⟨p, parts, rfl, hp.1, hparts.2.1, hparts.1, hA.mono hparts.2.2 (by omega)⟩

/-- The characters of the names are characters of the path. -/
lemma mem_of_mem_namesOf {path name : List UInt8} {c : UInt8} (hname : name ∈ namesOf path)
    (hc : c ∈ name) : c ∈ path := by
  have hnames : ∀ (calls : ℕ) (path : List UInt8), name ∈ pathNames calls path → c ∈ path := by
    intro calls
    induction calls with
    | zero => exact fun path h => absurd h (by simp [pathNames])
    | succ calls ih =>
      intro path h
      rw [pathNames] at h
      split_ifs at h
      · simp at h
      · rcases List.mem_cons.mp h with rfl | h
        · exact (List.takeWhile_sublist _).subset hc
        · exact (List.dropWhile_sublist _).subset (List.mem_of_mem_drop (ih _ h))
  exact List.mem_of_mem_drop (hnames _ _ hname)

/-- The parts are freed. -/
lemma Ledger.freeParts (hA : Ledger A) {parts : List PathPart} (hok : PartsOk parts) :
    ∀ {m : KMemory} {L₁ : List Extent}, A m (L₁ ++ (pathExtents parts ++ L)) n →
      Runs (freeParts parts) m fun _ m' => A m' (L₁ ++ L) n := by
  induction parts with
  | nil =>
    intro m L₁ h
    exact runs_pure h
  | cons part parts ih =>
    intro m L₁ h
    have hpart := hok part List.mem_cons_self
    have hrest : PartsOk parts := fun part hmem => hok part (List.mem_cons_of_mem _ hmem)
    rw [pathExtents] at h
    refine (hA.release_middle h hpart.1 (by omega)).bind fun _ m' hm => ?_
    refine (hA.release_middle hm hpart.2 (by omega)).bind fun _ m'' hm' => ?_
    exact ih hrest hm'

/-- `pathparser_free` gives everything back. -/
lemma Ledger.pathparserFree (hA : Ledger A) {p d : ℕ} {parts : List PathPart} (hok : PartsOk parts)
    (hp : IsBlock p) {L₁ : List Extent}
    (h : A m (L₁ ++ (pathExtents parts ++ extentAt p 1 :: L)) n) :
    Runs (pathparserFree ⟨p, d, parts⟩) m fun _ m' => A m' (L₁ ++ L) n := by
  refine (hA.freeParts hok h).bind fun _ m' hm => ?_
  exact hA.release_middle hm hp (by omega)

/-- `pathparser_free` always returns. -/
lemma runs_pathparserFree (root : PathRoot) (m : KMemory) :
    Runs (pathparserFree root) m fun _ _ => True := by
  have hparts : ∀ (parts : List PathPart) (m : KMemory),
      Runs (SerpaeOS.freeParts parts) m fun _ _ => True := by
    intro parts
    induction parts with
    | nil => exact fun m => runs_pure trivial
    | cons part parts ih =>
      intro m
      refine Runs.bind (P := fun _ _ => True) ⟨_, _, rfl, trivial⟩ fun _ m₁ _ => ?_
      exact Runs.bind (P := fun _ _ => True) ⟨_, _, rfl, trivial⟩ fun _ m₂ _ => ih m₂
  refine (hparts root.first m).bind fun _ m₁ _ => ?_
  exact ⟨_, _, rfl, trivial⟩

/-! ## The record of pointers -/

lemma keeps_pathparserParsePathPart (path : List UInt8) :
    Keeps (Recorded m₀) (pathparserParsePathPart path) := by
  have hget : Keeps (Recorded m₀) (pathparserGetPathPart path) := by
    refine (keeps_allocate _).bind fun p => Keeps.ite ?_ (Keeps.ite keeps_stuck (keeps_pure _))
    exact (keeps_release p).bind fun _ => keeps_pure _
  refine hget.bind fun part => ?_
  cases part with
  | none => exact keeps_pure _
  | some p => exact (keeps_allocate _).bind fun q => Keeps.ite keeps_stuck (keeps_pure _)

lemma keeps_pathparserLoop (calls : ℕ) :
    ∀ path : List UInt8, Keeps (Recorded m₀) (pathparserLoop calls path) := by
  induction calls with
  | zero => exact fun _ => keeps_pure _
  | succ calls ih =>
    intro path
    refine (keeps_pathparserParsePathPart path).bind fun part => ?_
    cases part with
    | none => exact keeps_pure _
    | some part => exact (ih _).bind fun _ => keeps_pure _

lemma keeps_pathparserParse (path : List UInt8) :
    Keeps (Recorded m₀) (pathparserParse path) := by
  refine Keeps.ite (keeps_pure _) (Keeps.ite (keeps_pure _) ?_)
  refine (keeps_allocate _).bind fun p => Keeps.ite keeps_stuck ?_
  exact (keeps_pathparserLoop _ _).bind fun _ => keeps_pure _

lemma keeps_pathparserFree (root : PathRoot) : Keeps (Recorded m₀) (pathparserFree root) := by
  have hparts : ∀ parts : List PathPart, Keeps (Recorded m₀) (freeParts parts) := by
    intro parts
    induction parts with
    | nil => exact keeps_pure _
    | cons part parts ih =>
      exact (keeps_release _).bind fun _ => (keeps_release _).bind fun _ => ih
  exact (hparts _).bind fun _ => keeps_release _

end SerpaeOS
