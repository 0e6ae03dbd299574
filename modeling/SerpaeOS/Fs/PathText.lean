import SerpaeOS.Fs.Pparser
import SerpaeOS.Lib.Loop
import Mathlib.Data.List.Forall2
import Mathlib.Tactic.IntervalCases

/-!
# The texts of paths

The parser reads a path through a cursor that its functions share, and stores each part into a
buffer of `SERPAEOS_MAX_PATH` bytes, one character after the other and without looking at the
size.  Here the characters are followed one by one: the cursor stands in front of the rest of the
path, and what a buffer holds in the end is the part that the rest began with.
-/

namespace SerpaeOS

open BlockTable Prog

/-- The memory of a string, from its first character on. -/
def cString (text : List UInt8) (i : ℕ) : UInt8 := text.getD i 0

/-- The memory of a path part, and the indices of the bytes stored there. -/
structure PartBuffer where
  bytes : ℕ → UInt8
  stored : List ℕ

/-- The assignment `result_path_part[i] = c`. -/
def PartBuffer.store (b : PartBuffer) (i : ℕ) (c : UInt8) : PartBuffer :=
  ⟨Function.update b.bytes i c, b.stored ++ [i]⟩

/-- A buffer as `kzalloc` gives it. -/
def PartBuffer.zeroed : PartBuffer := ⟨fun _ => 0, []⟩

/-- The loop of `pathparser_get_path_part`: the cursor, the index and the buffer behind it. -/
def getPathPartLoop (path : ℕ → UInt8) (cursor i : ℕ) (b : PartBuffer) :
    Option (ℕ × ℕ × PartBuffer) :=
  Loop.run ⟨fun (cursor, i, b) => some <|
    if path cursor ≠ 0x2F ∧ path cursor ≠ 0x00 then
      .inl (cursor + 1, i + 1, b.store i (path cursor))
    else .inr (cursor, i, b)⟩ (cursor, i, b)

lemma getPathPartLoop_step (path : ℕ → UInt8) (cursor i : ℕ) (b : PartBuffer) :
    getPathPartLoop path cursor i b =
      if path cursor ≠ 0x2F ∧ path cursor ≠ 0x00 then
        getPathPartLoop path (cursor + 1) (i + 1) (b.store i (path cursor))
      else some (cursor, i, b) := by
  by_cases h : path cursor ≠ 0x2F ∧ path cursor ≠ 0x00
  · rw [if_pos h]
    exact Loop.run_next (congrArg some (if_pos h))
  · rw [if_neg h]
    exact Loop.run_leave (congrArg some (if_neg h))

/-- `pathparser_get_path_part`: the buffer, unless it is freed, and the cursor. -/
def getPathPart (path : ℕ → UInt8) (cursor : ℕ) : Option (Option PartBuffer × ℕ) :=
  (getPathPartLoop path cursor 0 .zeroed).map fun (cursor, i, b) =>
    (if i = 0 then none else some b, if path cursor = 0x2F then cursor + 1 else cursor)

/-- The loop of `pathparser_parse`, behind the parts `parts`. -/
def parsePathPartsLoop (path : ℕ → UInt8) (cursor : ℕ) (parts : List PartBuffer) :
    Option (List PartBuffer) :=
  Loop.run ⟨fun (cursor, parts) => do
    let (part, cursor) ← getPathPart path cursor
    match part with
    | none => return .inr parts
    | some b => return .inl (cursor, parts ++ [b])⟩ (cursor, parts)

/-- The calls of `pathparser_parse_path_part` by `pathparser_parse`: the buffers of the parts. -/
def parsePathParts (path : ℕ → UInt8) (cursor : ℕ) : Option (List PartBuffer) :=
  parsePathPartsLoop path cursor []

/-- The buffer holds the name with a zero behind it, and no byte was stored outside it. -/
structure PartBuffer.Holds (b : PartBuffer) (name : List UInt8) : Prop where
  bytes_eq : ∀ i < name.length, b.bytes i = name.getD i 0
  terminator : b.bytes name.length = 0
  terminator_lt : name.length < maxPath
  stored_lt : ∀ i ∈ b.stored, i < maxPath

/-! ## The loop over the characters -/

/-- The characters of a name stored one after the other. -/
def PartBuffer.storeAll (b : PartBuffer) (i : ℕ) : List UInt8 → PartBuffer
  | [] => b
  | c :: name => PartBuffer.storeAll (b.store i c) (i + 1) name

namespace PartBuffer

variable {b : PartBuffer} {name : List UInt8} {i j : ℕ}

lemma storeAll_of_lt (hj : j < i) : (b.storeAll i name).bytes j = b.bytes j := by
  induction name generalizing b i with
  | nil => rfl
  | cons c name ih => exact (ih (by omega)).trans (Function.update_of_ne hj.ne _ _)

lemma storeAll_bytes (hj : j < name.length) :
    (b.storeAll i name).bytes (i + j) = name.getD j 0 := by
  induction name generalizing b i j with
  | nil => exact absurd hj (by simp)
  | cons c name ih =>
    cases j with
    | zero => exact (storeAll_of_lt (Nat.lt_succ_self i)).trans (Function.update_self _ _ _)
    | succ j =>
      have hrest := ih (b := b.store i c) (i := i + 1) (j := j)
        (by rw [List.length_cons] at hj; omega)
      rwa [Nat.add_right_comm, Nat.add_assoc] at hrest

lemma storeAll_behind (hj : i + name.length ≤ j) : (b.storeAll i name).bytes j = b.bytes j := by
  induction name generalizing b i with
  | nil => rfl
  | cons c name ih =>
    rw [List.length_cons] at hj
    exact (ih (by omega)).trans (Function.update_of_ne (by omega) _ _)

lemma mem_storeAll (hj : j ∈ (b.storeAll i name).stored) :
    j ∈ b.stored ∨ j < i + name.length := by
  induction name generalizing b i with
  | nil => exact Or.inl hj
  | cons c name ih =>
    rw [List.length_cons]
    rcases ih hj with hj | hj
    · rcases List.mem_append.mp hj with hj | hj
      · exact Or.inl hj
      · rw [List.mem_singleton] at hj
        exact Or.inr (by omega)
    · exact Or.inr (by omega)

/-- A name that is shorter than the buffer. -/
lemma zeroed_storeAll (h : name.length < maxPath) : (zeroed.storeAll 0 name).Holds name := by
  refine ⟨fun i hi => ?_, storeAll_behind (by omega), h, fun i hi => ?_⟩
  · have hbyte := storeAll_bytes (b := zeroed) (i := 0) hi
    rwa [Nat.zero_add] at hbyte
  · rcases mem_storeAll hi with hi | hi
    · exact absurd hi List.not_mem_nil
    · omega

end PartBuffer

variable {path : List UInt8} {cursor : ℕ}

lemma cString_of_drop {c : UInt8} {rest : List UInt8} (h : path.drop cursor = c :: rest) :
    cString path cursor = c := by
  have hget : (path.drop cursor)[0]? = path[cursor + 0]? := List.getElem?_drop
  rw [h] at hget
  rw [cString, List.getD_eq_getElem?_getD, ← Nat.add_zero cursor, ← hget]
  rfl

lemma drop_succ_of_drop {c : UInt8} {rest : List UInt8} (h : path.drop cursor = c :: rest) :
    path.drop (cursor + 1) = rest := by
  rw [← List.drop_drop, h]
  rfl

/-- The loop stores the part that the rest of the path begins with. -/
lemma getPathPartLoop_eq (hpath : (0 : UInt8) ∉ path) {rest : List UInt8}
    (hrest : path.drop cursor = rest) (i : ℕ) (b : PartBuffer) :
    getPathPartLoop (cString path) cursor i b =
      some (cursor + (firstPart rest).length, i + (firstPart rest).length,
        b.storeAll i (firstPart rest)) := by
  induction rest generalizing cursor i b with
  | nil =>
    have hend : cString path cursor = 0 := by
      rw [cString, List.getD_eq_getElem?_getD,
        List.getElem?_eq_none (List.drop_eq_nil_iff.mp hrest)]
      rfl
    rw [getPathPartLoop_step, hend, if_neg (by decide)]
    rfl
  | cons c rest ih =>
    have hc := cString_of_drop hrest
    have hne : c ≠ 0 := by
      rintro rfl
      have hmem : (0 : UInt8) ∈ path.drop cursor := hrest ▸ List.mem_cons_self
      exact hpath (List.mem_of_mem_drop hmem)
    rw [getPathPartLoop_step, hc]
    by_cases hslash : c = 0x2F
    · subst hslash
      rw [if_neg (by decide)]
      rfl
    · have hfirst : firstPart (c :: rest) = c :: firstPart rest := by
        simp [firstPart, hslash]
      rw [if_pos ⟨hslash, hne⟩, ih (drop_succ_of_drop hrest), hfirst, List.length_cons]
      simp only [Option.some.injEq, Prod.mk.injEq]
      exact ⟨by omega, by omega, rfl⟩

/-- What stands behind the first part: a slash, or the end of the path. -/
lemma drop_firstPart (rest : List UInt8) :
    rest.drop (firstPart rest).length = rest.dropWhile (· != 0x2F) := by
  induction rest with
  | nil => rfl
  | cons c rest ih =>
    rw [firstPart] at ih ⊢
    by_cases hslash : c = 0x2F
    · simp [hslash]
    · simpa [List.takeWhile_cons, List.dropWhile_cons, hslash] using ih

/-- One part: its buffer, and the cursor in front of what follows it. -/
lemma getPathPart_eq (hpath : (0 : UInt8) ∉ path) {rest : List UInt8}
    (hrest : path.drop cursor = rest) : ∃ cursor', path.drop cursor' = afterPart rest ∧
      getPathPart (cString path) cursor =
        some (if firstPart rest = [] then none
          else some (PartBuffer.zeroed.storeAll 0 (firstPart rest)), cursor') := by
  have hbehind : path.drop (cursor + (firstPart rest).length) = rest.dropWhile (· != 0x2F) := by
    rw [← List.drop_drop, hrest, drop_firstPart]
  rw [getPathPart, getPathPartLoop_eq hpath hrest, Nat.zero_add]
  simp only [Option.map_some, List.length_eq_zero_iff]
  cases hcase : rest.dropWhile (· != 0x2F) with
  | nil =>
    rw [hcase] at hbehind
    have hend : cString path (cursor + (firstPart rest).length) = 0 := by
      rw [cString, List.getD_eq_getElem?_getD,
        List.getElem?_eq_none (List.drop_eq_nil_iff.mp hbehind)]
      rfl
    refine ⟨_, ?_, rfl⟩
    simp only [hend, (by decide : (0 : UInt8) ≠ 0x2F), if_false]
    rw [hbehind, afterPart, hcase]
    rfl
  | cons c behind =>
    rw [hcase] at hbehind
    have hslash : c = 0x2F := by
      have hhead := List.head?_dropWhile_not (fun c : UInt8 => c != 0x2F) rest
      rw [hcase] at hhead
      simpa using hhead
    refine ⟨_, ?_, rfl⟩
    simp only [cString_of_drop hbehind, hslash, if_true]
    rw [drop_succ_of_drop hbehind, afterPart, hcase]
    rfl

/-- The buffers of the parts hold the names, one after the other. -/
lemma parsePathParts_eq (hpath : (0 : UInt8) ∉ path) (calls : ℕ) :
    ∀ {cursor : ℕ}, (path.drop cursor).length < calls →
      (path.drop cursor).length < maxPath →
      ∀ before, ∃ parts, parsePathPartsLoop (cString path) cursor before = some (before ++ parts) ∧
        List.Forall₂ PartBuffer.Holds parts (pathNames calls (path.drop cursor)) := by
  induction calls with
  | zero => exact fun h => absurd h (by omega)
  | succ calls ih =>
    intro cursor hcalls hmax before
    obtain ⟨cursor', hafter, hpart⟩ := getPathPart_eq hpath (rfl : path.drop cursor = _)
    rw [pathNames]
    by_cases hempty : firstPart (path.drop cursor) = []
    · rw [if_pos hempty] at hpart ⊢
      refine ⟨[], ?_, List.Forall₂.nil⟩
      rw [List.append_nil]
      refine Loop.run_leave ?_
      dsimp only
      rw [hpart]
      rfl
    · rw [if_neg hempty] at hpart ⊢
      rw [← hafter]
      have hshorter := length_afterPart_lt hempty
      rw [← hafter] at hshorter
      have hless : (path.drop cursor').length < calls := by omega
      obtain ⟨parts, hparts, hholds⟩ := ih hless (by omega) (before ++ [_])
      have hfirst : (firstPart (path.drop cursor)).length < maxPath :=
        ((List.takeWhile_sublist _).length_le).trans_lt hmax
      refine ⟨_, ?_, List.Forall₂.cons (PartBuffer.zeroed_storeAll hfirst) hholds⟩
      rw [List.append_cons, ← hparts]
      refine Loop.run_next ?_
      dsimp only
      rw [hpart]
      rfl

/-! ## The parts of a path -/

/-- The text of a path: a drive, components, and perhaps a slash behind them. -/
def pathText (drive : ℕ) (components : List (List UInt8)) (slash : Bool) : List UInt8 :=
  UInt8.ofNat (0x30 + drive) :: 0x3A :: 0x2F ::
    (List.intercalate [0x2F] components ++ if slash then [0x2F] else [])

/-- The components are not empty, and have no slash and no zero in them. -/
def ComponentsOk (components : List (List UInt8)) : Prop :=
  ∀ name ∈ components, name ≠ [] ∧ ∀ c ∈ name, c ≠ 0x2F ∧ c ≠ 0

variable {components : List (List UInt8)} {name : List UInt8}

lemma pathNames_nil (calls : ℕ) : pathNames calls [] = [] := by
  cases calls <;> rfl

lemma firstPart_append (hname : ∀ c ∈ name, c ≠ 0x2F ∧ c ≠ 0) {rest : List UInt8}
    (hrest : firstPart rest = []) : firstPart (name ++ rest) = name := by
  rw [firstPart, List.takeWhile_append_of_pos fun c hc => by simpa using (hname c hc).1]
  rw [firstPart] at hrest
  rw [hrest, List.append_nil]

lemma afterPart_append (hname : ∀ c ∈ name, c ≠ 0x2F ∧ c ≠ 0) {rest : List UInt8}
    (hrest : firstPart rest = []) : afterPart (name ++ rest) = rest.drop 1 := by
  rw [afterPart, ← drop_firstPart, firstPart_append hname hrest, List.drop_left]

/-- The names in a text of components are the components. -/
lemma pathNames_intercalate (slash : Bool) (hok : ComponentsOk components) :
    components ≠ [] → ∀ {calls : ℕ},
    (List.intercalate [0x2F] components ++ if slash then [(0x2F : UInt8)] else []).length < calls →
    pathNames calls (List.intercalate [0x2F] components ++ if slash then [0x2F] else []) =
      components := by
  induction components with
  | nil => exact fun hne => absurd rfl hne
  | cons name components ih =>
    intro _ calls hcalls
    obtain ⟨⟨hne, hname⟩, hok'⟩ := List.forall_mem_cons.mp hok
    cases calls with
    | zero => omega
    | succ calls =>
      cases components with
      | nil =>
        -- the last part, with nothing but a slash behind it
        have hrest : firstPart (if slash then [(0x2F : UInt8)] else []) = [] := by
          cases slash <;> rfl
        have hafter : (if slash then [(0x2F : UInt8)] else []).drop 1 = [] := by
          cases slash <;> rfl
        rw [List.intercalate_singleton, pathNames, firstPart_append hname hrest, if_neg hne,
          afterPart_append hname hrest, hafter, pathNames_nil]
      | cons next components =>
        rw [List.intercalate_cons_cons, List.append_assoc, List.append_assoc,
          List.singleton_append] at hcalls ⊢
        rw [List.length_append, List.length_cons] at hcalls
        rw [pathNames, firstPart_append hname rfl, if_neg hne, afterPart_append hname rfl,
          List.drop_succ_cons, List.drop_zero, ih hok' (by simp) (by omega)]

lemma mem_intercalate {c : UInt8} (hc : c ∈ List.intercalate [0x2F] components) :
    c = 0x2F ∨ ∃ name ∈ components, c ∈ name := by
  induction components with
  | nil => exact absurd hc (by simp [List.intercalate])
  | cons name components ih =>
    cases components with
    | nil =>
      rw [List.intercalate_singleton] at hc
      exact Or.inr ⟨name, by simp, hc⟩
    | cons next components =>
      rw [List.intercalate_cons_cons, List.mem_append, List.mem_append, List.mem_singleton] at hc
      rcases hc with (hc | hc) | hc
      · exact Or.inr ⟨name, List.mem_cons_self, hc⟩
      · exact Or.inl hc
      · refine (ih hc).imp_right fun ⟨other, hmem, hother⟩ => ?_
        exact ⟨other, List.mem_cons_of_mem _ hmem, hother⟩

variable {drive : ℕ} {slash : Bool}

/-- The digit of a drive. -/
lemma digit_facts (hdrive : drive < 10) : isdigit (UInt8.ofNat (0x30 + drive)) = true ∧
    tonumericdigit (UInt8.ofNat (0x30 + drive)) = drive ∧ UInt8.ofNat (0x30 + drive) ≠ 0 := by
  interval_cases drive <;> exact ⟨rfl, rfl, by decide⟩

lemma zero_notMem_pathText (hdrive : drive < 10) (hok : ComponentsOk components) :
    (0 : UInt8) ∉ pathText drive components slash := by
  rw [pathText, List.mem_cons, List.mem_cons, List.mem_cons, List.mem_append]
  rintro (h | h | h | h | h)
  · exact (digit_facts hdrive).2.2 h.symm
  · exact absurd h (by decide)
  · exact absurd h (by decide)
  · rcases mem_intercalate h with h | ⟨name, hname, hmem⟩
    · exact absurd h (by decide)
    · exact ((hok name hname).2 0 hmem).2 rfl
  · cases slash with
    | false => exact List.not_mem_nil h
    | true => exact absurd (List.mem_singleton.mp h) (by decide)

lemma pathAccepted_pathText (hdrive : drive < 10)
    (hlen : (pathText drive components slash).length ≤ maxPath) :
    PathAccepted (pathText drive components slash) := by
  refine ⟨hlen, ?_⟩
  have hdigit := (digit_facts hdrive).1
  simp only [pathparserPathValidFormat, pathText, List.length_cons, List.getD_cons_zero,
    List.getD_cons_succ, hdigit]
  simp

lemma namesOf_pathText (hok : ComponentsOk components) (hne : components ≠ []) :
    namesOf (pathText drive components slash) = components := by
  refine pathNames_intercalate slash hok hne ?_
  simp only [pathText, List.length_cons]
  omega

/-- What a path is parsed into, whatever memory there is. -/
lemma ends_pathparserParse_accepted {path : List UInt8} (hpath : PathAccepted path) (m : KMemory) :
    Ends (pathparserParse path) m fun r _ => ∃ p parts,
      r = some ⟨p, tonumericdigit (path.getD 0 0), parts⟩ ∧
        parts.map PathPart.part = namesOf path := by
  have hlen := hpath.1
  rw [pathparserParse, if_neg (by omega), hpath.2]
  simp only [Bool.not_true, Bool.false_eq_true, if_false]
  refine Ends.bind (P := fun _ _ => True) (fun _ _ _ => trivial) fun p m' _ => ?_
  refine Ends.ite (fun _ => ends_stuck) fun _ => ?_
  exact (ends_pathparserLoop _ _ _).bind fun parts m'' hparts => ends_pure ⟨p, parts, rfl, hparts⟩

/-- A path with a drive and components is parsed into these: every result has them, there is a
result when there is memory, and each component fits into its buffer. -/
theorem pathparser_parse_components (hdrive : drive < 10) (hne : components ≠ [])
    (hok : ComponentsOk components)
    (hlen : (pathText drive components slash).length ≤ maxPath) :
    (∀ m, Ends (pathparserParse (pathText drive components slash)) m fun r _ => ∃ p parts,
      r = some ⟨p, drive, parts⟩ ∧ parts.map PathPart.part = components) ∧
    (∀ {A : KMemory → List Extent → ℕ → Prop} {m : KMemory} {L : List Extent} {n : ℕ},
      Ledger A → A m L n → 2 * (pathText drive components slash).length + 3 ≤ n →
      Runs (pathparserParse (pathText drive components slash)) m fun r _ => ∃ p parts,
        r = some ⟨p, drive, parts⟩ ∧ parts.map PathPart.part = components) ∧
    ∃ buffers, parsePathParts (cString (pathText drive components slash)) 3 = some buffers ∧
      List.Forall₂ PartBuffer.Holds buffers components := by
  have hpath := pathAccepted_pathText hdrive hlen
  have hnames : namesOf (pathText drive components slash) = components :=
    namesOf_pathText hok hne
  have hdigit : tonumericdigit ((pathText drive components slash).getD 0 0) = drive :=
    (digit_facts hdrive).2.1
  refine ⟨fun m => ?_, fun hA h hn => ?_, ?_⟩
  · refine (ends_pathparserParse_accepted hpath m).mono fun r m' => ?_
    rw [hdigit, hnames]
    exact id
  · refine (hA.pathparserParse h hpath hn).mono fun r m' hr => ?_
    obtain ⟨p, parts, hr, -, -, hparts, -⟩ := hr
    rw [hdigit] at hr
    rw [hnames] at hparts
    exact ⟨p, parts, hr, hparts⟩
  · have hdrop : ((pathText drive components slash).drop 3).length < maxPath := by
      rw [List.length_drop]
      have hpos : 0 < maxPath := by decide
      omega
    have hcalls : ((pathText drive components slash).drop 3).length <
        (pathText drive components slash).length + 1 := by
      rw [List.length_drop]
      omega
    obtain ⟨buffers, hbuffers, hholds⟩ :=
      parsePathParts_eq (zero_notMem_pathText hdrive hok) _ hcalls hdrop []
    refine ⟨buffers, hbuffers, ?_⟩
    rwa [← namesOf, hnames] at hholds

/-- The path `0:/bin/sh/`. -/
theorem pathparser_parse_components_sh :
    (∀ m, Ends (pathparserParse (pathText 0 [[0x62, 0x69, 0x6E], [0x73, 0x68]] true)) m fun r _ =>
      ∃ p parts, r = some ⟨p, 0, parts⟩ ∧
        parts.map PathPart.part = [[0x62, 0x69, 0x6E], [0x73, 0x68]]) ∧
    ∃ buffers, parsePathParts (cString (pathText 0 [[0x62, 0x69, 0x6E], [0x73, 0x68]] true)) 3 =
        some buffers ∧
      List.Forall₂ PartBuffer.Holds buffers [[0x62, 0x69, 0x6E], [0x73, 0x68]] := by
  have hok : ComponentsOk [[0x62, 0x69, 0x6E], [0x73, 0x68]] := by
    intro component hmem
    rcases List.mem_pair.mp hmem with rfl | rfl
    · exact ⟨by decide, by simp⟩
    · exact ⟨by decide, by simp⟩
  have hlen : (pathText 0 [[0x62, 0x69, 0x6E], [0x73, 0x68]] true).length ≤ maxPath := by decide
  obtain ⟨hends, -, hbuffers⟩ :=
    pathparser_parse_components (by decide) (by decide) hok hlen
  exact ⟨hends, hbuffers⟩

end SerpaeOS
