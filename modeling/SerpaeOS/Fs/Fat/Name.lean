import SerpaeOS.Config
import SerpaeOS.Fs.Fat.Item
import SerpaeOS.Lib.CString
import Mathlib.Data.List.GetD

/-!
# The names of directory entries

`string_to_FAT_filename` puts a name into the 11 bytes of a directory entry, and
`get_full_relative_filename` puts the name of an entry into a buffer.  The first one returns when
the base has eight characters, and then drops the extension; the second one does not look at the
size of the buffer.
-/

namespace SerpaeOS

open Bytes FatDirectoryItem

/-- `toupper`. -/
def toupper (x : UInt8) : UInt8 := if 0x61 ≤ x ∧ x ≤ 0x7A then x - 0x20 else x

/-- The loop of `string_to_FAT_filename` over at most `n` characters more. -/
def stringToFatFilenameLoop : ℕ → List UInt8 → Bool → ℕ → ℕ → (ℕ → UInt8) → ℕ → UInt8
  | 0, _, _, _, _, out => out
  | _ + 1, [], _, _, _, out => out
  | n + 1, c :: filename, ext, f, e, out =>
    if c = 0x2E then stringToFatFilenameLoop n filename true f e out
    else if ext then
      let out := Function.update out (8 + e) (toupper c)
      if e + 1 = 3 then out else stringToFatFilenameLoop n filename ext f (e + 1) out
    else
      let out := Function.update out f (toupper c)
      if f + 1 = 8 then out else stringToFatFilenameLoop n filename ext (f + 1) e out

/-- `string_to_FAT_filename`, which stores the name at the beginning of an entry. -/
def stringToFatFilename (filename : List UInt8) (out : ℕ → UInt8) : ℕ → UInt8 :=
  stringToFatFilenameLoop 13 filename false 0 0 (store out 0 (List.replicate 11 0x20))

/-- The entry with a name stored in it. -/
def FatDirectoryItem.setFilename (item : FatDirectoryItem) (filename : List UInt8) :
    FatDirectoryItem :=
  ⟨stringToFatFilename filename item.raw⟩

/-- The loop of `fat16_to_proper_string` and `fat32_to_proper_string` over the field: the pointer
`*out` and the memory. -/
def toProperStringLoop : List UInt8 → ℕ → (ℕ → UInt8) → ℕ × (ℕ → UInt8)
  | [], out, byte => (out, byte)
  | c :: field, out, byte =>
    if c = 0x00 ∨ c = 0x20 then (out, byte)
    else toProperStringLoop field (out + 1) (Function.update byte out c)

/-- `fat16_to_proper_string` and `fat32_to_proper_string`. -/
def toProperStringAt (field : List UInt8) (out : ℕ) (byte : ℕ → UInt8) : ℕ × (ℕ → UInt8) :=
  let copied := toProperStringLoop field out byte
  (copied.1, Function.update copied.2 copied.1 0x00)

/-- `get_full_relative_filename` into the buffer of `maxLen` bytes at `out`: the memory. -/
def getFullRelativeFilename (item : FatDirectoryItem) (out maxLen : ℕ) (byte : ℕ → UInt8) :
    ℕ → UInt8 :=
  let byte := store byte out (List.replicate maxLen 0x00)
  let named := toProperStringAt item.filename out byte
  if item.raw 8 ≠ 0x00 ∧ item.raw 8 ≠ 0x20 then
    (toProperStringAt item.ext (named.1 + 1) (Function.update named.2 named.1 0x2E)).2
  else named.2

def fat16GetFullRelativeFilename := getFullRelativeFilename
def fat32GetFullRelativeFilename := getFullRelativeFilename

/-! ## Names -/

/-- A name of a base with one to eight characters and an extension with up to three. -/
structure ShortName where
  base : List UInt8
  ext : List UInt8
  base_ne_nil : base ≠ []
  base_le : base.length ≤ 8
  ext_le : ext.length ≤ 3
  plain : ∀ c ∈ base ++ ext, c ≠ 0x00 ∧ c ≠ 0x20 ∧ c ≠ 0x2E

/-- The name as it is written in a path; without an extension there is no dot. -/
def ShortName.text (name : ShortName) : List UInt8 :=
  name.base ++ if name.ext = [] then [] else 0x2E :: name.ext

/-- An entry with the name stored in it, whatever it held before, has the name in upper case, and
is found under the name. -/
def FormatsBack (name : ShortName) : Prop :=
  ∀ item : FatDirectoryItem,
    (item.setFilename name.text).fullRelativeFilename = name.text.map toupper ∧
      istrncmp (item.setFilename name.text).fullRelativeFilename name.text maxPath = 0

/-- The function writes to the `maxLen` bytes of the buffer only, and leaves a string with its
terminator there. -/
def StaysInside (format : FatDirectoryItem → ℕ → ℕ → (ℕ → UInt8) → ℕ → UInt8)
    (item : FatDirectoryItem) (maxLen : ℕ) : Prop :=
  ∀ (out : ℕ) (byte : ℕ → UInt8),
    (∀ a, a < out ∨ out + maxLen ≤ a → format item out maxLen byte a = byte a) ∧
      ∃ l, HasString (format item out maxLen byte) out l ∧ l.length < maxLen

variable {out byte : ℕ → UInt8} {base ext rest l field : List UInt8} {item : FatDirectoryItem}
  {name : ShortName} {f e n k a maxLen : ℕ} {c : UInt8}

/-! ## Upper case -/

/-- A letter in lower case has its capital 32 codes before it. -/
lemma toupper_of_lower (h : 0x61 ≤ c ∧ c ≤ 0x7A) :
    (toupper c).toNat + 0x20 = c.toNat ∧ 0x61 ≤ c.toNat ∧ c.toNat ≤ 0x7A := by
  have h1 : 0x61 ≤ c.toNat := UInt8.le_iff_toNat_le.mp h.1
  have h2 : c.toNat ≤ 0x7A := UInt8.le_iff_toNat_le.mp h.2
  have hle : (0x20 : UInt8) ≤ c := UInt8.le_iff_toNat_le.mpr ((by decide : 0x20 ≤ 0x61).trans h1)
  have hup : (toupper c).toNat = c.toNat - 0x20 := by
    rw [toupper, if_pos h]
    exact UInt8.toNat_sub_of_le _ _ hle
  omega

/-- Only a letter in upper case is new. -/
lemma toupper_ne {d : UInt8} (hd : d.toNat < 0x41) (h : c ≠ d) : toupper c ≠ d := by
  by_cases hlow : 0x61 ≤ c ∧ c ≤ 0x7A
  · obtain ⟨hup, h1, -⟩ := toupper_of_lower hlow
    intro heq
    rw [heq] at hup
    omega
  · rwa [toupper, if_neg hlow]

lemma tolower_toupper (c : UInt8) : tolower (toupper c) = tolower c := by
  by_cases hlow : 0x61 ≤ c ∧ c ≤ 0x7A
  · obtain ⟨hup, h1, h2⟩ := toupper_of_lower hlow
    have hcap : 0x41 ≤ toupper c ∧ toupper c ≤ 0x5A := by
      simp only [UInt8.le_iff_toNat_le, UInt8.reduceToNat]
      omega
    have hnot : ¬ (0x41 ≤ c ∧ c ≤ 0x5A) := by
      simp only [UInt8.le_iff_toNat_le, UInt8.reduceToNat]
      omega
    rw [tolower, if_pos hcap, tolower, if_neg hnot, ← UInt8.toNat_inj, UInt8.toNat_add]
    simp only [UInt8.reduceToNat]
    omega
  · rw [toupper, if_neg hlow]

lemma fold_map_toupper (l : List UInt8) : fold (l.map toupper) = fold l := by
  rw [fold, fold, List.map_map]
  exact List.map_congr_left fun c _ => tolower_toupper c

/-! ## Storing a name -/

/-- A base that does not fill the field is stored, and the loop goes on behind it. -/
lemma storeBase_short (hbase : ∀ c ∈ base, c ≠ 0x2E) (hlen : f + base.length < 8) :
    stringToFatFilenameLoop (base.length + n) (base ++ rest) false f e out =
      stringToFatFilenameLoop n rest false (f + base.length) e
        (store out f (base.map toupper)) := by
  induction base generalizing f out with
  | nil => simp only [List.length_nil, Nat.zero_add, List.nil_append, Nat.add_zero, List.map_nil,
      store_nil]
  | cons c base ih =>
    obtain ⟨hc, hbase⟩ := List.forall_mem_cons.mp hbase
    rw [List.length_cons] at hlen
    rw [List.length_cons, Nat.add_right_comm, List.cons_append, stringToFatFilenameLoop, if_neg hc]
    simp only [Bool.false_eq_true, if_false]
    rw [if_neg (by omega), ih hbase (by omega), store_cons, List.map_cons]
    congr 1
    omega

/-- A base of eight characters is stored, and the loop returns. -/
lemma storeBase_full (hbase : ∀ c ∈ base, c ≠ 0x2E) (hne : base ≠ []) (hlen : f + base.length = 8) :
    stringToFatFilenameLoop (base.length + n) (base ++ rest) false f e out =
      store out f (base.map toupper) := by
  induction base generalizing f out with
  | nil => exact absurd rfl hne
  | cons c base ih =>
    obtain ⟨hc, hbase⟩ := List.forall_mem_cons.mp hbase
    rw [List.length_cons] at hlen
    rw [List.length_cons, Nat.add_right_comm, List.cons_append, stringToFatFilenameLoop, if_neg hc]
    simp only [Bool.false_eq_true, if_false]
    by_cases hend : f + 1 = 8
    · obtain rfl : base = [] := List.length_eq_zero_iff.mp (by omega)
      rw [if_pos hend, List.map_singleton, ← store_cons, store_nil]
    · have hne' : base ≠ [] := by
        rintro rfl
        exact hend hlen
      rw [if_neg hend, ih hbase hne' (by omega), store_cons, List.map_cons]

/-- An extension is stored behind the field of the base. -/
lemma storeExt (hext : ∀ c ∈ ext, c ≠ 0x2E) (hlen : e + ext.length ≤ 3) (hn : ext.length ≤ n) :
    stringToFatFilenameLoop n ext true f e out = store out (8 + e) (ext.map toupper) := by
  induction ext generalizing e n out with
  | nil =>
    rw [List.map_nil, store_nil]
    cases n <;> rfl
  | cons c ext ih =>
    obtain ⟨hc, hext⟩ := List.forall_mem_cons.mp hext
    rw [List.length_cons] at hlen hn
    obtain ⟨n, rfl⟩ := Nat.exists_eq_succ_of_ne_zero (by omega : n ≠ 0)
    rw [stringToFatFilenameLoop, if_neg hc]
    simp only [if_true]
    by_cases hend : e + 1 = 3
    · obtain rfl : ext = [] := List.length_eq_zero_iff.mp (by omega)
      rw [if_pos hend, List.map_singleton, ← store_cons, store_nil]
    · rw [if_neg hend, ih hext (by omega) (by omega), ← Nat.add_assoc, store_cons, List.map_cons]

/-- The characters that are stored behind the base of the name. -/
def ShortName.storedExt (name : ShortName) : List UInt8 :=
  if name.base.length < 8 then name.ext else []

/-- What `string_to_FAT_filename` stores: with a base of eight characters the extension is lost. -/
lemma ShortName.stringToFatFilename_eq (name : ShortName) (raw : ℕ → UInt8) :
    stringToFatFilename name.text raw =
      store (store (store raw 0 (List.replicate 11 0x20)) 0 (name.base.map toupper)) 8
        (name.storedExt.map toupper) := by
  have hbase : ∀ c ∈ name.base, c ≠ 0x2E := fun c hc =>
    (name.plain c (List.mem_append_left _ hc)).2.2
  have hext : ∀ c ∈ name.ext, c ≠ 0x2E := fun c hc =>
    (name.plain c (List.mem_append_right _ hc)).2.2
  have hle := name.base_le
  have hle' := name.ext_le
  rw [stringToFatFilename, text, storedExt]
  by_cases hshort : name.base.length < 8
  · obtain ⟨n, hn⟩ : ∃ n, 13 = name.base.length + (n + 4) := ⟨9 - name.base.length, by omega⟩
    rw [hn, storeBase_short hbase (by omega), if_pos hshort]
    by_cases hnil : name.ext = []
    · rw [if_pos hnil, hnil, List.map_nil, store_nil]
      rfl
    · rw [if_neg hnil, stringToFatFilenameLoop, if_pos rfl, storeExt hext (by omega) (by omega)]
  · obtain ⟨n, hn⟩ : ∃ n, 13 = name.base.length + n := ⟨13 - name.base.length, by omega⟩
    rw [hn, storeBase_full hbase name.base_ne_nil (by omega), if_neg hshort, List.map_nil,
      store_nil]

/-! ## Reading the name back -/

/-- The characters of a name are none of those that end a field. -/
def Plain (l : List UInt8) : Prop := ∀ c ∈ l, c ≠ 0x00 ∧ c ≠ 0x20

lemma Plain.map_toupper (h : Plain l) : Plain (l.map toupper) := by
  intro c hc
  obtain ⟨d, hd, rfl⟩ := List.mem_map.mp hc
  exact ⟨toupper_ne (by decide) (h d hd).1, toupper_ne (by decide) (h d hd).2⟩

/-- A field that is filled up with spaces. -/
lemma toProperString_padded (h : Plain l) (k : ℕ) :
    toProperString (l ++ List.replicate k 0x20) = l := by
  rw [toProperString, List.takeWhile_append_of_pos fun c hc => by simpa using h c hc]
  cases k with
  | zero => simp
  | succ k => simp [List.replicate_succ]

/-- A field that was blank before its first bytes were stored. -/
lemma slice_store_blank (b : ℕ → UInt8) {size : ℕ} (hblank : ∀ i < size, b (a + i) = 0x20)
    (hlen : l.length ≤ size) :
    slice (store b a l) a size = l ++ List.replicate (size - l.length) 0x20 := by
  obtain ⟨k, rfl⟩ := Nat.exists_eq_add_of_le hlen
  rw [slice_add, slice_store_self, Nat.add_sub_cancel_left]
  congr 1
  refine List.eq_replicate_iff.mpr ⟨length_slice _ _ _, fun c hc => ?_⟩
  obtain ⟨i, hi, rfl⟩ := List.mem_map.mp hc
  rw [List.mem_range] at hi
  rw [store_of_lt (by omega), Nat.add_assoc, hblank _ (by omega)]

lemma ShortName.plain_base (name : ShortName) : Plain name.base := fun c hc =>
  (name.plain c (List.mem_append_left _ hc)).imp_right And.left

lemma ShortName.plain_storedExt (name : ShortName) : Plain name.storedExt := by
  rw [storedExt]
  split_ifs
  · exact fun c hc => (name.plain c (List.mem_append_right _ hc)).imp_right And.left
  · exact fun c hc => absurd hc List.not_mem_nil

lemma ShortName.length_storedExt_le (name : ShortName) : name.storedExt.length ≤ 3 := by
  rw [storedExt]
  split_ifs
  · exact name.ext_le
  · exact Nat.zero_le _

/-- The name of the entry is the base, and the extension as far as it was stored. -/
lemma ShortName.fullRelativeFilename_eq (name : ShortName) (item : FatDirectoryItem) :
    (item.setFilename name.text).fullRelativeFilename =
      name.base.map toupper ++
        if name.storedExt = [] then [] else 0x2E :: name.storedExt.map toupper := by
  have hstored := name.stringToFatFilename_eq item.raw
  have hlen := name.length_storedExt_le
  have hblank : ∀ i < 11, store item.raw 0 (List.replicate 11 0x20) i = 0x20 := by
    intro i hi
    have hget := store_add (b := item.raw) (a := 0) (l := List.replicate 11 0x20) (i := i)
      (by rw [List.length_replicate]; exact hi)
    rw [Nat.zero_add] at hget
    rw [hget, List.getD_replicate _ hi]
  have hbase := name.base_le
  have hfilename : (item.setFilename name.text).filename =
      name.base.map toupper ++ List.replicate (8 - name.base.length) 0x20 := by
    rw [filename, setFilename, hstored, slice_store_of_disjoint (Or.inl (by omega)),
      slice_store_blank _ (fun i hi => by rw [Nat.zero_add]; exact hblank i (by omega))
        (by rw [List.length_map]; exact hbase), List.length_map]
  have hfield : ∀ i < 3, store (store item.raw 0 (List.replicate 11 0x20)) 0
      (name.base.map toupper) (8 + i) = 0x20 := by
    intro i hi
    rw [store_of_lt (by rw [List.length_map]; omega), hblank _ (by omega)]
  have hext : (item.setFilename name.text).ext =
      name.storedExt.map toupper ++ List.replicate (3 - name.storedExt.length) 0x20 := by
    rw [FatDirectoryItem.ext, setFilename, hstored,
      slice_store_blank _ hfield (by rw [List.length_map]; exact hlen), List.length_map]
  have hhead : (item.setFilename name.text).raw 8 =
      ((item.setFilename name.text).ext).headD 0 := rfl
  rw [fullRelativeFilename, hfilename, toProperString_padded name.plain_base.map_toupper, hhead,
    hext, toProperString_padded name.plain_storedExt.map_toupper]
  congr 1
  cases hcase : name.storedExt with
  | nil => rfl
  | cons c ext =>
    have hc := name.plain_storedExt.map_toupper (toupper c) (by rw [hcase]; simp)
    rw [if_neg (List.cons_ne_nil _ _), List.map_cons, List.cons_append, List.headD_cons, if_pos hc]

lemma ShortName.zero_notMem_text (name : ShortName) : 0 ∉ name.text := by
  intro h
  rw [text, List.mem_append] at h
  rcases h with h | h
  · exact (name.plain_base 0 h).1 rfl
  · split_ifs at h
    · exact List.not_mem_nil h
    · rcases List.mem_cons.mp h with h | h
      · exact absurd h (by decide)
      · exact (name.plain 0 (List.mem_append_right _ h)).1 rfl

/-- The bytes behind the name stay as they were. -/
lemma ShortName.setFilename_raw (name : ShortName) (item : FatDirectoryItem) (ha : 11 ≤ a) :
    (item.setFilename name.text).raw a = item.raw a := by
  have hbase := name.base_le
  have hext := name.length_storedExt_le
  rw [setFilename, name.stringToFatFilename_eq]
  dsimp only
  rw [store_of_lt (Or.inr (by rw [List.length_map]; omega)),
    store_of_lt (Or.inr (by rw [List.length_map]; omega)),
    store_of_lt (Or.inr (by rw [List.length_replicate]; omega))]

lemma toupper_eq_deleted (h : toupper c = 0xE5) : c = 0xE5 :=
  tolower_eq_deleted (by rw [← tolower_toupper, h]; decide)

/-- An entry with a name is in use, unless the name starts with the character of deleted ones. -/
lemma ShortName.setFilename_raw_zero (hhead : name.text.head? ≠ some 0xE5)
    (item : FatDirectoryItem) : (item.setFilename name.text).raw 0 ≠ 0x00 ∧
      ¬ (item.setFilename name.text).Deleted := by
  obtain ⟨b, base, hbase⟩ := List.exists_cons_of_ne_nil name.base_ne_nil
  have hplain := name.plain b (List.mem_append_left _ (by rw [hbase]; exact List.mem_cons_self))
  have hname : (item.setFilename name.text).fullRelativeFilename.head? = some (toupper b) := by
    rw [name.fullRelativeFilename_eq, hbase]
    rfl
  have hdot : toupper b ≠ 0x2E := toupper_ne (by decide) hplain.2.2
  have hblank : ¬ ((item.setFilename name.text).raw 0 = 0x00 ∨
      (item.setFilename name.text).raw 0 = 0x20) := by
    intro hblank
    rcases fullRelativeFilename_head_blank _ hblank with hnone | hsome
    · rw [hname] at hnone
      cases hnone
    · exact hdot (Option.some.inj (hname.symm.trans hsome))
  rw [not_or] at hblank
  refine ⟨hblank.1, fun hdel => hhead ?_⟩
  rw [fullRelativeFilename_head _ hblank.1 hblank.2] at hname
  have hb : b = 0xE5 := toupper_eq_deleted ((Option.some.inj hname).symm.trans hdel)
  rw [ShortName.text, hbase, hb]
  rfl

/-- Without the part that is lost, the entry has the name in upper case. -/
lemma ShortName.fullRelativeFilename_upper (h : name.base.length < 8 ∨ name.ext = [])
    (item : FatDirectoryItem) :
    (item.setFilename name.text).fullRelativeFilename = name.text.map toupper := by
  have hdot : toupper 0x2E = 0x2E := by decide
  have hext : name.storedExt = name.ext := by
    rw [ShortName.storedExt]
    rcases h with hshort | hnil
    · exact if_pos hshort
    · rw [hnil, ite_self]
  rw [name.fullRelativeFilename_eq, hext, ShortName.text, List.map_append]
  split_ifs
  · rfl
  · rw [List.map_cons, hdot]

/-- The entry has the name up to case unless a part is lost. -/
lemma ShortName.fold_fullRelativeFilename_iff (item : FatDirectoryItem) :
    fold (item.setFilename name.text).fullRelativeFilename = fold name.text ↔
      name.base.length < 8 ∨ name.ext = [] := by
  constructor
  · intro h
    by_contra hnot
    rw [not_or] at hnot
    have hlen := congrArg List.length h
    rw [name.fullRelativeFilename_eq, ShortName.storedExt, if_neg hnot.1, if_pos rfl,
      ShortName.text, if_neg hnot.2] at hlen
    simp only [fold, List.length_append, List.length_map, List.length_nil, List.length_cons] at hlen
    omega
  · intro h
    rw [ShortName.fullRelativeFilename_upper h, fold_map_toupper]

/-- **Names of new files.**  The 11 bytes that `string_to_FAT_filename` makes of an 8.3 name are
formatted to the name in upper case, and found under the name, if and only if the base has less
than eight characters or there is no extension. -/
theorem string_to_fat_filename_iff (name : ShortName) :
    FormatsBack name ↔ name.base.length < 8 ∨ name.ext = [] := by
  constructor
  · intro h
    rw [← ShortName.fold_fullRelativeFilename_iff ⟨fun _ => 0⟩, (h ⟨fun _ => 0⟩).1,
      fold_map_toupper]
  · intro h item
    refine ⟨ShortName.fullRelativeFilename_upper h item, ?_⟩
    rw [istrncmp_eq_zero_iff_of_lt (zero_notMem_fullRelativeFilename _) name.zero_notMem_text
      ((length_fullRelativeFilename_le _).trans_lt (by decide)),
      ShortName.fold_fullRelativeFilename_iff]
    exact h

/-- The name `KERNEL32.BIN`. -/
def longBaseName : ShortName where
  base := [0x4B, 0x45, 0x52, 0x4E, 0x45, 0x4C, 0x33, 0x32]
  ext := [0x42, 0x49, 0x4E]
  base_ne_nil := by decide
  base_le := by decide
  ext_le := by decide
  plain := by simp

/-- A file created under the name `KERNEL32.BIN` has the name `KERNEL32`. -/
theorem not_string_to_fat_filename_long : ¬ FormatsBack longBaseName := by
  intro h
  exact absurd (h ⟨fun _ => 0⟩).1 (by decide)

/-! ## Formatting a name into a buffer -/

variable {mem : ℕ → UInt8} {p : ℕ}

/-- The loop copies the proper string of the field. -/
lemma toProperStringLoop_eq (field : List UInt8) (p : ℕ) (mem : ℕ → UInt8) :
    toProperStringLoop field p mem =
      (p + (toProperString field).length, store mem p (toProperString field)) := by
  induction field generalizing p mem with
  | nil => rw [toProperStringLoop, toProperString, List.takeWhile_nil, store_nil]; rfl
  | cons c field ih =>
    rw [toProperStringLoop]
    by_cases hc : c = 0x00 ∨ c = 0x20
    · have hnil : toProperString (c :: field) = [] := by
        rw [toProperString, List.takeWhile_cons_of_neg]
        rcases hc with rfl | rfl
        · decide
        · decide
      rw [if_pos hc, hnil, store_nil]
      rfl
    · have hcons : toProperString (c :: field) = c :: toProperString field := by
        rw [toProperString, List.takeWhile_cons_of_pos]
        · rfl
        · simpa using hc
      rw [if_neg hc, ih, hcons, store_cons, List.length_cons, Nat.add_assoc, Nat.add_comm 1]

lemma toProperStringAt_eq (field : List UInt8) (p : ℕ) (mem : ℕ → UInt8) :
    toProperStringAt field p mem =
      (p + (toProperString field).length, store mem p (toProperString field ++ [0x00])) := by
  rw [toProperStringAt, toProperStringLoop_eq, store_append, ← store_cons, store_nil]

/-- Another byte in the place of the last one that was stored. -/
lemma update_store_last (l : List UInt8) (u w : UInt8) :
    Function.update (store mem p (l ++ [u])) (p + l.length) w = store mem p (l ++ [w]) := by
  simp only [store_append, ← store_cons, store_nil, Function.update_idem]

/-- The name of the entry stands in the buffer, with its terminator. -/
lemma getFullRelativeFilename_eq (item : FatDirectoryItem) (p maxLen : ℕ) (mem : ℕ → UInt8) :
    getFullRelativeFilename item p maxLen mem =
      store (store mem p (List.replicate maxLen 0x00)) p (item.fullRelativeFilename ++ [0x00]) := by
  rw [getFullRelativeFilename, fullRelativeFilename]
  simp only [toProperStringAt_eq]
  by_cases hext : item.raw 8 ≠ 0x00 ∧ item.raw 8 ≠ 0x20
  · -- the dot takes the place of the first terminator
    have hnext : p + (toProperString item.filename).length + 1 =
        p + (toProperString item.filename ++ [0x2E]).length := by
      rw [List.length_append, List.length_singleton, Nat.add_assoc]
    rw [if_pos hext, if_pos hext, update_store_last, hnext, ← store_append]
    simp only [List.append_assoc, List.cons_append, List.nil_append]
  · rw [if_neg hext, if_neg hext, List.append_nil]

/-- The buffer is large enough if the name is shorter. -/
lemma staysInside_iff : StaysInside getFullRelativeFilename item maxLen ↔
    item.fullRelativeFilename.length < maxLen := by
  constructor
  · intro h
    by_contra hlen
    -- the terminator is stored behind the buffer
    obtain ⟨hkept, -⟩ := h 0 fun _ => 1
    have hbehind := hkept (0 + item.fullRelativeFilename.length) (Or.inr (by omega))
    rw [getFullRelativeFilename_eq, store_add (by simp), List.getD_append_right _ _ _ _ le_rfl,
      Nat.sub_self] at hbehind
    exact absurd hbehind (by decide)
  · intro hlen p mem
    rw [getFullRelativeFilename_eq]
    refine ⟨fun a ha => ?_, _, hasString_store item.zero_notMem_fullRelativeFilename, hlen⟩
    rw [store_of_lt (by rw [List.length_append, List.length_singleton]; omega),
      store_of_lt (by rw [List.length_replicate]; exact ha)]

lemma length_toProperString_eq_iff (field : List UInt8) :
    (toProperString field).length = field.length ↔ Plain field := by
  constructor
  · intro h c hc
    have hself : toProperString field = field := (List.takeWhile_sublist _).eq_of_length h
    rw [← hself] at hc
    simpa using List.mem_takeWhile_imp hc
  · intro h
    rw [toProperString, List.takeWhile_eq_self_iff.mpr fun c hc => by simpa using h c hc]

/-- The bytes of a field. -/
lemma plain_slice_iff {size : ℕ} :
    Plain (slice mem p size) ↔ ∀ i < size, mem (p + i) ≠ 0x00 ∧ mem (p + i) ≠ 0x20 := by
  rw [Plain, slice, List.forall_mem_map]
  simp only [List.mem_range]

/-- Only an entry without a blank among the 11 bytes of its name has 12 characters. -/
lemma length_fullRelativeFilename_lt_iff (item : FatDirectoryItem) :
    item.fullRelativeFilename.length < 12 ↔ ∃ i < 11, item.raw i = 0x00 ∨ item.raw i = 0x20 := by
  have hbase := length_toProperString_le item.filename
  have hext := length_toProperString_le item.ext
  have hbase' := (length_toProperString_eq_iff item.filename).trans plain_slice_iff
  have hext' := (length_toProperString_eq_iff item.ext).trans plain_slice_iff
  have h8 : item.filename.length = 8 := length_slice _ _ _
  have h3 : item.ext.length = 3 := length_slice _ _ _
  rw [h8] at hbase hbase'
  rw [h3] at hext hext'
  rw [fullRelativeFilename, List.length_append]
  constructor
  · intro hlen
    by_contra hnone
    have hplain : ∀ i < 11, item.raw i ≠ 0x00 ∧ item.raw i ≠ 0x20 := by
      intro i hi
      refine ⟨fun h => hnone ⟨i, hi, Or.inl h⟩, fun h => hnone ⟨i, hi, Or.inr h⟩⟩
    rw [hbase'.mpr fun i hi => hplain _ (by omega), if_pos (hplain 8 (by decide)),
      List.length_cons, hext'.mpr fun i hi => hplain _ (by omega)] at hlen
    exact absurd hlen (by decide)
  · rintro ⟨i, hi, hblank⟩
    have hfield : (toProperString item.filename).length < 8 ∨
        (toProperString item.ext).length < 3 := by
      by_contra hfull
      rw [not_or, not_lt, not_lt] at hfull
      have hplain : item.raw i ≠ 0x00 ∧ item.raw i ≠ 0x20 := by
        rcases Nat.lt_or_ge i 8 with hlt | hge
        · have := hbase'.mp (by omega) i hlt
          rwa [Nat.zero_add] at this
        · have := hext'.mp (by omega) (i - 8) (by omega)
          rwa [Nat.add_sub_cancel' hge] at this
      exact hblank.elim hplain.1 hplain.2
    split_ifs
    · rw [List.length_cons]
      omega
    · rw [List.length_nil]
      omega

/-- **Names in buffers.**  The buffers of `SERPAEOS_MAX_PATH` bytes are large enough for the name of
every entry; those of 12 bytes are if and only if one of the 11 bytes of the name is zero or a
space. -/
theorem full_relative_filename_inside_iff (item : FatDirectoryItem) :
    (StaysInside fat16GetFullRelativeFilename item maxPath ∧
      StaysInside fat32GetFullRelativeFilename item maxPath) ∧
    (StaysInside fat16GetFullRelativeFilename item 12 ↔
      ∃ i < 11, item.raw i = 0x00 ∨ item.raw i = 0x20) ∧
    (StaysInside fat32GetFullRelativeFilename item 12 ↔
      ∃ i < 11, item.raw i = 0x00 ∨ item.raw i = 0x20) := by
  have hlong : StaysInside getFullRelativeFilename item maxPath :=
    staysInside_iff.mpr ((length_fullRelativeFilename_le item).trans_lt (by decide))
  have hshort := staysInside_iff.trans (length_fullRelativeFilename_lt_iff item)
  exact ⟨⟨hlong, hlong⟩, hshort, hshort⟩

/-- The terminator behind the name `AAAAAAAA.AAA` is stored behind the buffer of 12 bytes. -/
theorem not_full_relative_filename_inside_full :
    ¬ StaysInside fat16GetFullRelativeFilename ⟨fun _ => 0x41⟩ 12 ∧
      ¬ StaysInside fat32GetFullRelativeFilename ⟨fun _ => 0x41⟩ 12 := by
  have h : ¬ StaysInside getFullRelativeFilename ⟨fun _ => 0x41⟩ 12 := by
    intro h
    obtain ⟨hkept, -⟩ := h 0 fun _ => 1
    exact absurd (hkept 12 (by decide)) (by decide)
  exact ⟨h, h⟩

end SerpaeOS
