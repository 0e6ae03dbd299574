import SerpaeOS.Fs.Str
import SerpaeOS.Lib.Bytes
import SerpaeOS.Lib.Word

/-!
# Directory items

`struct fat_directory_item`, the 32 bytes of a directory entry, and the descriptor of an
open file.
-/

namespace SerpaeOS

open Bytes Word

def fatFileReadOnly : ℕ := 0x01
def fatFileVolumeLabel : ℕ := 0x08
def fatFileSubdirectory : ℕ := 0x10

/-- The size of a directory entry. -/
def itemSize : ℕ := 32

/-- `struct fat_directory_item`, byte by byte. -/
structure FatDirectoryItem where
  raw : ℕ → UInt8

namespace FatDirectoryItem

variable (item : FatDirectoryItem)

def filename : List UInt8 := slice item.raw 0 8
def ext : List UInt8 := slice item.raw 8 3
def attributeBits : ℕ := (item.raw 11).toNat
def high16BitsFirstCluster : ℕ := u16le item.raw 20
def low16BitsFirstCluster : ℕ := u16le item.raw 26
def filesize : ℕ := u32le item.raw 28

/-- `fat16_get_first_cluster` and `fat32_get_first_cluster`. -/
def firstCluster : ℕ := item.high16BitsFirstCluster * 2 ^ 16 + item.low16BitsFirstCluster

/-- The first cluster in a variable of type `int`. -/
def firstClusterInt : ℤ := i32 item.firstCluster

/-- The assignment of the file size. -/
def setFilesize (n : ℕ) : FatDirectoryItem := ⟨store item.raw 28 (numberBytes 4 n)⟩

/-- `fat16_to_proper_string` and `fat32_to_proper_string`: the characters before the first
zero or space of a field. -/
def toProperString (field : List UInt8) : List UInt8 :=
  field.takeWhile fun c => c != 0x00 && c != 0x20

/-- `fat16_get_full_relative_filename` and `fat32_get_full_relative_filename`. -/
def fullRelativeFilename : List UInt8 :=
  toProperString item.filename ++
    if item.raw 8 ≠ 0x00 ∧ item.raw 8 ≠ 0x20 then 0x2E :: toProperString item.ext else []

/-- The entry was deleted. -/
def Deleted : Prop := item.raw 0 = 0xE5

/-- The entry is a volume label, or a part of a long name. -/
def Label : Prop := item.attributeBits &&& fatFileVolumeLabel ≠ 0

instance : Decidable item.Deleted := inferInstanceAs (Decidable (_ = _))
instance : Decidable item.Label := inferInstanceAs (Decidable (_ ≠ _))

/-- Two entries have the same name up to case. -/
def SameName (e f : FatDirectoryItem) : Prop :=
  fold e.fullRelativeFilename = fold f.fullRelativeFilename

lemma zero_notMem_toProperString (field : List UInt8) : 0 ∉ toProperString field := by
  intro h
  have := List.mem_takeWhile_imp h
  simp at this

lemma length_toProperString_le (field : List UInt8) :
    (toProperString field).length ≤ field.length :=
  (List.takeWhile_sublist _).length_le

lemma zero_notMem_fullRelativeFilename : 0 ∉ item.fullRelativeFilename := by
  rw [fullRelativeFilename, List.mem_append]
  rintro (h | h)
  · exact zero_notMem_toProperString _ h
  · split_ifs at h
    · rcases List.mem_cons.mp h with h | h
      · exact absurd h (by decide)
      · exact zero_notMem_toProperString _ h
    · simp at h

lemma length_fullRelativeFilename_le : item.fullRelativeFilename.length ≤ 12 := by
  have h1 := length_toProperString_le item.filename
  have h2 := length_toProperString_le item.ext
  simp only [filename, ext, length_slice] at h1 h2
  rw [fullRelativeFilename, List.length_append]
  split_ifs
  · simp only [List.length_cons]
    exact Nat.add_le_add h1 (Nat.succ_le_succ h2)
  · simp only [List.length_nil]
    exact h1.trans (by decide)

/-- The name starts with the first character of the name field, unless that is blank. -/
lemma fullRelativeFilename_head (h0 : item.raw 0 ≠ 0x00) (h1 : item.raw 0 ≠ 0x20) :
    item.fullRelativeFilename.head? = some (item.raw 0) := by
  have hslice : item.filename = item.raw 0 :: slice item.raw 1 7 := by
    rw [filename, show 8 = 1 + 7 from rfl, slice_add]
    rfl
  rw [fullRelativeFilename, hslice, toProperString, List.takeWhile_cons_of_pos]
  · rfl
  · simp [h0, h1]

/-- A blank name field leaves at most a dot in front. -/
lemma fullRelativeFilename_head_blank (h : item.raw 0 = 0x00 ∨ item.raw 0 = 0x20) :
    item.fullRelativeFilename.head? = none ∨
      item.fullRelativeFilename.head? = some 0x2E := by
  have hslice : item.filename = item.raw 0 :: slice item.raw 1 7 := by
    rw [filename, show 8 = 1 + 7 from rfl, slice_add]
    rfl
  have hempty : toProperString item.filename = [] := by
    rw [hslice, toProperString, List.takeWhile_cons_of_neg]
    rcases h with h | h
    · simp [h]
    · simp [h]
  rw [fullRelativeFilename, hempty, List.nil_append]
  split_ifs
  · exact Or.inr rfl
  · exact Or.inl rfl

/-- The character of deleted entries is no letter. -/
lemma tolower_eq_deleted {x : UInt8} (h : tolower x = 0xE5) : x = 0xE5 := by
  rw [tolower] at h
  split_ifs at h with hupper
  · have h1 : x ≤ 0x5A := hupper.2
    have h2 : x.toNat ≤ 0x5A := UInt8.le_iff_toNat_le.mp h1
    have h3 := congrArg UInt8.toNat h
    rw [UInt8.toNat_add] at h3
    simp only [UInt8.reduceToNat] at h3
    omega
  · exact h

/-- The name of a deleted entry starts with its own character. -/
lemma Deleted.fold_ne {e : FatDirectoryItem} (he : e.Deleted) {name : List UInt8}
    (hname : name.head? ≠ some 0xE5) : fold e.fullRelativeFilename ≠ fold name := by
  intro hsame
  have hhead := congrArg List.head? hsame
  have he0 : e.raw 0 = 0xE5 := he
  rw [fold, fold, List.head?_map, List.head?_map,
    e.fullRelativeFilename_head (by rw [he0]; decide) (by rw [he0]; decide), he0] at hhead
  obtain ⟨x, hx, hlow⟩ := Option.map_eq_some_iff.mp hhead.symm
  exact hname (hx.trans (congrArg some (tolower_eq_deleted hlow)))

/-- A deleted entry has the name of no other entry that is not deleted. -/
lemma Deleted.not_sameName {e f : FatDirectoryItem} (he : e.Deleted) (hf : ¬ f.Deleted) :
    ¬ e.SameName f := by
  refine he.fold_ne ?_
  by_cases hblank : f.raw 0 = 0x00 ∨ f.raw 0 = 0x20
  · rcases f.fullRelativeFilename_head_blank hblank with h | h
    · simp [h]
    · simp [h]
  · rw [not_or] at hblank
    rw [f.fullRelativeFilename_head hblank.1 hblank.2]
    exact fun h => hf (Option.some.inj h)

/-! ## The size of a file -/

lemma filesize_setFilesize {n : ℕ} (hn : n < 2 ^ 32) :
    (item.setFilesize n).filesize = n := u32le_store hn

lemma firstCluster_setFilesize (n : ℕ) :
    (item.setFilesize n).firstCluster = item.firstCluster := by
  have hraw : ∀ i < 28, (item.setFilesize n).raw i = item.raw i :=
    fun i hi => store_of_lt (Or.inl hi)
  simp only [firstCluster, high16BitsFirstCluster, low16BitsFirstCluster, u16le]
  rw [hraw 20 (by decide), hraw 21 (by decide), hraw 26 (by decide), hraw 27 (by decide)]

end FatDirectoryItem

/-- Modes of an open file, as bits. -/
def fileModeWrite : ℕ := 0b010
def fileModeAppend : ℕ := 0b100

/-- `struct fat_file_descriptor` of a file, with the path and the item it points to. -/
structure FatFileDescriptor where
  path : List (List UInt8)
  item : FatDirectoryItem
  pos : ℕ
  mode : ℕ

end SerpaeOS
