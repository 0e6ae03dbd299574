import Mathlib.Data.Nat.Bitwise
import Mathlib.Data.UInt
import Mathlib.Logic.Function.Basic
import Mathlib.Tactic.SplitIfs

/-!
# The global descriptor table

`gdt_structured_to_gdt` encodes segment descriptions as descriptors of eight bytes.  `segmentAt` is
how the processor reads a descriptor: the limit has 20 bits, and counts pages if the granularity
bit is set.  A result `none` is the panic of `encodeGdtEntry`.
-/

namespace SerpaeOS

/-- `struct gdt_structured`. -/
structure GdtStructured where
  base : UInt32
  limit : UInt32
  type : UInt8

/-- `sizeof(struct gdt)`. -/
def gdtSize : ℕ := 8

/-- The condition under which `encodeGdtEntry` panics. -/
def GdtStructured.Rejected (source : GdtStructured) : Prop :=
  65536 < source.limit ∧ source.limit &&& 0xFFF ≠ 0xFFF

instance (source : GdtStructured) : Decidable source.Rejected :=
  inferInstanceAs (Decidable (_ ∧ _))

/-- `encodeGdtEntry`. -/
def encodeGdtEntry (target : ℕ) (source : GdtStructured) (byte : ℕ → UInt8) :
    Option (ℕ → UInt8) :=
  if source.Rejected then none
  else
    let byte := Function.update byte (target + 6) 0x40
    let limit := if 65536 < source.limit then source.limit >>> 12 else source.limit
    let byte := if 65536 < source.limit then Function.update byte (target + 6) 0xC0 else byte
    let byte := Function.update byte target (limit &&& 0xFF).toUInt8
    let byte := Function.update byte (target + 1) (limit >>> 8 &&& 0xFF).toUInt8
    let byte := Function.update byte (target + 6)
      (byte (target + 6) ||| (limit >>> 16 &&& 0x0F).toUInt8)
    let byte := Function.update byte (target + 2) (source.base &&& 0xFF).toUInt8
    let byte := Function.update byte (target + 3) (source.base >>> 8 &&& 0xFF).toUInt8
    let byte := Function.update byte (target + 4) (source.base >>> 16 &&& 0xFF).toUInt8
    let byte := Function.update byte (target + 7) (source.base >>> 24 &&& 0xFF).toUInt8
    some (Function.update byte (target + 5) source.type)

/-- `gdt_structured_to_gdt`. -/
def gdtStructuredToGdt (gdt : ℕ) : List GdtStructured → (ℕ → UInt8) → Option (ℕ → UInt8)
  | [], byte => some byte
  | source :: structured, byte => do
    let byte ← encodeGdtEntry gdt source byte
    gdtStructuredToGdt (gdt + gdtSize) structured byte

/-! ## What the processor reads -/

/-- A segment of the processor. -/
structure Segment where
  base : ℕ
  limit : ℕ
  access : UInt8

/-- The 20 bits of the limit in a descriptor. -/
def limitField (byte : ℕ → UInt8) (a : ℕ) : ℕ :=
  (byte a).toNat + 2 ^ 8 * (byte (a + 1)).toNat + 2 ^ 16 * (byte (a + 6) &&& 0x0F).toNat

/-- The segment of the descriptor at an address. -/
def segmentAt (byte : ℕ → UInt8) (a : ℕ) : Segment where
  base := (byte (a + 2)).toNat + 2 ^ 8 * (byte (a + 3)).toNat + 2 ^ 16 * (byte (a + 4)).toNat +
    2 ^ 24 * (byte (a + 7)).toNat
  limit := if byte (a + 6) &&& 0x80 = 0 then limitField byte a
    else limitField byte a * 2 ^ 12 + 0xFFF
  access := byte (a + 5)

/-- The segment that is described. -/
def GdtStructured.segment (source : GdtStructured) : Segment where
  base := source.base.toNat
  limit := source.limit.toNat
  access := source.type

variable {target a gdt : ℕ} {source : GdtStructured} {byte byte' : ℕ → UInt8}
  {structured : List GdtStructured} {x : UInt32}

/-! ## The bytes of a word -/

lemma toNat_and_mask (x : UInt32) {mask : UInt32} {n : ℕ} (hm : mask.toNat = 2 ^ n - 1)
    (hn : n ≤ 8) :
    (x &&& mask).toUInt8.toNat = x.toNat % 2 ^ n := by
  rw [UInt32.toNat_toUInt8, UInt32.toNat_and, hm, Nat.and_two_pow_sub_one_eq_mod]
  refine Nat.mod_eq_of_lt ((Nat.mod_lt _ (Nat.two_pow_pos n)).trans_le ?_)
  exact Nat.pow_le_pow_right (by omega) hn

lemma toNat_shiftRight_and_mask (x : UInt32) {k mask : UInt32} {n : ℕ} (hk : k.toNat < 32)
    (hm : mask.toNat = 2 ^ n - 1) (hn : n ≤ 8) :
    (x >>> k &&& mask).toUInt8.toNat = x.toNat / 2 ^ k.toNat % 2 ^ n := by
  rw [toNat_and_mask _ hm hn, UInt32.toNat_shiftRight, Nat.mod_eq_of_lt hk,
    Nat.shiftRight_eq_div_pow]

lemma toNat_lowByte (x : UInt32) : (x &&& 0xFF).toUInt8.toNat = x.toNat % 2 ^ 8 :=
  toNat_and_mask x rfl le_rfl

lemma toNat_byte (x : UInt32) {k : UInt32} (hk : k.toNat < 32) :
    (x >>> k &&& 0xFF).toUInt8.toNat = x.toNat / 2 ^ k.toNat % 2 ^ 8 :=
  toNat_shiftRight_and_mask x hk rfl le_rfl

/-- The flags and the upper bits of the limit share a byte. -/
lemma toNat_or_and {flags n m : UInt8} :
    ((flags ||| n) &&& m).toNat = (flags &&& m).toNat ||| (n &&& m).toNat := by
  rw [UInt8.toNat_and, UInt8.toNat_or, Nat.and_or_distrib_right, UInt8.toNat_and, UInt8.toNat_and]

/-- The limit and the flags that are encoded. -/
def GdtStructured.scaledLimit (source : GdtStructured) : UInt32 :=
  if 65536 < source.limit then source.limit >>> 12 else source.limit

def GdtStructured.flags (source : GdtStructured) : UInt8 :=
  if 65536 < source.limit then 0xC0 else 0x40

/-- The bytes of a descriptor hold the parts of the description. -/
structure HoldsDescriptor (byte : ℕ → UInt8) (a : ℕ) (source : GdtStructured) : Prop where
  limit_low : byte a = (source.scaledLimit &&& 0xFF).toUInt8
  limit_high : byte (a + 1) = (source.scaledLimit >>> 8 &&& 0xFF).toUInt8
  base_low : byte (a + 2) = (source.base &&& 0xFF).toUInt8
  base_second : byte (a + 3) = (source.base >>> 8 &&& 0xFF).toUInt8
  base_third : byte (a + 4) = (source.base >>> 16 &&& 0xFF).toUInt8
  type : byte (a + 5) = source.type
  flags : byte (a + 6) = source.flags ||| (source.scaledLimit >>> 16 &&& 0x0F).toUInt8
  base_high : byte (a + 7) = (source.base >>> 24 &&& 0xFF).toUInt8

lemma encodeGdtEntry_isSome (target : ℕ) (byte : ℕ → UInt8) (hacc : ¬ source.Rejected) :
    ∃ byte', encodeGdtEntry target source byte = some byte' :=
  ⟨_, if_neg hacc⟩

/-- A descriptor only depends on its own bytes. -/
lemma HoldsDescriptor.congr (h : HoldsDescriptor byte a source)
    (heq : ∀ x, a ≤ x → x < a + gdtSize → byte' x = byte x) : HoldsDescriptor byte' a source := by
  rw [gdtSize] at heq
  constructor
  · rw [heq _ (by omega) (by omega), h.limit_low]
  · rw [heq _ (by omega) (by omega), h.limit_high]
  · rw [heq _ (by omega) (by omega), h.base_low]
  · rw [heq _ (by omega) (by omega), h.base_second]
  · rw [heq _ (by omega) (by omega), h.base_third]
  · rw [heq _ (by omega) (by omega), h.type]
  · rw [heq _ (by omega) (by omega), h.flags]
  · rw [heq _ (by omega) (by omega), h.base_high]

/-- An encoded entry holds the description, and no byte outside of it changes. -/
lemma encodeGdtEntry_spec (h : encodeGdtEntry target source byte = some byte') :
    HoldsDescriptor byte' target source ∧
    ∀ x, x < target ∨ target + gdtSize ≤ x → byte' x = byte x := by
  rw [encodeGdtEntry] at h
  split_ifs at h with hrej hbig
  all_goals
    cases h
    refine ⟨?_, fun x hx => ?_⟩
    · constructor <;>
        simp [GdtStructured.scaledLimit, GdtStructured.flags, hbig]
    · rw [gdtSize] at hx
      repeat rw [Function.update_of_ne (by omega)]

/-! ## Decoding -/

/-- The 20 bits of the encoded limit. -/
def GdtStructured.nibble (source : GdtStructured) : UInt8 :=
  (source.scaledLimit >>> 16 &&& 0x0F).toUInt8

lemma toNat_nibble (source : GdtStructured) :
    source.nibble.toNat = source.scaledLimit.toNat / 2 ^ 16 % 2 ^ 4 :=
  toNat_shiftRight_and_mask source.scaledLimit (k := 16) (by decide) rfl (by decide)

lemma nibble_lt (source : GdtStructured) : source.nibble.toNat < 2 ^ 4 := by
  rw [toNat_nibble]
  exact Nat.mod_lt _ (by decide)

lemma flags_and (source : GdtStructured) : source.flags &&& 0x0F = 0 ∧
    source.flags &&& 0x80 = if 65536 < source.limit then 0x80 else 0 := by
  rw [GdtStructured.flags]
  split_ifs <;> exact ⟨rfl, rfl⟩

/-- The flags do not disturb the bits of the limit. -/
lemma HoldsDescriptor.toNat_nibble (h : HoldsDescriptor byte a source) :
    (byte (a + 6) &&& 0x0F).toNat = source.nibble.toNat := by
  rw [h.flags, toNat_or_and, (flags_and source).1, UInt8.toNat_and]
  rw [show (0x0F : UInt8).toNat = 2 ^ 4 - 1 from rfl, Nat.and_two_pow_sub_one_eq_mod]
  rw [UInt8.toNat_zero, Nat.zero_or]
  exact Nat.mod_eq_of_lt (nibble_lt source)

/-- The bits of the limit do not disturb the granularity bit. -/
lemma HoldsDescriptor.granularity (h : HoldsDescriptor byte a source) :
    byte (a + 6) &&& 0x80 = 0 ↔ source.limit ≤ 65536 := by
  have hnibble : (source.nibble &&& 0x80).toNat = 0 := by
    rw [UInt8.toNat_and, show (0x80 : UInt8).toNat = 2 ^ 7 from rfl, Nat.and_two_pow]
    rw [Nat.testBit_lt_two_pow ((nibble_lt source).trans (by decide))]
    rfl
  rw [← UInt8.toNat_inj, h.flags, toNat_or_and, ← GdtStructured.nibble, hnibble, Nat.or_zero,
    (flags_and source).2, ← UInt32.not_lt]
  split_ifs with hbig
  · simp [hbig]
  · simp [hbig]

lemma HoldsDescriptor.limitField_eq (h : HoldsDescriptor byte a source)
    (hlt : source.scaledLimit.toNat < 2 ^ 20) :
    limitField byte a = source.scaledLimit.toNat := by
  have hlow := toNat_lowByte source.scaledLimit
  have hhigh := toNat_byte source.scaledLimit (k := 8) (by decide)
  have hnibble := SerpaeOS.toNat_nibble source
  rw [limitField, h.toNat_nibble, h.limit_low, h.limit_high, hlow, hhigh, hnibble]
  rw [show (8 : UInt32).toNat = 8 from rfl]
  omega

lemma HoldsDescriptor.base_eq (h : HoldsDescriptor byte a source) :
    (segmentAt byte a).base = source.base.toNat := by
  have hlt := source.base.toNat_lt
  rw [segmentAt]
  rw [h.base_low, h.base_second, h.base_third, h.base_high, toNat_lowByte,
    toNat_byte _ (by decide), toNat_byte _ (by decide), toNat_byte _ (by decide)]
  simp only [UInt32.reduceToNat]
  omega

/-- The limit is read back on both sides of the threshold. -/
lemma HoldsDescriptor.limit_eq (h : HoldsDescriptor byte a source) (hacc : ¬ source.Rejected) :
    (segmentAt byte a).limit = source.limit.toNat := by
  have hlt := source.limit.toNat_lt
  rw [segmentAt]
  dsimp only
  by_cases hbig : 65536 < source.limit
  · have hscaled : source.scaledLimit.toNat = source.limit.toNat / 2 ^ 12 := by
      rw [GdtStructured.scaledLimit, if_pos hbig, UInt32.toNat_shiftRight]
      exact Nat.shiftRight_eq_div_pow _ _
    have hones : source.limit.toNat % 2 ^ 12 = 0xFFF := by
      have hand : source.limit &&& 0xFFF = 0xFFF := by
        by_contra hne
        exact hacc ⟨hbig, hne⟩
      have hnat := congrArg UInt32.toNat hand
      rwa [UInt32.toNat_and, show (0xFFF : UInt32).toNat = 2 ^ 12 - 1 from rfl,
        Nat.and_two_pow_sub_one_eq_mod] at hnat
    rw [if_neg (fun hc => (UInt32.not_lt.mpr (h.granularity.mp hc)) hbig),
      h.limitField_eq (by omega), hscaled]
    omega
  · have hle := UInt32.le_iff_toNat_le.mp (UInt32.not_lt.mp hbig)
    simp only [UInt32.reduceToNat] at hle
    have hscaled : source.scaledLimit = source.limit := if_neg hbig
    rw [if_pos (h.granularity.mpr (UInt32.not_lt.mp hbig)), h.limitField_eq ?_, hscaled]
    rw [hscaled]
    omega

/-- The processor reads the description back. -/
lemma HoldsDescriptor.segmentAt_eq (h : HoldsDescriptor byte a source)
    (hacc : ¬ source.Rejected) : segmentAt byte a = source.segment := by
  have hbase := h.base_eq
  have hlimit := h.limit_eq hacc
  have haccess : (segmentAt byte a).access = source.type := h.type
  rcases hseg : segmentAt byte a with ⟨base, limit, access⟩
  rw [hseg] at hbase hlimit haccess
  simp only at hbase hlimit haccess
  rw [hbase, hlimit, haccess, GdtStructured.segment]

/-! ## The table -/

/-- Every entry of the table is written, and stays as it is while the later ones are written. -/
lemma gdtStructuredToGdt_spec (hacc : ∀ source ∈ structured, ¬ source.Rejected) : ∃ byte',
    gdtStructuredToGdt gdt structured byte = some byte' ∧
    (∀ (i : ℕ) (hi : i < structured.length),
      HoldsDescriptor byte' (gdt + gdtSize * i) structured[i]) ∧
    ∀ x, x < gdt ∨ gdt + gdtSize * structured.length ≤ x → byte' x = byte x := by
  induction structured generalizing gdt byte with
  | nil => exact ⟨byte, rfl, fun i hi => absurd hi (by simp), fun _ _ => rfl⟩
  | cons source structured ih =>
    obtain ⟨byte₁, hone⟩ := encodeGdtEntry_isSome gdt byte (hacc source (by simp))
    obtain ⟨hholds, hframe⟩ := encodeGdtEntry_spec hone
    obtain ⟨byte', hrest, hentries, houtside⟩ :=
      @ih (gdt + gdtSize) byte₁ fun s hs => hacc s (by simp [hs])
    refine ⟨byte', ?_, fun i hi => ?_, fun x hx => ?_⟩
    · rw [gdtStructuredToGdt, hone]
      exact hrest
    · rcases i with _ | i
      · -- the later entries lie behind the first one
        exact hholds.congr fun x hx hx' => houtside x (by left; omega)
      · rw [List.length_cons] at hi
        have hentry := hentries i (by omega)
        rwa [Nat.add_assoc, Nat.add_comm gdtSize, ← Nat.mul_succ] at hentry
    · rw [List.length_cons, Nat.mul_succ] at hx
      rw [houtside x (by omega), hframe x (by omega)]

/-- The processor reads back every description of the table, and an entry is written to its own
eight bytes only. -/
theorem segmentAt_gdtStructuredToGdt (gdt : ℕ) (structured : List GdtStructured)
    (byte : ℕ → UInt8) (hacc : ∀ source ∈ structured, ¬ source.Rejected) : ∃ byte',
    gdtStructuredToGdt gdt structured byte = some byte' ∧
    (∀ (i : ℕ) (hi : i < structured.length),
      segmentAt byte' (gdt + gdtSize * i) = structured[i].segment) ∧
    (∀ x, x < gdt ∨ gdt + gdtSize * structured.length ≤ x → byte' x = byte x) ∧
    ∀ (i : ℕ) (hi : i < structured.length) (b b' : ℕ → UInt8),
      encodeGdtEntry (gdt + gdtSize * i) structured[i] b = some b' →
      ∀ x, x < gdt + gdtSize * i ∨ gdt + gdtSize * i + gdtSize ≤ x → b' x = b x := by
  obtain ⟨byte', hrun, hentries, houtside⟩ := gdtStructuredToGdt_spec hacc
  refine ⟨byte', hrun, fun i hi => ?_, houtside, fun i _ b b' h => (encodeGdtEntry_spec h).2⟩
  exact (hentries i hi).segmentAt_eq (hacc _ (List.getElem_mem hi))

/-- `sizeof(tss)`. -/
def tssSize : UInt32 := 100

/-- The table of the kernel, with the address of `tss`. -/
def gdtStructured (tss : UInt32) : List GdtStructured :=
  [⟨0x00, 0x00, 0x00⟩, ⟨0x00, 0xffffffff, 0x9a⟩, ⟨0x00, 0xffffffff, 0x92⟩,
    ⟨0x00, 0xffffffff, 0xf8⟩, ⟨0x00, 0xffffffff, 0xf2⟩, ⟨tss, tssSize, 0xE9⟩]

theorem segmentAt_gdtStructured : ∃ byte',
    gdtStructuredToGdt 0x120000 (gdtStructured 0x121000) (fun _ => 0) = some byte' ∧
    segmentAt byte' 0x120020 = ⟨0, 0xffffffff, 0xf2⟩ := by
  obtain ⟨byte', hrun, hseg, -⟩ := segmentAt_gdtStructuredToGdt 0x120000 (gdtStructured 0x121000)
    (fun _ => 0) (by decide)
  exact ⟨byte', hrun, hseg 4 (by decide)⟩

end SerpaeOS
