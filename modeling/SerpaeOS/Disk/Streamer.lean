import SerpaeOS.Config
import SerpaeOS.Lib.Bytes

/-!
# Disks and disk streams

A volume is a sequence of bytes in blocks of 512, which `disk.c` transfers one at a time.
`streamer.c` reads and writes at byte positions.  A position is a signed 32-bit number;
there is no block at a negative one.
-/

namespace SerpaeOS

open Bytes

/-- What is used of `struct disk`, with the contents of the device. -/
structure Disk where
  byte : ℕ → UInt8
  /-- Blocks that the device does not read or write. -/
  readFault : ℕ → Bool
  writeFault : ℕ → Bool
  /-- What a buffer on the stack holds when nothing was read into it. -/
  stale : ℕ → UInt8

/-- Every transfer succeeds. -/
structure Disk.FaultFree (disk : Disk) : Prop where
  read_ok : ∀ lba, disk.readFault lba = false
  write_ok : ∀ lba, disk.writeFault lba = false

/-- `disk_read_block` for one block: the result and the buffer. -/
def diskReadBlock (disk : Disk) (lba : ℕ) : ℤ × (ℕ → UInt8) :=
  if disk.readFault lba then (-etimedout, disk.stale)
  else (0, fun i => disk.byte (lba * defaultSectorSize + i))

/-- `disk_write_block` for one block. -/
def diskWriteBlock (disk : Disk) (lba : ℕ) (buf : ℕ → UInt8) : ℤ × Disk :=
  if disk.writeFault lba then (-etimedout, disk)
  else
    (0, { disk with
      byte := fun a =>
        if a / defaultSectorSize = lba then buf (a % defaultSectorSize) else disk.byte a })

/-- The recursion of `diskstreamer_read`: the result, the bytes stored at `out` and the new
position.  Each call reads at least one byte less than the one before, so `total + 1` calls
are enough. -/
def diskstreamerReadLoop (disk : Disk) : ℕ → ℤ → ℕ → ℤ × List UInt8 × ℤ
  | 0, pos, _ => (0, [], pos)
  | calls + 1, pos, total =>
    if pos < 0 then (-etimedout, [], pos)
    else
      let sector := pos.toNat / defaultSectorSize
      let offset := pos.toNat % defaultSectorSize
      let read := diskReadBlock disk sector
      if read.1 < 0 then (read.1, [], pos)
      else if defaultSectorSize ≤ offset + total then
        -- the rest lies in the following blocks
        let totalToRead := total - (offset + total - defaultSectorSize)
        let rest := diskstreamerReadLoop disk calls (pos + totalToRead) (total - totalToRead)
        (rest.1, slice read.2 offset totalToRead ++ rest.2.1, rest.2.2)
      else (read.1, slice read.2 offset total, pos + total)

def diskstreamerRead (disk : Disk) (pos : ℤ) (total : ℕ) : ℤ × List UInt8 × ℤ :=
  diskstreamerReadLoop disk (total + 1) pos total

/-- `write_byte` at a position. -/
def writeByte (disk : Disk) (pos : ℤ) (c : UInt8) : Disk :=
  if pos < 0 then disk
  else
    let sector := pos.toNat / defaultSectorSize
    let buf := (diskReadBlock disk sector).2
    let buf := Function.update buf (pos.toNat % defaultSectorSize) c
    (diskWriteBlock disk sector buf).2

/-- The loop of `diskstreamer_write` over the bytes `buf[i], …` still to come. -/
def diskstreamerWriteLoop (disk : Disk) (pos : ℤ) : List UInt8 → Disk
  | [] => disk
  | c :: buf => diskstreamerWriteLoop (writeByte disk pos c) (pos + 1) buf

/-- `diskstreamer_write` of the bytes of the buffer: the result and the disk. -/
def diskstreamerWrite (disk : Disk) (pos : ℤ) (buf : List UInt8) : ℤ × Disk :=
  (buf.length, diskstreamerWriteLoop disk pos buf)

/-! ## Transfers without faults -/

variable {disk : Disk}

/-- When the blocks are readable up to that of the byte behind the range, the bytes are
delivered. -/
lemma diskstreamerReadLoop_of_readable : ∀ (calls pos total : ℕ), total < calls →
    (∀ s, pos / defaultSectorSize ≤ s → s ≤ (pos + total) / defaultSectorSize →
      disk.readFault s = false) →
    diskstreamerReadLoop disk calls pos total =
      (0, slice disk.byte pos total, ((pos + total : ℕ) : ℤ)) := by
  intro calls
  induction calls with
  | zero => exact fun pos total hlt => absurd hlt (by omega)
  | succ calls ih =>
    intro pos total hlt h
    have hfirst := h (pos / defaultSectorSize) le_rfl (Nat.div_le_div_right (by omega))
    rw [diskstreamerReadLoop, if_neg (by omega)]
    simp only [diskReadBlock, hfirst, Int.toNat_natCast, Bool.false_eq_true, lt_irrefl, if_false]
    have hslice : ∀ n, slice
        (fun i => disk.byte (pos / defaultSectorSize * defaultSectorSize + i))
        (pos % defaultSectorSize) n = slice disk.byte pos n := by
      intro n
      rw [slice_eq_iff]
      intro i _
      simp only [defaultSectorSize]
      congr 1
      omega
    by_cases hover : defaultSectorSize ≤ pos % defaultSectorSize + total
    · rw [if_pos hover, hslice]
      obtain ⟨n, hn⟩ : ∃ n, total - (pos % defaultSectorSize + total - defaultSectorSize) = n :=
        ⟨_, rfl⟩
      have hpos : 0 < n ∧ n ≤ total := by
        simp only [defaultSectorSize] at *
        omega
      have hend : pos + n + (total - n) = pos + total := by
        rw [Nat.add_assoc, Nat.add_sub_cancel' hpos.2]
      have hrest : ∀ s, (pos + n) / defaultSectorSize ≤ s →
          s ≤ (pos + n + (total - n)) / defaultSectorSize → disk.readFault s = false := by
        intro s hs hs'
        rw [hend] at hs'
        exact h s ((Nat.div_le_div_right (by omega)).trans hs) hs'
      rw [hn, ← Nat.cast_add, ih (pos + n) (total - n) (by omega) hrest, ← slice_add,
        Nat.add_sub_cancel' hpos.2, hend]
    · rw [if_neg hover, hslice, Nat.cast_add]

/-- When one of these blocks is not readable, the read fails. -/
lemma diskstreamerReadLoop_of_fault : ∀ (calls pos total s : ℕ), total < calls →
    pos / defaultSectorSize ≤ s → s ≤ (pos + total) / defaultSectorSize →
    disk.readFault s = true → (diskstreamerReadLoop disk calls pos total).1 < 0 := by
  intro calls
  induction calls with
  | zero => exact fun pos total s hlt => absurd hlt (by omega)
  | succ calls ih =>
    intro pos total s hlt hlo hhi hs
    rw [diskstreamerReadLoop, if_neg (by omega)]
    simp only [Int.toNat_natCast]
    by_cases hfirst : disk.readFault (pos / defaultSectorSize) = true
    · have hcode : -etimedout < (0 : ℤ) := by decide
      simp only [diskReadBlock, hfirst, if_true, hcode]
    have hne : s ≠ pos / defaultSectorSize := fun hc => hfirst (hc ▸ hs)
    have hread : (diskReadBlock disk (pos / defaultSectorSize)).1 = 0 := by
      rw [diskReadBlock, if_neg hfirst]
    rw [hread, if_neg (lt_irrefl _)]
    by_cases hover : defaultSectorSize ≤ pos % defaultSectorSize + total
    · obtain ⟨n, hn⟩ : ∃ n, total - (pos % defaultSectorSize + total - defaultSectorSize) = n :=
        ⟨_, rfl⟩
      rw [if_pos hover, hn, ← Nat.cast_add]
      refine ih (pos + n) (total - n) s ?_ ?_ ?_ hs
      · simp only [defaultSectorSize] at *
        omega
      · simp only [defaultSectorSize] at *
        omega
      · simp only [defaultSectorSize] at *
        omega
    · -- the range does not come to another block
      simp only [defaultSectorSize] at *
      omega

/-- Without faults of reading a stream delivers the bytes of the volume. -/
lemma diskstreamerRead_of_readable (h : ∀ lba, disk.readFault lba = false) (pos total : ℕ) :
    diskstreamerRead disk pos total =
      (0, slice disk.byte pos total, ((pos + total : ℕ) : ℤ)) :=
  diskstreamerReadLoop_of_readable _ pos total (Nat.lt_succ_self total) fun lba _ _ => h lba

lemma diskstreamerRead_ok (h : disk.FaultFree) (pos total : ℕ) :
    diskstreamerRead disk pos total =
      (0, slice disk.byte pos total, ((pos + total : ℕ) : ℤ)) :=
  diskstreamerRead_of_readable h.read_ok pos total

/-- The device reads and writes the block of a position. -/
structure Disk.GoodAt (disk : Disk) (pos : ℕ) : Prop where
  read_ok : disk.readFault (pos / defaultSectorSize) = false
  write_ok : disk.writeFault (pos / defaultSectorSize) = false

lemma Disk.FaultFree.goodAt (h : disk.FaultFree) (pos : ℕ) : disk.GoodAt pos :=
  ⟨h.read_ok _, h.write_ok _⟩

lemma writeByte_of_goodAt {pos : ℕ} (h : disk.GoodAt pos) (c : UInt8) :
    writeByte disk pos c = { disk with byte := Function.update disk.byte pos c } := by
  have hread := h.read_ok
  have hwrite := h.write_ok
  simp only [defaultSectorSize] at hread hwrite
  rw [writeByte, if_neg (by omega)]
  simp only [diskReadBlock, diskWriteBlock, Int.toNat_natCast, defaultSectorSize, hread, hwrite,
    Bool.false_eq_true, if_false]
  congr 1
  funext a
  by_cases ha : a = pos
  · subst ha
    rw [if_pos rfl, Function.update_self, Function.update_self]
  · rw [Function.update_of_ne ha]
    by_cases hblock : a / 512 = pos / 512
    · rw [if_pos hblock, Function.update_of_ne (by omega)]
      congr 1
      omega
    · rw [if_neg hblock]

lemma writeByte_ok (h : disk.FaultFree) (pos : ℕ) (c : UInt8) :
    writeByte disk pos c = { disk with byte := Function.update disk.byte pos c } :=
  writeByte_of_goodAt (h.goodAt pos) c

lemma diskstreamerWriteLoop_of_goodAt (pos : ℕ) (buf : List UInt8) :
    ∀ {disk : Disk}, (∀ x, pos ≤ x → x < pos + buf.length → disk.GoodAt x) →
      diskstreamerWriteLoop disk pos buf = { disk with byte := store disk.byte pos buf } := by
  induction buf generalizing pos with
  | nil =>
    intro disk _
    rw [diskstreamerWriteLoop, store_nil]
  | cons c buf ih =>
    intro disk h
    rw [List.length_cons] at h
    have hnext : (pos : ℤ) + 1 = ((pos + 1 : ℕ) : ℤ) := by omega
    have h' : ∀ x, pos + 1 ≤ x → x < pos + 1 + buf.length →
        Disk.GoodAt { disk with byte := Function.update disk.byte pos c } x := by
      intro x hx hx'
      have hgood := h x (by omega) (by omega)
      exact ⟨hgood.read_ok, hgood.write_ok⟩
    rw [diskstreamerWriteLoop, writeByte_of_goodAt (h pos (le_refl _) (by omega)), hnext,
      ih (pos + 1) h', ← store_cons]

lemma diskstreamerWriteLoop_ok (pos : ℕ) (buf : List UInt8) (h : disk.FaultFree) :
    diskstreamerWriteLoop disk pos buf = { disk with byte := store disk.byte pos buf } :=
  diskstreamerWriteLoop_of_goodAt pos buf fun x _ _ => h.goodAt x

/-- A stream stores the bytes of the buffer on the volume. -/
lemma diskstreamerWrite_ok (h : disk.FaultFree) (pos : ℕ) (buf : List UInt8) :
    diskstreamerWrite disk pos buf =
      ((buf.length : ℤ), { disk with byte := store disk.byte pos buf }) := by
  rw [diskstreamerWrite, diskstreamerWriteLoop_ok pos buf h]

lemma writeByte_frame (h : disk.FaultFree) (pos : ℤ) (c : UInt8) :
    (writeByte disk pos c).FaultFree ∧
      ∀ a : ℕ, (a : ℤ) ≠ pos → (writeByte disk pos c).byte a = disk.byte a := by
  by_cases hneg : pos < 0
  · rw [writeByte, if_pos hneg]
    exact ⟨h, fun _ _ => rfl⟩
  · obtain ⟨n, rfl⟩ := Int.eq_ofNat_of_zero_le (Int.not_lt.mp hneg)
    rw [writeByte_ok h]
    exact ⟨⟨h.read_ok, h.write_ok⟩, fun a ha => Function.update_of_ne (by omega) _ _⟩

/-- A device that writes no block keeps its bytes. -/
lemma diskstreamerWrite_of_protected (h : ∀ lba, disk.writeFault lba = true) (buf : List UInt8) :
    ∀ pos : ℤ, (diskstreamerWrite disk pos buf).2 = disk := by
  have hbyte : ∀ (pos : ℤ) (c : UInt8), writeByte disk pos c = disk := by
    intro pos c
    rw [writeByte]
    split_ifs
    · rfl
    · simp only [diskWriteBlock, h, if_true]
  induction buf with
  | nil => exact fun _ => rfl
  | cons c buf ih =>
    intro pos
    have hrest := ih (pos + 1)
    rw [diskstreamerWrite] at hrest ⊢
    rw [diskstreamerWriteLoop, hbyte]
    exact hrest

/-- A stream leaves the bytes alone that are not at the positions written. -/
lemma diskstreamerWrite_frame (buf : List UInt8) : ∀ {disk : Disk}, disk.FaultFree → ∀ pos : ℤ,
    (diskstreamerWrite disk pos buf).2.FaultFree ∧
      ∀ a : ℕ, a < pos ∨ pos + buf.length ≤ a →
        (diskstreamerWrite disk pos buf).2.byte a = disk.byte a := by
  induction buf with
  | nil => exact fun h pos => ⟨h, fun _ _ => rfl⟩
  | cons c buf ih =>
    intro disk h pos
    obtain ⟨hf, hbyte⟩ := writeByte_frame h pos c
    obtain ⟨hf', hrest⟩ := ih hf (pos + 1)
    refine ⟨hf', fun a ha => ?_⟩
    rw [List.length_cons] at ha
    exact (hrest a (by omega)).trans (hbyte a (by omega))

/-! ## Transfers with faults -/

/-- A transfer that succeeds delivers the bytes of the volume. -/
lemma diskstreamerReadLoop_of_succeeds :
    ∀ {calls : ℕ} {pos : ℤ} {total : ℕ}, total < calls →
      (diskstreamerReadLoop disk calls pos total).1 = 0 →
        0 ≤ pos ∧ (diskstreamerReadLoop disk calls pos total).2.1 =
          slice disk.byte pos.toNat total := by
  intro calls
  induction calls with
  | zero => exact fun hlt => absurd hlt (by omega)
  | succ calls ih =>
    intro pos total hlt hres
    rw [diskstreamerReadLoop] at hres ⊢
    by_cases hneg : pos < 0
    · rw [if_pos hneg] at hres
      exact absurd hres (show -etimedout ≠ 0 by decide)
    obtain ⟨n, rfl⟩ := Int.eq_ofNat_of_zero_le (Int.not_lt.mp hneg)
    rw [if_neg hneg] at hres ⊢
    simp only [Int.toNat_natCast] at hres ⊢
    by_cases hfault : disk.readFault (n / defaultSectorSize) = true
    · simp only [diskReadBlock, hfault, if_true] at hres
      rw [if_pos (by decide)] at hres
      exact absurd hres (show -etimedout ≠ 0 by decide)
    refine ⟨Int.natCast_nonneg n, ?_⟩
    have hread : diskReadBlock disk (n / defaultSectorSize) =
        (0, fun i => disk.byte (n / defaultSectorSize * defaultSectorSize + i)) := if_neg hfault
    have hslice : ∀ m, slice (fun i => disk.byte (n / defaultSectorSize * defaultSectorSize + i))
        (n % defaultSectorSize) m = slice disk.byte n m := by
      intro m
      rw [slice_eq_iff]
      intro i _
      simp only [← Nat.add_assoc, Nat.div_add_mod']
    rw [hread] at hres ⊢
    simp only [lt_irrefl, if_false] at hres ⊢
    by_cases hover : defaultSectorSize ≤ n % defaultSectorSize + total
    · rw [if_pos hover] at hres ⊢
      obtain ⟨m, hm⟩ : ∃ m, total - (n % defaultSectorSize + total - defaultSectorSize) = m :=
        ⟨_, rfl⟩
      have hpos : 0 < m ∧ m ≤ total := by
        have := Nat.mod_lt n (show 0 < defaultSectorSize by decide)
        omega
      rw [hm] at hres ⊢
      obtain ⟨-, hrest⟩ := ih (by omega) hres
      rw [hslice, hrest, ← Nat.cast_add, Int.toNat_natCast, ← slice_add,
        Nat.add_sub_cancel' hpos.2]
    · rw [if_neg hover, hslice]

lemma diskstreamerRead_of_succeeds {pos : ℤ} {total : ℕ}
    (h : (diskstreamerRead disk pos total).1 = 0) :
    0 ≤ pos ∧ (diskstreamerRead disk pos total).2.1 = slice disk.byte pos.toNat total :=
  diskstreamerReadLoop_of_succeeds (Nat.lt_succ_self total) h

/-- The two states of a device differ in the bytes from `lo` up to `hi` at most. -/
structure Disk.EqualOutside (lo hi : ℤ) (disk disk' : Disk) : Prop where
  readFault_eq : disk.readFault = disk'.readFault
  writeFault_eq : disk.writeFault = disk'.writeFault
  stale_eq : disk.stale = disk'.stale
  byte_eq : ∀ a : ℕ, ¬ (lo ≤ a ∧ a < hi) → disk.byte a = disk'.byte a

lemma Disk.EqualOutside.refl (lo hi : ℤ) (disk : Disk) : disk.EqualOutside lo hi disk :=
  ⟨rfl, rfl, rfl, fun _ _ => rfl⟩

/-- Bytes written in between make no difference outside. -/
lemma Disk.EqualOutside.writeByte {lo hi pos : ℤ} {disk' : Disk}
    (h : disk.EqualOutside lo hi disk') (hlo : lo ≤ pos) (hhi : pos < hi) (c c' : UInt8) :
    (writeByte disk pos c).EqualOutside lo hi (writeByte disk' pos c') := by
  rw [SerpaeOS.writeByte, SerpaeOS.writeByte]
  by_cases hneg : pos < 0
  · rw [if_pos hneg, if_pos hneg]
    exact h
  obtain ⟨n, rfl⟩ := Int.eq_ofNat_of_zero_le (Int.not_lt.mp hneg)
  rw [if_neg hneg, if_neg hneg]
  simp only [Int.toNat_natCast, diskWriteBlock, ← h.writeFault_eq]
  by_cases hwrite : disk.writeFault (n / defaultSectorSize) = true
  · rw [if_pos hwrite, if_pos hwrite]
    exact h
  rw [if_neg hwrite, if_neg hwrite]
  refine ⟨h.readFault_eq, rfl, h.stale_eq, fun a ha => ?_⟩
  by_cases hblock : a / defaultSectorSize = n / defaultSectorSize
  · have hne : a % defaultSectorSize ≠ n % defaultSectorSize := by
      intro hmod
      have heq : a = n := by
        rw [← Nat.div_add_mod a defaultSectorSize, hblock, hmod, Nat.div_add_mod]
      exact ha ⟨by omega, by omega⟩
    simp only [if_pos hblock, Function.update_of_ne hne, diskReadBlock, ← h.readFault_eq]
    by_cases hread : disk.readFault (n / defaultSectorSize) = true
    · simp only [if_pos hread, h.stale_eq]
    · simp only [if_neg hread]
      rw [← hblock, Nat.div_add_mod']
      exact h.byte_eq a ha
  · simp only [if_neg hblock]
    exact h.byte_eq a ha

lemma Disk.EqualOutside.writeLoop {lo hi : ℤ} (buf : List UInt8) :
    ∀ {disk disk' : Disk} {pos : ℤ} {buf' : List UInt8}, disk.EqualOutside lo hi disk' →
      buf.length = buf'.length → lo ≤ pos → pos + buf.length ≤ hi →
        (diskstreamerWriteLoop disk pos buf).EqualOutside lo hi
          (diskstreamerWriteLoop disk' pos buf') := by
  induction buf with
  | nil =>
    intro disk disk' pos buf' h hlen _ _
    cases buf' with
    | nil => exact h
    | cons => exact absurd hlen (by simp)
  | cons c buf ih =>
    intro disk disk' pos buf' h hlen hlo hhi
    cases buf' with
    | nil => exact absurd hlen (by simp)
    | cons c' buf' =>
      rw [List.length_cons] at hhi
      exact ih (h.writeByte hlo (by omega) c c') (Nat.succ.inj hlen) (by omega) (by omega)

lemma writeByte_of_unwritable {pos : ℕ} (h : disk.writeFault (pos / defaultSectorSize) = true)
    (c : UInt8) : writeByte disk pos c = disk := by
  rw [writeByte, if_neg (by omega)]
  simp only [Int.toNat_natCast, diskWriteBlock, h, if_true]

/-- A block that is not read is filled with what the buffer held before. -/
lemma writeByte_of_unreadable {pos : ℕ} (hread : disk.readFault (pos / defaultSectorSize) = true)
    (hwrite : disk.writeFault (pos / defaultSectorSize) = false) (c : UInt8) :
    writeByte disk pos c = { disk with
      byte := fun a => if a / defaultSectorSize = pos / defaultSectorSize then
        Function.update disk.stale (pos % defaultSectorSize) c (a % defaultSectorSize)
      else disk.byte a } := by
  rw [writeByte, if_neg (by omega)]
  simp only [Int.toNat_natCast, diskReadBlock, diskWriteBlock, hread, hwrite, if_true,
    Bool.false_eq_true, if_false]

/-- In a block with a fault the first byte written does not stay. -/
lemma diskstreamerWriteLoop_of_not_goodAt {pos : ℕ} (h : ¬ disk.GoodAt pos)
    (hblock : (pos + 1) / defaultSectorSize = pos / defaultSectorSize) {c d c' d' : UInt8}
    {buf buf' : List UInt8} (hlen : buf.length = buf'.length) :
    (diskstreamerWriteLoop disk pos (c :: d :: buf)).EqualOutside (pos + 1)
      (pos + 2 + buf.length : ℤ) (diskstreamerWriteLoop disk pos (c' :: d' :: buf')) := by
  have hnext : (pos : ℤ) + 1 = ((pos + 1 : ℕ) : ℤ) := by omega
  have hfirst : (writeByte (writeByte disk pos c) (pos + 1 : ℕ) d).EqualOutside (pos + 1)
      (pos + 2 + buf.length : ℤ) (writeByte (writeByte disk pos c') (pos + 1 : ℕ) d') := by
    by_cases hwrite : disk.writeFault (pos / defaultSectorSize) = true
    · have hwrite' : disk.writeFault ((pos + 1) / defaultSectorSize) = true := by rwa [hblock]
      rw [writeByte_of_unwritable hwrite, writeByte_of_unwritable hwrite,
        writeByte_of_unwritable hwrite', writeByte_of_unwritable hwrite']
      exact Disk.EqualOutside.refl _ _ disk
    rw [Bool.not_eq_true] at hwrite
    have hread : disk.readFault (pos / defaultSectorSize) = true := by
      by_contra hread
      exact h ⟨Bool.not_eq_true _ ▸ hread, hwrite⟩
    rw [writeByte_of_unreadable hread hwrite, writeByte_of_unreadable hread hwrite,
      writeByte_of_unreadable (by rwa [hblock]) (by rwa [hblock]),
      writeByte_of_unreadable (by rwa [hblock]) (by rwa [hblock])]
    refine ⟨rfl, rfl, rfl, fun a ha => ?_⟩
    simp only [hblock]
    by_cases hin : a / defaultSectorSize = pos / defaultSectorSize
    · have hne : a % defaultSectorSize ≠ (pos + 1) % defaultSectorSize := by
        intro hmod
        have heq : a = pos + 1 := by
          rw [← Nat.div_add_mod a defaultSectorSize, hin, ← hblock, hmod, Nat.div_add_mod]
        exact ha ⟨by omega, by omega⟩
      rw [if_pos hin, if_pos hin, Function.update_of_ne hne, Function.update_of_ne hne]
    · simp only [if_neg hin]
  simp only [diskstreamerWriteLoop, hnext] at hfirst ⊢
  exact hfirst.writeLoop buf hlen (by omega) (by omega)

end SerpaeOS
