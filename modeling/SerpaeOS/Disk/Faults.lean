import SerpaeOS.Disk.Stream

/-!
# Streams on a device with faults

A stream writes one byte at a time: it reads the block of the byte, changes the byte and writes the
block back, and looks at the result of neither transfer.  When the read fails, the block is written
from a buffer that nothing was read into.  A stream reads one block at a time, and goes on to the
next block when it has come to the end of one, also when it has nothing more to read.
-/

namespace SerpaeOS

open Bytes Word

/-! ## Transfers that fail -/

/-- The two transfers of a call of `write_byte`, and what its buffer holds before them. -/
structure Transfers where
  readFails : Bool
  writeFails : Bool
  stale : ℕ → UInt8

/-- The device during these transfers. -/
def Disk.during (disk : Disk) (x : Transfers) : Disk :=
  { disk with
    readFault := fun _ => x.readFails
    writeFault := fun _ => x.writeFails
    stale := x.stale }

variable {disk disk' : Disk} {x : Transfers} {pos : ℤ} {a p : ℕ}

lemma writeByte_during_failed (hwrite : x.writeFails = true) (pos : ℤ) (c : UInt8) :
    (writeByte (disk.during x) pos c).byte = disk.byte := by
  rw [writeByte]
  split_ifs
  · rfl
  · simp only [diskWriteBlock, Disk.during, hwrite, if_true]

lemma writeByte_during_ok (hread : x.readFails = false) (hwrite : x.writeFails = false) (p : ℕ)
    (c : UInt8) : (writeByte (disk.during x) p c).byte = Function.update disk.byte p c := by
  have hgood : (disk.during x).GoodAt p := ⟨hread, hwrite⟩
  rw [writeByte_of_goodAt hgood]
  rfl

/-- The block is written from the buffer when it was not read. -/
lemma writeByte_during_stale (hread : x.readFails = true) (hwrite : x.writeFails = false) (p : ℕ)
    (c : UInt8) : (writeByte (disk.during x) p c).byte = fun a =>
      if a / defaultSectorSize = p / defaultSectorSize then
        Function.update x.stale (p % defaultSectorSize) c (a % defaultSectorSize)
      else disk.byte a := by
  exact congrArg Disk.byte (@writeByte_of_unreadable (disk.during x) p hread hwrite c)

lemma writeByte_during_self (hwrite : x.writeFails = false) (p : ℕ) (c : UInt8) :
    (writeByte (disk.during x) p c).byte p = c := by
  by_cases hread : x.readFails = true
  · rw [writeByte_during_stale hread hwrite]
    dsimp only
    rw [if_pos rfl, Function.update_self]
  · rw [writeByte_during_ok (Bool.not_eq_true _ ▸ hread) hwrite, Function.update_self]

namespace DiskStream

/-- The loop of `diskstreamer_write`, with the transfers of each round. -/
def writeLoopDuring (x : ℕ → Transfers) : DiskStream → ℕ → List UInt8 → ℤ × DiskStream :=
  writeLoop fun i disk => disk.during (x i)

/-- The position behind some rounds. -/
def posAfter (pos : ℤ) (rounds : ℕ) : ℤ := (fun p => i32 (p + 1))^[rounds] pos

/-! ## Writes that hurt nothing -/

/-- Which transfers of `diskstreamer_write` fail, by the number of the byte they are for. -/
structure TransferFaults where
  read : ℕ → Bool
  write : ℕ → Bool

/-- The transfers with these faults, and with anything in the buffers. -/
def TransferFaults.transfers (fails : TransferFaults) (stale : ℕ → ℕ → UInt8) (i : ℕ) : Transfers :=
  ⟨fails.read i, fails.write i, stale i⟩

/-- A write of `n` bytes leaves the bytes of the disk outside its range as they are, and it returns
`n` only if its bytes are on the disk, whatever there is on the disk and in the buffers. -/
def SafeWrite (fails : TransferFaults) (pos : ℤ) (n : ℕ) : Prop :=
  ∀ (disk : Disk) (stale : ℕ → ℕ → UInt8) (buf : List UInt8), buf.length = n →
    (∀ a : ℕ, ¬ (pos ≤ a ∧ a < pos + n) →
      (writeLoopDuring (fails.transfers stale) ⟨pos, disk⟩ 0 buf).2.disk.byte a = disk.byte a) ∧
    ((writeLoopDuring (fails.transfers stale) ⟨pos, disk⟩ 0 buf).1 = n → ∀ i < n, ∃ a : ℕ,
      pos + i = a ∧
        (writeLoopDuring (fails.transfers stale) ⟨pos, disk⟩ 0 buf).2.disk.byte a = buf.getD i 0)

/-- The block of the `i`th of `n` bytes is written over by these bytes, from its first one on. -/
def BlockAhead (pos : ℤ) (n i : ℕ) : Prop :=
  (pos + i) % defaultSectorSize = 0 ∧ i + defaultSectorSize ≤ n

variable {fails : TransferFaults} {stale : ℕ → ℕ → UInt8} {stream : DiskStream} {i n : ℕ}
  {xs : ℕ → Transfers} {buf buf' : List UInt8}

lemma writeLoopDuring_cons (c : UInt8) (buf : List UInt8) :
    writeLoopDuring xs stream i (c :: buf) = writeLoopDuring xs
      ⟨i32 (stream.pos + 1), writeByte (stream.disk.during (xs i)) stream.pos c⟩ (i + 1) buf := rfl

lemma writeLoopDuring_fst (buf : List UInt8) : ∀ (stream : DiskStream) (i : ℕ),
    (writeLoopDuring xs stream i buf).1 = i + buf.length := by
  induction buf with
  | nil => exact fun _ _ => (Int.add_zero _).symm
  | cons c buf ih =>
    intro stream i
    rw [writeLoopDuring_cons, ih, List.length_cons]
    push_cast
    omega

/-- A byte that is zero stays zero when the buffers hold zeros, unless it is written. -/
lemma writeLoopDuring_zero (hstale : ∀ j, (xs j).stale = fun _ => 0) (buf : List UInt8) :
    ∀ {stream : DiskStream} {i : ℕ}, stream.disk.byte a = 0 →
      (∀ k < buf.length, posAfter stream.pos k = a → (xs (i + k)).writeFails = true) →
      (writeLoopDuring xs stream i buf).2.disk.byte a = 0 := by
  induction buf with
  | nil => exact fun hzero _ => hzero
  | cons c buf ih =>
    intro stream i hzero hpos
    refine ih ?_ fun k hk hk' => ?_
    · have hfirst := hpos 0 (Nat.zero_lt_succ _)
      by_cases hwrite : (xs i).writeFails = true
      · rw [writeByte_during_failed hwrite]
        exact hzero
      rw [Bool.not_eq_true] at hwrite
      by_cases hneg : stream.pos < 0
      · rw [writeByte, if_pos hneg]
        exact hzero
      obtain ⟨p, hp⟩ := Int.eq_ofNat_of_zero_le (Int.not_lt.mp hneg)
      have hne : a ≠ p := by
        rintro rfl
        rw [Nat.add_zero, hwrite] at hfirst
        exact absurd (hfirst hp) Bool.false_ne_true
      rw [hp]
      by_cases hread : (xs i).readFails = true
      · rw [writeByte_during_stale hread hwrite]
        dsimp only
        split_ifs with hblock
        · rw [Function.update_of_ne, hstale]
          intro hmod
          refine hne ?_
          rw [← Nat.div_add_mod a defaultSectorSize, hblock, hmod, Nat.div_add_mod]
        · exact hzero
      · rw [writeByte_during_ok (Bool.not_eq_true _ ▸ hread) hwrite, Function.update_of_ne hne]
        exact hzero
    · have hwrite := hpos (k + 1) (Nat.succ_lt_succ hk) hk'
      rwa [Nat.add_right_comm, Nat.add_assoc]

lemma writeLoopDuring_append (buf : List UInt8) : ∀ {stream : DiskStream} {i : ℕ},
    writeLoopDuring xs stream i (buf ++ buf') =
      writeLoopDuring xs (writeLoopDuring xs stream i buf).2 (i + buf.length) buf' := by
  induction buf with
  | nil => exact rfl
  | cons c buf ih =>
    intro stream i
    rw [List.cons_append, writeLoopDuring_cons, ih, writeLoopDuring_cons, List.length_cons,
      Nat.add_right_comm, Nat.add_assoc]

lemma writeLoopDuring_pos (buf : List UInt8) : ∀ {stream : DiskStream} {i : ℕ},
    (writeLoopDuring xs stream i buf).2.pos = posAfter stream.pos buf.length := by
  induction buf with
  | nil => exact rfl
  | cons c buf ih => exact ih

lemma posAfter_of_lt {p : ℕ} (hp : p + n < 2 ^ 31) : posAfter p n = (p + n : ℕ) := by
  induction n generalizing p with
  | zero => rfl
  | succ n ih =>
    have hstep : i32 ((p : ℤ) + 1) = (p + 1 : ℕ) := i32_of_lt (by omega) (by omega)
    rw [posAfter, Function.iterate_succ_apply, hstep, ← posAfter, ih (by omega), Nat.add_assoc,
      Nat.add_comm 1]

lemma posAfter_lt (hpos : pos < 2 ^ 31) (n : ℕ) : posAfter pos n < 2 ^ 31 := by
  cases n with
  | zero => exact hpos
  | succ n =>
    rw [posAfter, Function.iterate_succ_apply']
    exact Int.bmod_lt (by decide)

/-- A block that was not read is written over by the bytes that follow. -/
lemma writeLoopDuring_safe (buf : List UInt8) : ∀ {stream : DiskStream} {i p : ℕ},
    (buf ≠ [] → stream.pos = p) → p + buf.length ≤ 2 ^ 31 →
    (∀ k < buf.length, (xs (i + k)).writeFails = false ∧
      ((xs (i + k)).readFails = true → BlockAhead p buf.length k)) →
    (∀ a, ¬ (p ≤ a ∧ a < p + buf.length) →
      (writeLoopDuring xs stream i buf).2.disk.byte a = stream.disk.byte a) ∧
    ∀ k < buf.length, (writeLoopDuring xs stream i buf).2.disk.byte (p + k) = buf.getD k 0 := by
  induction buf with
  | nil => exact fun _ _ _ => ⟨fun _ _ => rfl, fun k hk => absurd hk (Nat.not_lt_zero k)⟩
  | cons c buf ih =>
    intro stream i p hpos hlen hok
    rw [List.length_cons] at hlen hok ⊢
    have hp : stream.pos = p := hpos (List.cons_ne_nil c buf)
    obtain ⟨hwrite, hread⟩ := hok 0 (Nat.zero_lt_succ _)
    rw [Nat.add_zero] at hwrite hread
    have hnext : buf ≠ [] → i32 (stream.pos + 1) = (p + 1 : ℕ) := by
      intro hne
      have hpos := List.length_pos_iff.mpr hne
      rw [hp]
      exact i32_of_lt (by omega) (by omega)
    have hok' : ∀ k < buf.length, (xs (i + 1 + k)).writeFails = false ∧
        ((xs (i + 1 + k)).readFails = true → BlockAhead (p + 1 : ℕ) buf.length k) := by
      intro k hk
      obtain ⟨hwrite, hread⟩ := hok (k + 1) (Nat.succ_lt_succ hk)
      rw [Nat.add_right_comm, Nat.add_assoc]
      refine ⟨hwrite, fun hfail => ?_⟩
      have hahead := hread hfail
      simp only [BlockAhead] at hahead ⊢
      push_cast at hahead ⊢
      rw [add_right_comm, add_assoc]
      exact ⟨hahead.1, by omega⟩
    obtain ⟨hout, hin⟩ := @ih ⟨i32 (stream.pos + 1),
      writeByte (stream.disk.during (xs i)) stream.pos c⟩ (i + 1) (p + 1) hnext (by omega) hok'
    rw [hp] at hout hin
    rw [writeLoopDuring_cons, hp]
    refine ⟨fun a ha => ?_, fun k hk => ?_⟩
    · refine (hout a (by omega)).trans ?_
      by_cases hfail : (xs i).readFails = true
      · obtain ⟨hstart, hend⟩ := hread hfail
        rw [writeByte_during_stale hfail hwrite]
        refine if_neg fun hblock => ha ?_
        simp only [defaultSectorSize] at hblock hstart hend
        omega
      · rw [writeByte_during_ok (Bool.not_eq_true _ ▸ hfail) hwrite]
        exact Function.update_of_ne (by omega) _ _
    · cases k with
      | zero => exact (hout p (by omega)).trans (writeByte_during_self hwrite p c)
      | succ k =>
        rw [Nat.add_comm k, ← Nat.add_assoc, Nat.add_comm 1 k]
        exact hin k (by omega)

/-- A block that is written from a buffer with zeros keeps them where no byte follows. -/
lemma writeLoopDuring_lost (hstale : ∀ j, (xs j).stale = fun _ => 0) {p k : ℕ} {c : UInt8}
    {tail : List UInt8} (hlen : p + (buf ++ c :: tail).length ≤ 2 ^ 31) (hk : k = buf.length)
    (hwrite : (xs k).writeFails = false) (hread : (xs k).readFails = true)
    (hblock : a / defaultSectorSize = (p + k) / defaultSectorSize)
    (ha : a < p + k ∨ p + (buf ++ c :: tail).length ≤ a) :
    (writeLoopDuring xs ⟨p, disk⟩ 0 (buf ++ c :: tail)).2.disk.byte a = 0 := by
  subst hk
  rw [List.length_append, List.length_cons] at hlen ha
  have hpos : (writeLoopDuring xs ⟨p, disk⟩ 0 buf).2.pos = (p + buf.length : ℕ) := by
    rw [writeLoopDuring_pos]
    exact posAfter_of_lt (by omega)
  rw [writeLoopDuring_append, Nat.zero_add, writeLoopDuring_cons, hpos]
  refine writeLoopDuring_zero hstale _ ?_ fun j hj hj' => ?_
  · rw [writeByte_during_stale hread hwrite]
    dsimp only
    rw [if_pos hblock, Function.update_of_ne, hstale]
    intro hmod
    have heq : a = p + buf.length := by
      rw [← Nat.div_add_mod a defaultSectorSize, hblock, hmod, Nat.div_add_mod]
    omega
  · have hstep : i32 (((p + buf.length : ℕ) : ℤ) + 1) = (p + buf.length + 1 : ℕ) :=
      i32_of_lt (by omega) (by omega)
    rw [hstep, posAfter_of_lt (by omega)] at hj'
    omega

/-- A disk with zeros in a range and ones around it. -/
def onesAround (p n : ℕ) : Disk where
  byte a := if p ≤ a ∧ a < p + n then 0 else 1
  readFault _ := false
  writeFault _ := false
  stale _ := 0

/-- The disk behind a write of ones with zeros in the buffers. -/
def onesWritten (fails : TransferFaults) (p n : ℕ) : Disk :=
  (writeLoopDuring (fails.transfers fun _ _ => 0) ⟨p, onesAround p n⟩ 0 (List.replicate n 1)).2.disk

lemma SafeWrite.onesWritten {p : ℕ} (h : SafeWrite fails p n) (a : ℕ) :
    (onesWritten fails p n).byte a = 1 := by
  obtain ⟨hout, hin⟩ := h (onesAround p n) (fun _ _ => 0) (List.replicate n 1) List.length_replicate
  by_cases ha : p ≤ a ∧ a < p + n
  · obtain ⟨a', ha', hbyte⟩ :=
      hin ((writeLoopDuring_fst _ _ _).trans (by simp)) (a - p) (by omega)
    obtain rfl : a = a' := by omega
    rw [DiskStream.onesWritten, hbyte, List.getD_eq_getElem?_getD,
      List.getElem?_replicate_of_lt (by omega)]
    rfl
  · refine (hout a (by omega)).trans ?_
    exact if_neg ha

lemma SafeWrite.byte_ne_zero {p : ℕ} (h : SafeWrite fails p n) (a : ℕ) :
    (DiskStream.onesWritten fails p n).byte a ≠ 0 := by
  rw [h.onesWritten]
  decide

/-- A byte of the range stays zero when no transfer to the disk at its position succeeds. -/
lemma onesWritten_zero {p a : ℕ} (ha : p ≤ a ∧ a < p + n)
    (hfail : ∀ j < n, posAfter p j = a → fails.write j = true) :
    (onesWritten fails p n).byte a = 0 := by
  refine writeLoopDuring_zero (fun _ => rfl) _ (if_pos ha) fun j hj hj' => ?_
  rw [List.length_replicate] at hj
  rw [Nat.zero_add]
  exact hfail j hj hj'

/-- A safe write of at least one byte has a position. -/
lemma SafeWrite.exists_pos (h : SafeWrite fails pos n) (hn : 0 < n) : ∃ p : ℕ, pos = p := by
  obtain ⟨-, hin⟩ := h (onesAround 0 0) (fun _ _ => 0) (List.replicate n 1) List.length_replicate
  obtain ⟨p, hp, -⟩ := hin ((writeLoopDuring_fst _ _ _).trans (by simp)) 0 hn
  exact ⟨p, by omega⟩

/-- No position of it is behind the last one. -/
lemma SafeWrite.add_lt {p i : ℕ} (h : SafeWrite fails p n) (hpos : (p : ℤ) < 2 ^ 31)
    (hi : i < n) : p + i < 2 ^ 31 := by
  by_contra hge
  refine h.byte_ne_zero (p + i) (onesWritten_zero ⟨by omega, by omega⟩ fun j _ hj => ?_)
  have hlt := posAfter_lt hpos j
  omega

/-- Every transfer to the disk succeeds. -/
lemma SafeWrite.write_ok {p i : ℕ} (h : SafeWrite fails p n) (hpos : (p : ℤ) < 2 ^ 31)
    (hi : i < n) : fails.write i = false := by
  have hend := h.add_lt hpos (show n - 1 < n by omega)
  by_contra hfail
  refine h.byte_ne_zero (p + i) (onesWritten_zero ⟨by omega, by omega⟩ fun j hj hj' => ?_)
  rw [posAfter_of_lt (by omega)] at hj'
  obtain rfl : j = i := by omega
  exact Bool.not_eq_false _ ▸ hfail

/-- Where a transfer from the disk fails, the whole block is written. -/
lemma SafeWrite.blockAhead {p i : ℕ} (h : SafeWrite fails p n) (hpos : (p : ℤ) < 2 ^ 31)
    (hi : i < n) (hread : fails.read i = true) : BlockAhead p n i := by
  have hend := h.add_lt hpos (show n - 1 < n by omega)
  by_contra hahead
  -- a byte of the block that is not written later
  obtain ⟨a, hblock, ha⟩ : ∃ a, a / defaultSectorSize = (p + i) / defaultSectorSize ∧
      (a < p + i ∨ p + n ≤ a) := by
    simp only [BlockAhead, defaultSectorSize] at hahead ⊢
    by_cases hstart : (p + i) % 512 = 0
    · exact ⟨p + n, by omega, by omega⟩
    · exact ⟨p + i - 1, by omega, by omega⟩
  have hsplit : List.replicate n (1 : UInt8) =
      List.replicate i 1 ++ 1 :: List.replicate (n - i - 1) 1 := by
    rw [← List.replicate_succ, List.replicate_append_replicate]
    congr 1
    omega
  have hlen : (List.replicate i (1 : UInt8) ++ 1 :: List.replicate (n - i - 1) 1).length = n := by
    rw [← hsplit, List.length_replicate]
  refine h.byte_ne_zero a ?_
  rw [DiskStream.onesWritten, hsplit]
  exact writeLoopDuring_lost (fun _ => rfl) (by omega) List.length_replicate.symm
    (h.write_ok hpos hi) hread hblock (by omega)

/-- When the transfers succeed so far as they have to, the write is safe. -/
lemma safeWrite_of_ok (h : ∀ i < n, 0 ≤ pos + i ∧ pos + i < 2 ^ 31 ∧ fails.write i = false ∧
    (fails.read i = true → BlockAhead pos n i)) : SafeWrite fails pos n := by
  intro disk stale buf hlen
  subst hlen
  cases buf with
  | nil => exact ⟨fun _ _ => rfl, fun _ i hi => absurd hi (Nat.not_lt_zero i)⟩
  | cons c buf =>
    obtain ⟨hnonneg, -⟩ := h 0 (Nat.zero_lt_succ _)
    obtain ⟨p, rfl⟩ := Int.eq_ofNat_of_zero_le (by omega : 0 ≤ pos)
    have hlast := (h buf.length (Nat.lt_succ_self _)).2.1
    rw [List.length_cons] at h ⊢
    have hok : ∀ k < buf.length + 1, (fails.transfers stale (0 + k)).writeFails = false ∧
        ((fails.transfers stale (0 + k)).readFails = true →
          BlockAhead p (buf.length + 1) k) := by
      intro k hk
      rw [Nat.zero_add]
      exact (h k hk).2.2
    obtain ⟨hout, hin⟩ := @writeLoopDuring_safe _ (c :: buf) ⟨p, disk⟩ 0 p (fun _ => rfl)
      (by rw [List.length_cons]; omega) hok
    refine ⟨fun a ha => hout a (by rw [List.length_cons]; omega), fun _ i hi => ?_⟩
    exact ⟨p + i, by omega, hin i hi⟩

/-- A write of `n` bytes is safe exactly when its range is a range of positions, every transfer to
the disk succeeds, and a transfer from it may fail where the whole block is written. -/
theorem diskstreamer_write_safe_iff (hpos : pos < 2 ^ 31) :
    SafeWrite fails pos n ↔ ∀ i < n, 0 ≤ pos + i ∧ pos + i < 2 ^ 31 ∧ fails.write i = false ∧
      (fails.read i = true → BlockAhead pos n i) := by
  refine ⟨fun h i hi => ?_, safeWrite_of_ok⟩
  obtain ⟨p, rfl⟩ := h.exists_pos (by omega)
  have hrange := h.add_lt hpos hi
  exact ⟨by omega, by omega, h.write_ok hpos hi, h.blockAhead hpos hi⟩

/-- Every transfer succeeds. -/
def noFaults : TransferFaults := ⟨fun _ => false, fun _ => false⟩

theorem diskstreamer_write_safe_iff_noFaults :
    SafeWrite noFaults 510 4 ↔ ∀ i < (4 : ℕ), (0 : ℤ) ≤ 510 + i ∧ (510 : ℤ) + i < 2 ^ 31 ∧
      noFaults.write i = false ∧ (noFaults.read i = true → BlockAhead 510 4 i) :=
  diskstreamer_write_safe_iff (by decide)

/-- When the block of a byte is not read, the byte in front of it is lost. -/
theorem not_diskstreamer_write_safe :
    (writeLoopDuring (TransferFaults.transfers ⟨fun _ => true, fun _ => false⟩ fun _ _ => 0)
      ⟨1, onesAround 1 1⟩ 0 [1]).2.disk.byte 0 = 0 ∧ (onesAround 1 1).byte 0 = 1 ∧
    ¬ SafeWrite ⟨fun _ => true, fun _ => false⟩ 1 1 := by
  have hlost : (writeLoopDuring (TransferFaults.transfers ⟨fun _ => true, fun _ => false⟩
      fun _ _ => 0) ⟨1, onesAround 1 1⟩ 0 [1]).2.disk.byte 0 = 0 := by
    decide
  refine ⟨hlost, by decide, fun h => ?_⟩
  obtain ⟨hout, -⟩ := h (onesAround 1 1) (fun _ _ => 0) [1] rfl
  exact absurd (hlost.symm.trans (hout 0 (by decide))) (by decide)

/-! ## The blocks that are read -/

/-- The recursion of `diskstreamer_read`, with the blocks that it reads. -/
def readLoopTraced : ℕ → DiskStream → ℤ → (ℤ × List UInt8 × DiskStream) × List ℕ
  | 0, stream, _ => ((0, [], stream), [])
  | calls + 1, stream, total =>
    if stream.pos < 0 then ((-etimedout, [], stream), [])
    else
      let sector := stream.pos.toNat / defaultSectorSize
      let offset := stream.pos.toNat % defaultSectorSize
      let overflow := decide (defaultSectorSize ≤ i32 (offset + total))
      let totalToRead :=
        if overflow then i32 (total - (i32 (offset + total) - defaultSectorSize)) else total
      let read := diskReadBlock stream.disk sector
      if read.1 < 0 then ((read.1, [], stream), [sector])
      else
        let out := slice (onStack stream.disk read.2) offset totalToRead.toNat
        let stream := { stream with pos := i32 (stream.pos + totalToRead) }
        if overflow then
          let rest := readLoopTraced calls stream (i32 (total - totalToRead))
          ((rest.1.1, out ++ rest.1.2.1, rest.1.2.2), sector :: rest.2)
        else ((read.1, out, stream), [sector])

/-- `diskstreamer_read`, with the blocks that it reads. -/
def diskstreamerReadTraced (stream : DiskStream) (total : ℤ) :
    (ℤ × List UInt8 × DiskStream) × List ℕ :=
  readLoopTraced (total.toNat + 1) stream total

/-- The blocks are those that `diskstreamer_read` reads. -/
lemma readLoopTraced_fst (calls : ℕ) : ∀ (stream : DiskStream) (total : ℤ),
    (readLoopTraced calls stream total).1 = diskstreamerReadLoop calls stream total := by
  induction calls with
  | zero => exact fun _ _ => rfl
  | succ calls ih =>
    intro stream total
    rw [readLoopTraced, diskstreamerReadLoop]
    simp only [← ih]
    split_ifs
    all_goals rfl

/-- What is read is what is read from the position on. -/
lemma diskstreamerReadTraced_fst {p : ℕ} (hend : p + n < 2 ^ 31) :
    (diskstreamerReadTraced ⟨p, disk⟩ n).1 =
      ((SerpaeOS.diskstreamerRead disk p n).1, (SerpaeOS.diskstreamerRead disk p n).2.1,
        ⟨(SerpaeOS.diskstreamerRead disk p n).2.2, disk⟩) := by
  rw [diskstreamerReadTraced, Int.toNat_natCast, readLoopTraced_fst,
    diskstreamerReadLoop_eq _ _ _ hend]
  rfl

/-- The call reads the block of its position, and the call behind it goes on with the next block. -/
lemma readLoopTraced_step {calls p total : ℕ} (hend : p + total < 2 ^ 31) :
    (readLoopTraced (calls + 1) ⟨p, disk⟩ total).2 = p / defaultSectorSize ::
      (if disk.readFault (p / defaultSectorSize) = false ∧
          defaultSectorSize ≤ p % defaultSectorSize + total then
        let next := (p / defaultSectorSize + 1) * defaultSectorSize
        (readLoopTraced calls ⟨next, disk⟩ (p + total - next : ℕ)).2
      else []) := by
  have hoffset : i32 (((p % defaultSectorSize : ℕ) : ℤ) + total) =
      ((p % defaultSectorSize + total : ℕ) : ℤ) := by
    rw [← Nat.cast_add]
    refine i32_of_lt (by omega) ?_
    have := Nat.mod_le p defaultSectorSize
    omega
  rw [readLoopTraced, if_neg (by simp)]
  simp only [Int.toNat_natCast, hoffset, Int.ofNat_le, decide_eq_true_eq]
  by_cases hfault : disk.readFault (p / defaultSectorSize) = true
  · have hread : (diskReadBlock disk (p / defaultSectorSize)).1 = -etimedout := by
      rw [diskReadBlock, if_pos hfault]
    simp only [hread, hfault, if_true, (by decide : -etimedout < (0 : ℤ)), Bool.true_eq_false,
      false_and, if_false]
  have hread : (diskReadBlock disk (p / defaultSectorSize)).1 = 0 := by
    rw [diskReadBlock, if_neg hfault]
  rw [Bool.not_eq_true] at hfault
  simp only [hread, hfault, lt_irrefl, if_false, true_and]
  by_cases hover : defaultSectorSize ≤ p % defaultSectorSize + total
  · obtain ⟨m, hm⟩ : ∃ m, p + m = (p / defaultSectorSize + 1) * defaultSectorSize :=
      ⟨defaultSectorSize - p % defaultSectorSize, by simp only [defaultSectorSize]; omega⟩
    have hle : m ≤ total := by
      simp only [defaultSectorSize] at *
      omega
    have hread : i32 ((total : ℤ) -
        (((p % defaultSectorSize + total : ℕ) : ℤ) - defaultSectorSize)) = m := by
      rw [show (total : ℤ) - (((p % defaultSectorSize + total : ℕ) : ℤ) - defaultSectorSize) = m by
        simp only [defaultSectorSize] at *
        omega]
      exact i32_of_lt (by omega) (by omega)
    have hrest : i32 ((total : ℤ) - m) = ((p + total - (p + m) : ℕ) : ℤ) := by
      rw [i32_of_lt] <;> omega
    have hmove : i32 ((p : ℤ) + m) = ((p + m : ℕ) : ℤ) := by
      rw [i32_of_lt] <;> omega
    simp only [if_pos hover, hread, hrest, hmove, ← hm]
  · simp only [if_neg hover]

/-- The blocks up to the first one that is not readable are read, at most the one that the byte
behind the range is in. -/
lemma readLoopTraced_spec (calls : ℕ) : ∀ {p total : ℕ}, total < calls → p + total < 2 ^ 31 →
    ((∀ s, p / defaultSectorSize ≤ s → s ≤ (p + total) / defaultSectorSize →
        disk.readFault s = false) →
      ∀ s, s ∈ (readLoopTraced calls ⟨p, disk⟩ total).2 ↔
        p / defaultSectorSize ≤ s ∧ s ≤ (p + total) / defaultSectorSize) ∧
    ∀ bad, p / defaultSectorSize ≤ bad → bad ≤ (p + total) / defaultSectorSize →
      disk.readFault bad = true → (∀ s, p / defaultSectorSize ≤ s → s < bad →
        disk.readFault s = false) →
      ∀ s, s ∈ (readLoopTraced calls ⟨p, disk⟩ total).2 ↔ p / defaultSectorSize ≤ s ∧ s ≤ bad := by
  induction calls with
  | zero => exact fun h => absurd h (Nat.not_lt_zero _)
  | succ calls ih =>
    intro p total hcalls hend
    have htrace := @readLoopTraced_step disk calls p total hend
    by_cases hover : defaultSectorSize ≤ p % defaultSectorSize + total
    · have hnext : p < (p / defaultSectorSize + 1) * defaultSectorSize ∧
          (p / defaultSectorSize + 1) * defaultSectorSize ≤ p + total := by
        simp only [defaultSectorSize] at *
        omega
      have hblock : (p / defaultSectorSize + 1) * defaultSectorSize / defaultSectorSize =
          p / defaultSectorSize + 1 := Nat.mul_div_cancel _ (by decide)
      have hsum : (p / defaultSectorSize + 1) * defaultSectorSize +
          (p + total - (p / defaultSectorSize + 1) * defaultSectorSize) = p + total := by omega
      obtain ⟨hok, hbad⟩ := @ih ((p / defaultSectorSize + 1) * defaultSectorSize)
        (p + total - (p / defaultSectorSize + 1) * defaultSectorSize) (by omega) (by omega)
      rw [hsum, hblock] at hok hbad
      have hle : p / defaultSectorSize ≤ (p + total) / defaultSectorSize :=
        Nat.div_le_div_right (by omega)
      refine ⟨fun hall s => ?_, fun bad hlo hhi hfault hfirst s => ?_⟩
      · rw [if_pos ⟨hall _ le_rfl hle, hover⟩] at htrace
        rw [htrace, List.mem_cons, hok fun s hs hs' => hall s (by omega) hs']
        omega
      · rcases hlo.eq_or_lt with rfl | hlt
        · -- the block of the position is not readable
          rw [hfault, if_neg (by simp)] at htrace
          rw [htrace, List.mem_singleton]
          omega
        · rw [if_pos ⟨hfirst _ le_rfl hlt, hover⟩] at htrace
          rw [htrace, List.mem_cons,
            hbad bad hlt hhi hfault fun s hs hs' => hfirst s (by omega) hs']
          omega
    · have hlast : (p + total) / defaultSectorSize = p / defaultSectorSize := by
        simp only [defaultSectorSize] at *
        omega
      rw [if_neg fun h => hover h.2] at htrace
      rw [hlast]
      refine ⟨fun _ s => ?_, fun bad hlo hhi _ _ s => ?_⟩
      · rw [htrace, List.mem_singleton]
        omega
      · rw [htrace, List.mem_singleton]
        omega

/-- A read of `n` bytes succeeds if every block with a byte of its range is readable, and fails
otherwise; no other block is read. -/
structure ReadsRange (disk : Disk) (p n : ℕ) : Prop where
  succeeds : (∀ a, p ≤ a → a < p + n → disk.readFault (a / defaultSectorSize) = false) →
    (diskstreamerReadTraced ⟨p, disk⟩ n).1.1 = 0 ∧
      (diskstreamerReadTraced ⟨p, disk⟩ n).1.2.2.pos = p + n
  fails : (∃ a, p ≤ a ∧ a < p + n ∧ disk.readFault (a / defaultSectorSize) = true) →
    (diskstreamerReadTraced ⟨p, disk⟩ n).1.1 < 0
  inside : ∀ s ∈ (diskstreamerReadTraced ⟨p, disk⟩ n).2, ∃ a, p ≤ a ∧ a < p + n ∧
    a / defaultSectorSize = s

/-- The blocks with a byte of a range. -/
lemma exists_mem_block {p s : ℕ} (hn : 0 < n) :
    (∃ a, p ≤ a ∧ a < p + n ∧ a / defaultSectorSize = s) ↔
      p / defaultSectorSize ≤ s ∧ s ≤ (p + n - 1) / defaultSectorSize := by
  constructor
  · rintro ⟨a, hlo, hhi, rfl⟩
    exact ⟨Nat.div_le_div_right hlo, Nat.div_le_div_right (by omega)⟩
  · rintro ⟨hlo, hhi⟩
    simp only [defaultSectorSize] at hlo hhi ⊢
    rcases Nat.le_total p (s * 512) with hp | hp
    · exact ⟨s * 512, hp, by omega, by omega⟩
    · exact ⟨p, le_rfl, by omega, by omega⟩

/-- When a block of the range is not readable, the read ends at the first such block. -/
lemma readsRange_of_fault {p a : ℕ} (hend : p + n < 2 ^ 31) (hlo : p ≤ a) (hhi : a < p + n)
    (ha : disk.readFault (a / defaultSectorSize) = true) : ReadsRange disk p n := by
  obtain ⟨-, hbad⟩ := @readLoopTraced_spec disk (n + 1) p n (Nat.lt_succ_self n) hend
  have hn : 0 < n := by omega
  have hle : (p + n - 1) / defaultSectorSize ≤ (p + n) / defaultSectorSize :=
    Nat.div_le_div_right (by omega)
  obtain ⟨hlo', hhi'⟩ := (exists_mem_block hn).mp ⟨a, hlo, hhi, rfl⟩
  have hex : ∃ s, p / defaultSectorSize ≤ s ∧ disk.readFault s = true := ⟨_, hlo', ha⟩
  obtain ⟨hfind, hfindbad⟩ := Nat.find_spec hex
  have hfindle : Nat.find hex ≤ a / defaultSectorSize := Nat.find_min' hex ⟨hlo', ha⟩
  have htrace := hbad (Nat.find hex) hfind (by omega) hfindbad fun s hs hlt =>
    Bool.not_eq_true _ ▸ fun h => Nat.find_min hex hlt ⟨hs, h⟩
  have hneg : (diskstreamerReadTraced ⟨p, disk⟩ n).1.1 < 0 := by
    rw [diskstreamerReadTraced_fst hend]
    exact diskstreamerReadLoop_of_fault _ p n _ (Nat.lt_succ_self n) hlo' (by omega) ha
  refine ⟨fun hall => ?_, fun _ => hneg, fun s hs => (exists_mem_block hn).mpr ?_⟩
  · exact absurd ((hall a hlo hhi).symm.trans ha) Bool.false_ne_true
  · have hs' := (htrace s).mp hs
    omega

/-- A readable range that ends in a block is read. -/
lemma readsRange_of_mod_ne_zero {p : ℕ} (hn : 0 < n) (hend : p + n < 2 ^ 31)
    (hread : ∀ s, p / defaultSectorSize ≤ s → s ≤ (p + n - 1) / defaultSectorSize →
      disk.readFault s = false) (hmod : (p + n) % defaultSectorSize ≠ 0) :
    ReadsRange disk p n := by
  obtain ⟨hok, -⟩ := @readLoopTraced_spec disk (n + 1) p n (Nat.lt_succ_self n) hend
  have hlast : (p + n) / defaultSectorSize = (p + n - 1) / defaultSectorSize := by
    simp only [defaultSectorSize] at *
    omega
  have hrun : SerpaeOS.diskstreamerRead disk p n =
      (0, slice disk.byte p n, ((p + n : ℕ) : ℤ)) :=
    diskstreamerReadLoop_of_readable _ p n (Nat.lt_succ_self n) (hlast ▸ hread)
  rw [hlast] at hok
  refine ⟨fun _ => ?_, fun hfault => ?_, ?_⟩
  · rw [diskstreamerReadTraced_fst hend, hrun]
    exact ⟨rfl, Nat.cast_add p n⟩
  · obtain ⟨a, hlo, hhi, ha⟩ := hfault
    obtain ⟨hlo', hhi'⟩ := (exists_mem_block hn).mp ⟨a, hlo, hhi, rfl⟩
    exact absurd ((hread _ hlo' hhi').symm.trans ha) Bool.false_ne_true
  · exact fun s hs => (exists_mem_block hn).mpr ((hok hread s).mp hs)

/-- When a readable range ends with a block, the next block is read as well, with or without a
fault. -/
lemma not_readsRange {p : ℕ} (hn : 0 < n) (hend : p + n < 2 ^ 31)
    (hread : ∀ s, p / defaultSectorSize ≤ s → s ≤ (p + n - 1) / defaultSectorSize →
      disk.readFault s = false) (hmod : (p + n) % defaultSectorSize = 0) :
    ¬ ReadsRange disk p n := by
  intro h
  obtain ⟨hok, hbad⟩ := @readLoopTraced_spec disk (n + 1) p n (Nat.lt_succ_self n) hend
  have hlast : (p + n) / defaultSectorSize = (p + n - 1) / defaultSectorSize + 1 := by
    simp only [defaultSectorSize] at *
    omega
  have hlo : p / defaultSectorSize ≤ (p + n - 1) / defaultSectorSize :=
    Nat.div_le_div_right (by omega)
  have hmem : (p + n) / defaultSectorSize ∈ (diskstreamerReadTraced ⟨p, disk⟩ n).2 := by
    by_cases hnext : disk.readFault ((p + n) / defaultSectorSize) = true
    · exact (hbad _ (by omega) le_rfl hnext (fun s hs hlt => hread s hs (by omega)) _).mpr
        ⟨by omega, le_rfl⟩
    · refine (hok (fun s hs hs' => ?_) _).mpr ⟨by omega, le_rfl⟩
      rcases hs'.eq_or_lt with rfl | hlt
      · exact Bool.not_eq_true _ ▸ hnext
      · exact hread s hs (by omega)
  have hin := (exists_mem_block hn).mp (h.inside _ hmem)
  omega

/-- A read does what its range says exactly when the range does not end with a block, or some block
of it is not readable: the block behind the range is read as well when the end of the range is
reached. -/
theorem diskstreamer_read_range_iff {p : ℕ} (hn : 0 < n) (hend : p + n < 2 ^ 31) :
    ReadsRange disk p n ↔ (p + n) % defaultSectorSize ≠ 0 ∨
      ∃ a, p ≤ a ∧ a < p + n ∧ disk.readFault (a / defaultSectorSize) = true := by
  by_cases hfault : ∃ a, p ≤ a ∧ a < p + n ∧ disk.readFault (a / defaultSectorSize) = true
  · obtain ⟨a, hlo, hhi, ha⟩ := hfault
    exact iff_of_true (readsRange_of_fault hend hlo hhi ha) (Or.inr ⟨a, hlo, hhi, ha⟩)
  have hread : ∀ s, p / defaultSectorSize ≤ s → s ≤ (p + n - 1) / defaultSectorSize →
      disk.readFault s = false := by
    intro s hs hs'
    obtain ⟨a, hlo, hhi, rfl⟩ := (exists_mem_block hn).mpr ⟨hs, hs'⟩
    by_contra h
    exact hfault ⟨a, hlo, hhi, Bool.not_eq_false _ ▸ h⟩
  rw [or_iff_left hfault]
  exact ⟨fun h hmod => not_readsRange hn hend hread hmod h,
    readsRange_of_mod_ne_zero hn hend hread⟩

/-- A disk of one block. -/
def oneBlock : Disk where
  byte _ := 0
  readFault lba := decide (1 ≤ lba)
  writeFault lba := decide (1 ≤ lba)
  stale _ := 0

theorem diskstreamer_read_range_iff_oneBlock :
    ReadsRange oneBlock 0 511 ↔ (0 + 511) % defaultSectorSize ≠ 0 ∨
      ∃ a, 0 ≤ a ∧ a < 0 + 511 ∧ oneBlock.readFault (a / defaultSectorSize) = true :=
  diskstreamer_read_range_iff (by decide) (by decide)

/-- A read of the last bytes of the disk fails, and has read the block behind them. -/
theorem not_diskstreamer_read_range :
    (∀ a, 508 ≤ a → a < 508 + 4 → oneBlock.readFault (a / defaultSectorSize) = false) ∧
    diskstreamerReadTraced ⟨508, oneBlock⟩ 4 =
      ((-etimedout, [0, 0, 0, 0], ⟨512, oneBlock⟩), [0, 1]) ∧
    ¬ ReadsRange oneBlock 508 4 := by
  have hread : ∀ a, 508 ≤ a → a < 508 + 4 →
      oneBlock.readFault (a / defaultSectorSize) = false := by
    intro a hlo hhi
    exact decide_eq_false (by simp only [defaultSectorSize]; omega)
  have hrun : diskstreamerReadTraced ⟨508, oneBlock⟩ 4 =
      ((-etimedout, [0, 0, 0, 0], ⟨512, oneBlock⟩), [0, 1]) := rfl
  refine ⟨hread, hrun, fun h => ?_⟩
  have hres := (h.succeeds hread).1
  rw [Nat.cast_ofNat, Nat.cast_ofNat, hrun] at hres
  exact absurd hres (by decide)

end DiskStream

end SerpaeOS
