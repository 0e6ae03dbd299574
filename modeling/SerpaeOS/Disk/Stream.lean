import SerpaeOS.Disk.Streamer
import SerpaeOS.Lib.Word

/-!
# Disk streams

`struct disk_stream` with the operations of `streamer.c` as they act on it.  The position is
a signed 32-bit number.  `diskstreamerRead` and `diskstreamerWrite` of the previous module
take the position as an argument; a stream agrees with them as long as its position does not
overflow.

Without faults a stream is a window on the bytes of the volume: a write replaces the bytes
from the position on and nothing else, a read returns them, and both move the position
behind them.
-/

namespace SerpaeOS

open Bytes Word

/-- `struct disk_stream`, with the disk it points to. -/
structure DiskStream where
  pos : ℤ
  disk : Disk

namespace DiskStream

def diskstreamerSeek (stream : DiskStream) (pos : ℤ) : ℤ × DiskStream :=
  (0, { stream with pos := pos })

/-- The array `buf` on the stack of `diskstreamer_read`, with what lies behind it. -/
def onStack (disk : Disk) (buf : ℕ → UInt8) : ℕ → UInt8 :=
  fun i => if i < defaultSectorSize then buf i else disk.stale i

/-- The recursion of `diskstreamer_read`: the result, the bytes stored at `out` and the
stream. -/
def diskstreamerReadLoop : ℕ → DiskStream → ℤ → ℤ × List UInt8 × DiskStream
  | 0, stream, _ => (0, [], stream)
  | calls + 1, stream, total =>
    if stream.pos < 0 then (-etimedout, [], stream)
    else
      let sector := stream.pos.toNat / defaultSectorSize
      let offset := stream.pos.toNat % defaultSectorSize
      let overflow := decide (defaultSectorSize ≤ i32 (offset + total))
      let totalToRead :=
        if overflow then i32 (total - (i32 (offset + total) - defaultSectorSize)) else total
      let read := diskReadBlock stream.disk sector
      if read.1 < 0 then (read.1, [], stream)
      else
        let out := slice (onStack stream.disk read.2) offset totalToRead.toNat
        let stream := { stream with pos := i32 (stream.pos + totalToRead) }
        if overflow then
          let rest := diskstreamerReadLoop calls stream (i32 (total - totalToRead))
          (rest.1, out ++ rest.2.1, rest.2.2)
        else (read.1, out, stream)

/-- `diskstreamer_read`.  Each call of the recursion asks for fewer bytes than the one
before, so `total + 1` calls are enough. -/
def diskstreamerRead (stream : DiskStream) (total : ℤ) : ℤ × List UInt8 × DiskStream :=
  diskstreamerReadLoop (total.toNat + 1) stream total

/-- The loop of `diskstreamer_write` over the bytes `buf[i], …` still to come, with what the device
is like in each round. -/
def writeLoop (device : ℕ → Disk → Disk) : DiskStream → ℕ → List UInt8 → ℤ × DiskStream
  | stream, i, [] => (i, stream)
  | stream, i, c :: buf =>
    let disk := writeByte (device i stream.disk) stream.pos c
    writeLoop device { pos := i32 (stream.pos + 1), disk := disk } (i + 1) buf

/-- `diskstreamer_write` of all bytes of the buffer. -/
def diskstreamerWrite (stream : DiskStream) (buf : List UInt8) : ℤ × DiskStream :=
  writeLoop (fun _ disk => disk) stream 0 buf

/-! ## Streams without faults -/

variable {disk : Disk}

/-- As long as its position does not overflow, a stream reads what is read from its position on. -/
lemma diskstreamerReadLoop_eq : ∀ (calls pos total : ℕ), pos + total < 2 ^ 31 →
    diskstreamerReadLoop calls ⟨pos, disk⟩ total =
      ((SerpaeOS.diskstreamerReadLoop disk calls pos total).1,
        (SerpaeOS.diskstreamerReadLoop disk calls pos total).2.1,
        ⟨(SerpaeOS.diskstreamerReadLoop disk calls pos total).2.2, disk⟩) := by
  intro calls
  induction calls with
  | zero => exact fun _ _ _ => rfl
  | succ calls ih =>
    intro pos total hbound
    have hoffset : i32 (((pos % defaultSectorSize : ℕ) : ℤ) + total) =
        ((pos % defaultSectorSize + total : ℕ) : ℤ) := by
      rw [← Nat.cast_add]
      refine i32_of_lt (by omega) ?_
      have := Nat.mod_le pos defaultSectorSize
      omega
    have hslice : ∀ buf n, pos % defaultSectorSize + n ≤ defaultSectorSize →
        slice (onStack disk buf) (pos % defaultSectorSize) n =
          slice buf (pos % defaultSectorSize) n := by
      intro buf n hn
      rw [slice_eq_iff]
      intro i hi
      rw [onStack, if_pos (by omega)]
    have hneg : ¬ (pos : ℤ) < 0 := Int.not_lt.mpr (Int.natCast_nonneg pos)
    rw [diskstreamerReadLoop, SerpaeOS.diskstreamerReadLoop, if_neg hneg, if_neg hneg]
    simp only [Int.toNat_natCast, hoffset, Int.ofNat_le, decide_eq_true_eq]
    by_cases hfault : (diskReadBlock disk (pos / defaultSectorSize)).1 < 0
    · simp only [if_pos hfault]
    simp only [if_neg hfault]
    by_cases hover : defaultSectorSize ≤ pos % defaultSectorSize + total
    · -- the block ends before the read does: the rest comes from the following blocks
      obtain ⟨n, hn⟩ : ∃ n, pos % defaultSectorSize + n = defaultSectorSize :=
        ⟨defaultSectorSize - pos % defaultSectorSize, by simp only [defaultSectorSize]; omega⟩
      have hle : n ≤ total := by omega
      have hread : i32 ((total : ℤ) -
          (((pos % defaultSectorSize + total : ℕ) : ℤ) - defaultSectorSize)) = n := by
        rw [show (total : ℤ) - (((pos % defaultSectorSize + total : ℕ) : ℤ) - defaultSectorSize)
          = n by omega]
        exact i32_of_lt (by omega) (by omega)
      have hread' : total - (pos % defaultSectorSize + total - defaultSectorSize) = n := by omega
      have hrest : i32 ((total : ℤ) - n) = ((total - n : ℕ) : ℤ) := by
        rw [i32_of_lt] <;> omega
      have hmove : i32 ((pos : ℤ) + n) = ((pos + n : ℕ) : ℤ) := by
        rw [i32_of_lt] <;> omega
      have hend : pos + n + (total - n) = pos + total := by
        rw [Nat.add_assoc, Nat.add_sub_cancel' hle]
      simp only [if_pos hover, hread, hread', hrest, hmove, Int.toNat_natCast]
      rw [ih (pos + n) (total - n) (hend ▸ hbound), hslice _ n hn.le, Nat.cast_add]
    · have hmove : i32 ((pos : ℤ) + total) = ((pos + total : ℕ) : ℤ) := by
        rw [i32_of_lt] <;> omega
      simp only [if_neg hover, Int.toNat_natCast, hmove]
      rw [hslice _ total (not_le.mp hover).le, Nat.cast_add]

/-- A stream delivers the bytes from its position on. -/
lemma diskstreamerRead_eq (h : disk.FaultFree) {pos total : ℕ} (hbound : pos + total < 2 ^ 31) :
    diskstreamerRead ⟨pos, disk⟩ total =
      (0, slice disk.byte pos total, ⟨((pos + total : ℕ) : ℤ), disk⟩) := by
  have hread := diskstreamerReadLoop_of_readable (total + 1) pos total (Nat.lt_succ_self total)
    fun lba _ _ => h.read_ok lba
  rw [diskstreamerRead, Int.toNat_natCast, diskstreamerReadLoop_eq _ pos total hbound, hread]

/-- It writes what is written from its position on. -/
lemma writeLoop_eq (buf : List UInt8) : ∀ (pos i : ℕ), pos + buf.length < 2 ^ 31 →
    writeLoop (fun _ disk => disk) ⟨pos, disk⟩ i buf =
      (((i + buf.length : ℕ) : ℤ), ⟨((pos + buf.length : ℕ) : ℤ),
        diskstreamerWriteLoop disk pos buf⟩) := by
  induction buf generalizing disk with
  | nil => exact fun _ _ _ => rfl
  | cons c buf ih =>
    intro pos i hbound
    rw [List.length_cons] at hbound ⊢
    have hmove : i32 ((pos : ℤ) + 1) = ((pos + 1 : ℕ) : ℤ) := by
      rw [i32_of_lt] <;> omega
    simp only [writeLoop, hmove]
    rw [ih (pos + 1) (i + 1) (by omega), diskstreamerWriteLoop, Int.natCast_succ pos,
      show i + 1 + buf.length = i + (buf.length + 1) by omega,
      show pos + 1 + buf.length = pos + (buf.length + 1) by omega]

/-- A stream stores the bytes of the buffer from its position on. -/
lemma diskstreamerWrite_eq (h : disk.FaultFree) {pos : ℕ} {buf : List UInt8}
    (hbound : pos + buf.length < 2 ^ 31) :
    diskstreamerWrite ⟨pos, disk⟩ buf =
      ((buf.length : ℤ), ⟨((pos + buf.length : ℕ) : ℤ),
        { disk with byte := store disk.byte pos buf }⟩) := by
  rw [diskstreamerWrite, writeLoop_eq buf pos 0 hbound, Nat.zero_add,
    diskstreamerWriteLoop_ok pos buf h]

/-! ## Writes in sequence -/

/-- Seek to a position and write a buffer there. -/
def writeAt (stream : DiskStream) (w : ℕ × List UInt8) : DiskStream :=
  ((stream.diskstreamerSeek w.1).2.diskstreamerWrite w.2).2

/-- The byte at `a` of the last write that covers it, of `b` if there is none. -/
def lastWritten (b : ℕ → UInt8) (writes : List (ℕ × List UInt8)) (a : ℕ) : UInt8 :=
  match writes.reverse.find? fun w => decide (w.1 ≤ a ∧ a < w.1 + w.2.length) with
  | some w => w.2.getD (a - w.1) 0
  | none => b a

variable {stream : DiskStream}

lemma writeAt_disk (h : stream.disk.FaultFree) {w : ℕ × List UInt8}
    (hw : w.1 + w.2.length < 2 ^ 31) :
    (stream.writeAt w).disk =
      { stream.disk with byte := store stream.disk.byte w.1 w.2 } := by
  have hwrite := diskstreamerWrite_eq h hw
  rw [writeAt, diskstreamerSeek, hwrite]

/-- One more write at the end hides what the writes before it stored in its range. -/
lemma lastWritten_concat (b : ℕ → UInt8) (writes : List (ℕ × List UInt8))
    (w : ℕ × List UInt8) :
    lastWritten b (writes ++ [w]) = store (lastWritten b writes) w.1 w.2 := by
  funext a
  rw [lastWritten, List.reverse_append, List.reverse_singleton, List.singleton_append,
    List.find?_cons, store]
  by_cases ha : w.1 ≤ a ∧ a < w.1 + w.2.length
  · rw [if_pos ha, decide_eq_true ha]
  · rw [if_neg ha, decide_eq_false ha, lastWritten]

lemma foldl_writeAt (h : stream.disk.FaultFree) (writes : List (ℕ × List UInt8))
    (hw : ∀ w ∈ writes, w.1 + w.2.length < 2 ^ 31) :
    (writes.foldl writeAt stream).disk =
      { stream.disk with byte := lastWritten stream.disk.byte writes } := by
  induction writes using List.reverseRecOn with
  | nil => rfl
  | append_singleton writes w ih =>
    have hdisk := ih fun v hv => hw v (List.mem_append_left _ hv)
    have hfree : (writes.foldl writeAt stream).disk.FaultFree := by
      rw [hdisk]
      exact ⟨h.read_ok, h.write_ok⟩
    rw [List.foldl_append, List.foldl_cons, List.foldl_nil,
      writeAt_disk hfree (hw w (by simp)), hdisk, lastWritten_concat]

/-- A stream on a device without faults.  A write stores the buffer in the bytes from the
position on, changes no other byte and moves the position behind them; a read returns the
bytes from the position on.  So what is written at a position is read back from it, and
after any sequence of writes each byte is the one of the last write that covers it. -/
theorem diskstreamer_write_read (h : stream.disk.FaultFree) (hpos : 0 ≤ stream.pos) :
    (∀ buf : List UInt8, stream.pos + buf.length < 2 ^ 31 →
      ∃ byte : ℕ → UInt8,
        stream.diskstreamerWrite buf =
          ((buf.length : ℤ), ⟨stream.pos + buf.length, { stream.disk with byte := byte }⟩) ∧
        (∀ i < buf.length, byte (stream.pos.toNat + i) = buf.getD i 0) ∧
        ∀ a : ℕ, (a : ℤ) < stream.pos ∨ stream.pos + buf.length ≤ a →
          byte a = stream.disk.byte a) ∧
    (∀ n : ℕ, stream.pos + n < 2 ^ 31 →
      stream.diskstreamerRead n =
        (0, slice stream.disk.byte stream.pos.toNat n, ⟨stream.pos + n, stream.disk⟩)) ∧
    (∀ (pos : ℕ) (buf : List UInt8), pos + buf.length < 2 ^ 31 →
      ((stream.writeAt (pos, buf)).diskstreamerSeek pos).2.diskstreamerRead buf.length =
        (0, buf, ⟨(pos + buf.length : ℕ), (stream.writeAt (pos, buf)).disk⟩)) ∧
    ∀ writes : List (ℕ × List UInt8), (∀ w ∈ writes, w.1 + w.2.length < 2 ^ 31) →
      ∀ a, (writes.foldl writeAt stream).disk.byte a =
        lastWritten stream.disk.byte writes a := by
  obtain ⟨pos, hstream⟩ : ∃ pos : ℕ, stream = ⟨pos, stream.disk⟩ := by
    obtain ⟨pos, hp⟩ := Int.eq_ofNat_of_zero_le hpos
    exact ⟨pos, by rw [← hp]⟩
  obtain ⟨disk, hdisk⟩ : ∃ disk, stream.disk = disk := ⟨_, rfl⟩
  rw [hdisk] at hstream h
  subst hstream
  refine ⟨fun buf hbound => ⟨store disk.byte pos buf, ?_, ?_, ?_⟩, fun n hbound => ?_,
    fun at_ buf hbound => ?_, fun writes hw a => ?_⟩
  · rw [diskstreamerWrite_eq h (by simp only at hbound; omega), Nat.cast_add]
  · intro i hi
    exact store_add hi
  · intro a ha
    exact store_of_lt (by simp only at ha; omega)
  · rw [diskstreamerRead_eq h (by simp only at hbound; omega), Nat.cast_add]
    rfl
  · have hwritten := @writeAt_disk ⟨pos, disk⟩ h (at_, buf) hbound
    have hfree : (writeAt ⟨pos, disk⟩ (at_, buf)).disk.FaultFree := by
      rw [hwritten]
      exact ⟨h.read_ok, h.write_ok⟩
    have hread := diskstreamerRead_eq hfree hbound
    rw [diskstreamerSeek, hread, hwritten]
    simp only [slice_store_self]
  · rw [foldl_writeAt h writes hw]

/-- A stream on an empty device, two bytes before the end of its first block. -/
def blankStream : DiskStream :=
  ⟨510, { byte := fun _ => 0, readFault := fun _ => false, writeFault := fun _ => false,
          stale := fun _ => 0 }⟩

/-- Four bytes written across the end of a block are read back, and two more writes over
parts of them win. -/
theorem blankStream_write_read :
    ((blankStream.writeAt (510, [1, 2, 3, 4])).diskstreamerSeek 510).2.diskstreamerRead 4 =
      (0, [1, 2, 3, 4], ⟨514, (blankStream.writeAt (510, [1, 2, 3, 4])).disk⟩) ∧
    ([(510, [1, 2, 3, 4]), (511, [5, 6]), (512, [7])].foldl writeAt blankStream).disk.byte 512
      = 7 := by
  have hfree : blankStream.disk.FaultFree := ⟨fun _ => rfl, fun _ => rfl⟩
  obtain ⟨-, -, hback, hlast⟩ := diskstreamer_write_read hfree (by decide)
  refine ⟨hback 510 [1, 2, 3, 4] (by decide), ?_⟩
  exact hlast [(510, [1, 2, 3, 4]), (511, [5, 6]), (512, [7])] (by decide) 512

end DiskStream

end SerpaeOS
