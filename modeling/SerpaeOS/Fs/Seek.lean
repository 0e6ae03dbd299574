import SerpaeOS.Fs.ReadCodes
import SerpaeOS.Lib.StepRun

/-!
# The position in a file

Runs of `fat16_seek` and `fat16_read`, or of their FAT32 counterparts, on one open file.  A seek
compares its offset with the size of the file, also when the offset is relative to the
position; a read does not look at the size.  `fat_position_iff` says when the position and
the reads stay inside the file.
-/

namespace SerpaeOS

open Bytes StepRun Word

/-! ## Reads that succeed -/

namespace FatKind

variable {k : FatKind} {v : FatVolume} {disk : Disk} {cluster offset : ℤ} {total : ℕ}

/-- The step of a read that starts `j` clusters after the offset finds its cluster and reads from
the disk. -/
def StepReads (k : FatKind) (v : FatVolume) (disk : Disk) (cluster offset : ℤ) (total j : ℕ) :
    Prop :=
  let position := i32 (offset + j * v.clusterBytes)
  let clusterToUse := k.getClusterForOffset v disk cluster position.toNat
  0 ≤ clusterToUse ∧
    (diskstreamerRead disk (i32 (k.clusterPos v clusterToUse + k.offsetFromCluster v position))
      (min (total - j * v.clusterBytes) v.clusterBytes)).1 = 0

/-- Every step of a read finds its cluster and reads from the disk. -/
def Delivers (k : FatKind) (v : FatVolume) (disk : Disk) (cluster offset : ℤ) (total : ℕ) :
    Prop :=
  ∀ j, j = 0 ∨ j * v.clusterBytes < total → k.StepReads v disk cluster offset total j

/-- The steps after the first one are those of a read that starts one cluster later. -/
lemma stepReads_succ (j : ℕ) :
    k.StepReads v disk cluster offset total (j + 1) ↔
      k.StepReads v disk cluster (i32 (offset + v.clusterBytes)) (total - v.clusterBytes) j := by
  have hposition : i32 (i32 (offset + v.clusterBytes) + j * v.clusterBytes) =
      i32 (offset + (j + 1 : ℕ) * v.clusterBytes) := by
    rw [i32_add_i32]
    congr 1
    push_cast
    ring
  have htotal : total - v.clusterBytes - j * v.clusterBytes =
      total - (j + 1) * v.clusterBytes := by
    rw [Nat.sub_sub, Nat.succ_mul, Nat.add_comm]
  rw [StepReads, StepReads, hposition, htotal]

/-- A read of at most a cluster is one step. -/
lemma delivers_le (hle : total ≤ v.clusterBytes) :
    k.Delivers v disk cluster offset total ↔ k.StepReads v disk cluster offset total 0 := by
  refine ⟨fun hall => hall 0 (Or.inl rfl), fun hzero j hj => ?_⟩
  cases j with
  | zero => exact hzero
  | succ j =>
    rw [Nat.succ_mul] at hj
    omega

/-- A longer read is a step, and a read that starts one cluster later. -/
lemma delivers_of_lt (hlt : v.clusterBytes < total) :
    k.Delivers v disk cluster offset total ↔ k.StepReads v disk cluster offset total 0 ∧
      k.Delivers v disk cluster (i32 (offset + v.clusterBytes)) (total - v.clusterBytes) := by
  constructor
  · refine fun hall => ⟨hall 0 (Or.inl rfl), fun j hj => ?_⟩
    refine (stepReads_succ j).mp (hall (j + 1) (Or.inr ?_))
    rw [Nat.succ_mul]
    rcases hj with rfl | hj
    · omega
    · omega
  · rintro ⟨hzero, hall⟩ j hj
    cases j with
    | zero => exact hzero
    | succ j =>
      refine (stepReads_succ j).mpr (hall j (Or.inr ?_))
      rw [Nat.succ_mul] at hj
      omega

/-- A read succeeds exactly if all its steps do. -/
lemma readFromLoop_nonneg_iff (calls : ℕ) : ∀ offset total : ℤ, i32 total = total →
    u32 total < calls → i32 offset = offset →
      (0 ≤ (k.readFromLoop v disk cluster calls offset total).1 ↔
        k.Delivers v disk cluster offset (k.bytesRead v total)) := by
  induction calls with
  | zero => exact fun offset total _ hlt => absurd hlt (Nat.not_lt_zero _)
  | succ calls ih =>
    intro offset total htotal hlt hoffset
    have hpos : 0 < v.clusterBytes := v.clusterBytes_pos
    have hcases := k.totalToRead_cases (v := v) htotal
    have hmin : min (k.bytesRead v total) v.clusterBytes = (k.totalToRead v total).toNat := by
      rcases hcases with ⟨hmore, heq, hword, -⟩ | ⟨hlast, hle, -⟩
      · rw [bytesRead, if_pos hmore, heq, Int.toNat_natCast, min_eq_right hword.le]
      · rw [bytesRead, if_neg hlast, min_eq_left hle]
    have hfirst : k.StepReads v disk cluster offset (k.bytesRead v total) 0 ↔
        0 ≤ k.getClusterForOffset v disk cluster offset.toNat ∧
          (diskstreamerRead disk (i32 (k.clusterPos v (k.getClusterForOffset v disk cluster
            offset.toNat) + k.offsetFromCluster v offset))
            (k.totalToRead v total).toNat).1 = 0 := by
      rw [StepReads, Nat.cast_zero, Int.zero_mul, Int.add_zero, hoffset, Nat.zero_mul, Nat.sub_zero,
        hmin]
    have hzero : k.Delivers v disk cluster offset (k.bytesRead v total) →
        k.StepReads v disk cluster offset (k.bytesRead v total) 0 := fun hall => hall 0 (Or.inl rfl)
    rw [readFromLoop]
    simp only
    generalize k.getClusterForOffset v disk cluster offset.toNat = c at hfirst ⊢
    by_cases hneg : c < 0
    · rw [if_pos hneg]
      refine iff_of_false (not_le.mpr hneg) fun hall => ?_
      exact absurd (hfirst.mp (hzero hall)).1 (not_le.mpr hneg)
    rw [if_neg hneg]
    have hcode := diskstreamerRead_code disk
      (i32 (k.clusterPos v c + k.offsetFromCluster v offset)) (k.totalToRead v total).toNat
    generalize diskstreamerRead disk _ _ = read at hfirst hcode ⊢
    by_cases hread : read.1 ≠ 0
    · rw [if_pos hread]
      rw [hcode.resolve_left hread]
      refine iff_of_false (by decide) fun hall => ?_
      exact hread (hfirst.mp (hzero hall)).2
    rw [if_neg hread, not_not.mp hread]
    have hstep : k.StepReads v disk cluster offset (k.bytesRead v total) 0 :=
      hfirst.mpr ⟨not_lt.mp hneg, not_not.mp hread⟩
    rcases hcases with ⟨hmore, heq, hword, hleft⟩ | ⟨hlast, hle, -⟩
    · have hsmall : u32 total - v.clusterBytes < 2 ^ 31 := by
        simp only [i32, Int.bmod_def] at hleft
        omega
      have hbytes : k.bytesRead v total = u32 total := if_pos hmore
      rw [if_pos hmore, hleft, heq]
      simp only
      rw [ih _ _ (by rw [← hleft, i32_i32]) (by rw [u32_of_lt (by omega)]; omega) (i32_i32 _),
        bytesRead_natCast hsmall]
      rw [hbytes] at hstep ⊢
      rw [delivers_of_lt hword, and_iff_right hstep]
    · have hbytes : k.bytesRead v total = (k.totalToRead v total).toNat := if_neg hlast
      rw [if_neg hlast]
      rw [hbytes] at hstep ⊢
      exact iff_of_true le_rfl ((delivers_le hle).mpr hstep)

end FatKind

/-- The driver can read `size` bytes from the position of the file on. -/
def FatMount.Delivers (mt : FatMount) (f : FatOpenFile) (size : ℕ) : Prop :=
  mt.kind.Delivers mt.volume mt.disk f.item.firstClusterInt (i32 f.pos)
    (mt.kind.bytesRead mt.volume (i32 size))

variable {mt : FatMount} {f : FatOpenFile} {size : ℕ}

lemma FatMount.fatRead_nonneg_iff : 0 ≤ (mt.fatRead f size).1 ↔ mt.Delivers f size := by
  have hread : (mt.fatRead f size).1 = (mt.kind.readFrom mt.volume mt.disk
      f.item.firstClusterInt (i32 f.pos) (i32 size)).1 := fst_ite_neg _ _ _
  rw [hread, FatMount.Delivers, FatKind.readFrom]
  exact FatKind.readFromLoop_nonneg_iff _ _ _ (i32_i32 _) (Nat.lt_succ_self _) (i32_i32 _)

lemma file_ite_neg {α β : Type} (r : ℤ × α) (f g : β) :
    (if r.1 < 0 then (r.1, r.2, f) else (r.1, r.2, g)).2.2 = if 0 ≤ r.1 then g else f := by
  split_ifs with h h'
  · exact absurd h' (not_le.mpr h)
  · rfl
  · rfl
  · exact absurd (not_lt.mp h) ‹_›

/-- The position moves on exactly if the read succeeds. -/
lemma FatMount.fatRead_file_eq : (mt.fatRead f size).2.2 =
    if 0 ≤ (mt.fatRead f size).1 then { f with pos := (f.pos + size) % 2 ^ 32 } else f := by
  have hread : (mt.fatRead f size).1 = (mt.kind.readFrom mt.volume mt.disk
      f.item.firstClusterInt (i32 f.pos) (i32 size)).1 := fst_ite_neg _ _ _
  rw [hread]
  exact file_ite_neg _ _ _

/-! ## Runs -/

/-- An open file, and the last read of it: the position before, the size and the result. -/
structure SeekRun where
  file : FatOpenFile
  lastRead : Option (ℕ × ℕ × ℤ)

/-- A call on the descriptor. -/
inductive SeekOp
  | seek (offset mode : UInt32)
  | read (size : UInt32)

/-- A run after a read of the given size with this result. -/
def SeekRun.afterRead (r : SeekRun) (size : ℕ) (read : ℤ × List UInt8 × FatOpenFile) : SeekRun :=
  ⟨read.2.2, some (r.file.pos, size, read.1)⟩

def seekStep (mt : FatMount) (r : SeekRun) : SeekOp → Option SeekRun
  | .seek offset mode => some ⟨(fatSeek r.file offset.toNat mode.toNat).2, r.lastRead⟩
  | .read size => some (r.afterRead size.toNat (mt.fatRead r.file size.toNat))

/-- The position is inside the file, and a read that succeeded has been inside it. -/
structure InsideFile (r : SeekRun) : Prop where
  pos_le : r.file.pos ≤ r.file.item.filesize
  read_le : ∀ pos size res, r.lastRead = some (pos, size, res) → 0 ≤ res →
    pos + size ≤ r.file.item.filesize

/-- A call that a file of `filesize` bytes bears at the position: a relative seek leads to a
position inside the file, maybe around the end of the 32-bit numbers, and a read ends inside
the file or is refused. -/
def SeekFits (mt : FatMount) (r : SeekRun) : SeekOp → Prop
  | .seek offset mode => offset.toNat < r.file.item.filesize →
    (mode.toNat = 1 → r.file.pos + offset.toNat ≤ r.file.item.filesize ∨
      2 ^ 32 ≤ r.file.pos + offset.toNat) ∧
    (mode.toNat = 3 → offset.toNat ≤ r.file.pos ∨
      r.file.pos + 2 ^ 32 ≤ r.file.item.filesize + offset.toNat)
  | .read size => r.file.pos + size.toNat ≤ r.file.item.filesize ∨
    ¬ mt.Delivers r.file size.toNat

variable {r r' : SeekRun} {op : SeekOp}

lemma fatSeek_item (f : FatOpenFile) (offset mode : ℕ) :
    (fatSeek f offset mode).2.item = f.item := by
  unfold fatSeek
  split_ifs
  · rfl
  · split
    · rfl
    · rfl
    · rfl
    · rfl
    · rfl

lemma seekStep_read (size : UInt32) : seekStep mt r (.read size) =
    some (r.afterRead size.toNat (mt.fatRead r.file size.toNat)) := rfl

lemma SeekRun.afterRead_file (size : ℕ) (read : ℤ × List UInt8 × FatOpenFile) :
    (r.afterRead size read).file = read.2.2 := rfl

/-- No call changes the item of the file. -/
lemma seekStep_item (h : seekStep mt r op = some r') : r'.file.item = r.file.item := by
  cases op with
  | seek offset mode =>
    obtain rfl := Option.some.inj h
    exact fatSeek_item _ _ _
  | read size =>
    rw [seekStep_read] at h
    obtain rfl := Option.some.inj h
    rw [SeekRun.afterRead_file, mt.fatRead_file_eq]
    split_ifs
    · rfl
    · rfl

/-- Where a seek leads to. -/
lemma fatSeek_pos (f : FatOpenFile) (offset mode : ℕ) : (fatSeek f offset mode).2.pos =
    if f.item.filesize ≤ offset then f.pos
    else if mode = 0 then offset
    else if mode = 1 then (f.pos + offset) % 2 ^ 32
    else if mode = 2 then f.item.filesize - offset
    else if mode = 3 then u32 (f.pos - offset)
    else f.pos := by
  unfold fatSeek
  by_cases hle : f.item.filesize ≤ offset
  · rw [if_pos hle, if_pos hle]
  · rw [if_neg hle, if_neg hle]
    match mode with
    | 0 => rfl
    | 1 => rfl
    | 2 => rfl
    | 3 => rfl
    | mode + 4 => rfl

lemma FatDirectoryItem.filesize_lt (item : FatDirectoryItem) : item.filesize < 2 ^ 32 :=
  u32le_lt _ _

/-- A seek from a position inside the file. -/
lemma fatSeek_pos_le_iff {offset : ℕ} {mode : ℕ} (h : f.pos ≤ f.item.filesize) :
    (fatSeek f offset mode).2.pos ≤ f.item.filesize ↔ (offset < f.item.filesize →
      (mode = 1 → f.pos + offset ≤ f.item.filesize ∨ 2 ^ 32 ≤ f.pos + offset) ∧
      (mode = 3 → offset ≤ f.pos ∨ f.pos + 2 ^ 32 ≤ f.item.filesize + offset)) := by
  have hlt := f.item.filesize_lt
  rw [fatSeek_pos]
  generalize f.item.filesize = filesize at h hlt ⊢
  by_cases hle : filesize ≤ offset
  · rw [if_pos hle]
    exact iff_of_true h fun hin => absurd hin (not_lt.mpr hle)
  rw [if_neg hle]
  simp only [not_le.mp hle, true_imp_iff]
  by_cases h0 : mode = 0
  · rw [if_pos h0]
    omega
  by_cases h1 : mode = 1
  · rw [if_neg h0, if_pos h1]
    omega
  by_cases h2 : mode = 2
  · rw [if_neg h0, if_neg h1, if_pos h2]
    omega
  by_cases h3 : mode = 3
  · rw [if_neg h0, if_neg h1, if_neg h2, if_pos h3, u32]
    omega
  · rw [if_neg h0, if_neg h1, if_neg h2, if_neg h3]
    omega

/-- A read from a position inside the file. -/
lemma InsideFile.read_iff (h : InsideFile r) {size : ℕ} :
    InsideFile (r.afterRead size (mt.fatRead r.file size)) ↔
      r.file.pos + size ≤ r.file.item.filesize ∨ ¬ mt.Delivers r.file size := by
  have hlt := r.file.item.filesize_lt
  have hfile := @FatMount.fatRead_file_eq mt r.file size
  have hres := @FatMount.fatRead_nonneg_iff mt r.file size
  have hlast : ∀ read : ℤ × List UInt8 × FatOpenFile,
      (r.afterRead size read).lastRead = some (r.file.pos, size, read.1) := fun _ => rfl
  generalize mt.fatRead r.file size = read at hfile hres ⊢
  rw [← hres]
  by_cases hsucc : 0 ≤ read.1
  · rw [if_pos hsucc] at hfile
    constructor
    · intro hin
      have hle := hin.read_le _ _ _ (hlast read) hsucc
      rw [SeekRun.afterRead_file, hfile] at hle
      exact Or.inl hle
    · intro hle
      have hle := hle.resolve_right (not_not.mpr hsucc)
      refine ⟨?_, fun pos n res heq _ => ?_⟩
      · rw [SeekRun.afterRead_file, hfile]
        exact (Nat.mod_le _ _).trans hle
      · rw [hlast, Option.some_inj] at heq
        cases heq
        rw [SeekRun.afterRead_file, hfile]
        exact hle
  · rw [if_neg hsucc] at hfile
    refine iff_of_true ⟨?_, fun pos n res heq hnonneg => ?_⟩ (Or.inr hsucc)
    · rw [SeekRun.afterRead_file, hfile]
      exact h.pos_le
    · rw [hlast, Option.some_inj] at heq
      cases heq
      exact absurd hnonneg hsucc

/-- One call. -/
lemma InsideFile.step_iff (h : InsideFile r) (hstep : seekStep mt r op = some r') :
    InsideFile r' ↔ SeekFits mt r op := by
  have hitem := seekStep_item hstep
  cases op with
  | read size =>
    rw [seekStep_read] at hstep
    obtain rfl := Option.some.inj hstep
    exact h.read_iff
  | seek offset mode =>
    obtain rfl := Option.some.inj hstep
    rw [SeekFits, ← fatSeek_pos_le_iff h.pos_le]
    constructor
    · intro hin
      rw [← hitem]
      exact hin.pos_le
    · intro hle
      refine ⟨?_, fun pos size res heq hnonneg => ?_⟩
      · rw [hitem]
        exact hle
      · rw [hitem]
        exact h.read_le pos size res heq hnonneg

lemma seekStep_total (r : SeekRun) (op : SeekOp) : ∃ r', seekStep mt r op = some r' := by
  cases op with
  | seek offset mode => exact ⟨_, rfl⟩
  | read size => exact ⟨_, seekStep_read size⟩

/-- The position and all reads stay inside the file exactly if every call of the run fits. -/
theorem fat_position_iff {ops : List SeekOp} (hpos : f.pos ≤ f.item.filesize) :
    Always (seekStep mt) InsideFile ⟨f, none⟩ ops ↔
      Guarded (seekStep mt) (SeekFits mt) ⟨f, none⟩ ops := by
  refine always_iff_guarded (I := InsideFile) (L := fun _ _ => True) (fun _ h => h)
    (fun r op h _ hfits => ?_) (fun r op r' h _ hfits hstep => ?_) ?_ guarded_true
  · obtain ⟨r', hstep⟩ := @seekStep_total mt r op
    exact ⟨r', hstep, (h.step_iff hstep).mpr hfits⟩
  · exact fun hin => hfits ((h.step_iff hstep).mp hin)
  · exact ⟨hpos, fun _ _ _ hnone => by cases hnone⟩

/-- An open file of ten bytes. -/
def tenByteFile : FatOpenFile where
  ptr := 0
  path := []
  itemPtr := 0
  clonePtr := 0
  item := ⟨fun i => if i = 28 then 10 else 0⟩
  pos := 0
  mode := 0

/-- A seek to the last byte, and one back by three bytes. -/
theorem fat_position_iff_back :
    Always (seekStep (mountedVolume 1)) InsideFile ⟨tenByteFile, none⟩ [.seek 9 0, .seek 3 3] ↔
      Guarded (seekStep (mountedVolume 1)) (SeekFits (mountedVolume 1)) ⟨tenByteFile, none⟩
        [.seek 9 0, .seek 3 3] :=
  fat_position_iff (by decide)

/-- A relative seek from the byte 8 of the file, by eight bytes, is not refused. -/
theorem not_fat_position_relative : ¬ Always (seekStep (mountedVolume 1)) InsideFile
    ⟨tenByteFile, none⟩ [.seek 8 0, .seek 8 1] := by
  intro h
  obtain ⟨-, r₁, h₁, -, r₂, h₂, hin⟩ := h
  obtain rfl := Option.some.inj h₁
  obtain rfl := Option.some.inj h₂
  exact absurd hin.pos_le (by decide)

end SerpaeOS
