import SerpaeOS.Fs.FileHolds
import SerpaeOS.Fs.ReadCodes

/-!
# Files that are read to their end

On a volume that is not written to, a file that a path leads to is opened, read and closed if
there is room for it, and behind the calls the heap holds what it held before.
-/

namespace SerpaeOS

open BlockTable Bytes Word Prog

variable {k k' : Kernel} {m : KMemory} {L : List Extent} {n b b' size : ℕ} {fd : ℤ}
  {filename : List UInt8} {now : ℕ} {mt : FatMount} {d : FatDirectory}
  {names : List (List UInt8)} {item item' : FatDirectoryItem} {content : List UInt8}

/-! ## Where a path leads -/

lemma FileAt.unique (h : FileAt mt d names item b) (h' : FileAt mt d names item' b') :
    item = item' ∧ b = b' := by
  induction h generalizing b' with
  | file hfind =>
    cases h' with
    | file hfind' => exact ⟨Option.some.inj (hfind.symm.trans hfind'), rfl⟩
    | sub _ _ _ hrest => exact absurd rfl hrest.ne_nil
  | sub hfind _ hload hrest ih =>
    cases h' with
    | file => exact absurd rfl hrest.ne_nil
    | sub hfind' _ hload' hrest' =>
      cases hfind.symm.trans hfind'
      cases hload.symm.trans hload'
      obtain ⟨hitem, hb⟩ := ih hrest'
      exact ⟨hitem, by rw [hb]⟩

/-- The number of items of a directory that is loaded is the one counted before. -/
lemma FatKind.total_of_load {kind : FatKind} {v : FatVolume} {disk : Disk} {total : ℤ}
    (hsub : item.attributeBits &&& fatFileSubdirectory ≠ 0)
    (hload : kind.loadFatDirectory v disk item = some (.ok d))
    (htotal : getTotalItemsForDirectory v disk (kind.clusterToSector v item.firstClusterInt) =
      some total) : total = d.total := by
  rw [loadFatDirectory, if_neg hsub, loadDirectory, htotal] at hload
  by_cases hread : (kind.readInternal v disk item.firstClusterInt 0 (total.toNat * itemSize)).1 ≠ 0
  · cases hload.symm.trans (if_pos hread)
  · cases hload.symm.trans (if_neg hread)
    rfl

/-- A search for a file takes the blocks that are counted for it. -/
lemma FileAt.searchFits (h : FileAt mt d names item b) : mt.SearchFits names d b := by
  induction h with
  | file hfind hfile =>
    intro item hitem
    cases hfind.symm.trans hitem
    exact ⟨le_rfl, fun hsub => absurd hsub hfile⟩
  | @sub d d' name rest sub item b hfind hsub hload hrest ih =>
    intro item hitem
    cases hfind.symm.trans hitem
    refine ⟨by omega, fun _ => ⟨fun total htotal => ?_, fun d'' hload' => ?_⟩⟩
    · rw [FatKind.total_of_load hsub hload htotal]
      refine ⟨hrest.total_pos, ?_⟩
      rw [← FatDirectory.blocks]
      omega
    · cases hload.symm.trans hload'
      rwa [Nat.add_sub_cancel]

/-- On a device that writes nothing the date of access is not written. -/
lemma FatMount.Dated.eq_of_protected {disk : Disk} (h : mt.Dated names disk)
    (hprotected : ∀ lba, mt.disk.writeFault lba = true) : disk = mt.disk := by
  obtain rfl | ⟨item, b, now, written, -, hwrite, rfl⟩ := h
  · rfl
  rw [FatKind.writeDirectoryEntry] at hwrite
  obtain ⟨location, -, rfl⟩ := Option.map_eq_some_iff.mp hwrite
  cases location with
  | none => rfl
  | some locationBytes => exact diskstreamerWrite_of_protected hprotected _ _

/-! ## Inside one cluster -/

/-- A directory inside its first cluster is loaded. -/
lemma FatKind.loadFatDirectory_within {kind : FatKind} {v : FatVolume} {disk : Disk}
    {cluster sector : ℕ} {e : ℕ → FatDirectoryItem} (h : ∀ lba, disk.readFault lba = false)
    (hsub : item.attributeBits &&& fatFileSubdirectory ≠ 0)
    (hcluster : item.firstClusterInt = cluster) (hsector : kind.clusterToSector v cluster = sector)
    (hlt : sector * v.sectorSize < 2 ^ 31) (hat : EntriesAt disk (sector * v.sectorSize) e n)
    (hterm : Terminated e n) (hle : liveCount e n * itemSize ≤ v.clusterBytes) :
    kind.loadFatDirectory v disk item = some (.ok
      ⟨itemsOf (slice disk.byte (sector * v.sectorSize) (liveCount e n * itemSize)),
        liveCount e n, sector⟩) := by
  rw [loadFatDirectory, if_neg hsub, hcluster]
  exact loadDirectory_within h hsector hlt hat hterm hle

/-! ## Opening -/

/-- The file with the item is open at its beginning, and `n` blocks are left. -/
structure OpenProgram (k : Kernel) (fd : ℤ) (mt : FatMount) (item : FatDirectoryItem) (n : ℕ) :
    Prop where
  holds : HoldsFile k fd item.filesize [] n
  desc : ∃ desc, fileGetDescriptor k fd = some desc ∧ k.disks desc.disk = some (some mt) ∧
    desc.privateData.pos = 0 ∧ desc.privateData.item.firstClusterInt = item.firstClusterInt

/-- A kernel before a file below a subdirectory is opened, on a device that writes nothing, with
a free descriptor before the last one and room for the file and the directories. -/
structure ProgramReady (k : Kernel) (filename : List UInt8) (mt : FatMount)
    (item : FatDirectoryItem) (b n : ℕ) : Prop where
  ready : ∃ L, FopenReady k filename L n
  stops : StopsBefore k.memory.heap.table.entries
  accepted : PathAccepted filename
  disk : diskGet k (driveOf filename) = some (some mt)
  writeFault : ∀ lba, mt.disk.writeFault lba = true
  file : FileAt mt mt.root (namesOf filename) item b
  below : 2 ≤ (namesOf filename).length
  slot : ∃ i, i + 1 < maxFileDescriptors ∧ k.fileDescriptors i = none
  room : fopenBlocks filename b ≤ n

lemma ProgramReady.holds (h : ProgramReady k filename mt item b n) : Holds k.memory [] n := by
  obtain ⟨L, hready⟩ := h.ready
  exact hready.memory.holds hready.roomy h.stops

lemma FileAt.le_blocks (h : FileAt mt d names item b) : 2 ≤ b := by
  cases h with
  | file => exact le_rfl
  | sub => omega

lemma Holds.inside (h : Holds m L n) {a : Extent} (ha : a ∈ L) :
    a.start + a.len ≤ kernelBlocks := by
  obtain ⟨K, hlists, -⟩ := h.lists
  rw [← h.total_eq]
  exact hlists.packed.inside a (List.mem_append_left K ha)

/-- Taking a block leaves the file where it is. -/
lemma ProgramReady.allocate (h : ProgramReady k filename mt item b n) (hpos : 0 < size)
    (hroom : blocksFor size + fopenBlocks filename b ≤ n) :
    Runs (onMemory (SerpaeOS.allocate size)) k fun p k' => (∃ c, p = blockAddress c ∧
      c + blocksFor size ≤ kernelBlocks) ∧
        ProgramReady k' filename mt item b (n - blocksFor size) := by
  obtain ⟨L, hready⟩ := h.ready
  obtain ⟨p, m, hrun, -, hmem, hroomy⟩ :=
    hready.memory.allocate hready.roomy hpos (by omega)
  obtain ⟨hblock, hheld⟩ := (h.holds.allocate size hpos (by omega)).of_eq hrun
  have hrun' : onMemory (SerpaeOS.allocate size) k = some (p, { k with memory := m }) := by
    rw [onMemory, hrun, Option.map_some]
  refine ⟨p, _, hrun', ?_⟩
  have hle := h.file.le_blocks
  rw [fopenBlocks] at hroom
  refine ⟨⟨_, hblock, hheld.inside List.mem_cons_self⟩,
    ⟨_, hmem, hready.no_nul, ?_, hroomy, ?_, ?_⟩, hheld.stops, h.accepted, h.disk, h.writeFault,
    h.file, h.below, h.slot, ?_⟩
  · intro mt' hmt'
    obtain ⟨holder, blocks, L', hroot, hperm⟩ := hready.mounted mt' hmt'
    refine ⟨holder, blocks, extentAt p (blocksFor size) :: L', hroot, ?_⟩
    exact (hperm.cons _).trans ((List.Perm.swap _ _ _).trans ((List.Perm.swap _ _ _).cons _))
  · omega
  · intro mt' item' b' hmt' hfile'
    cases h.disk.symm.trans hmt'
    obtain ⟨-, rfl⟩ := h.file.unique hfile'
    omega
  · rw [fopenBlocks]
    omega

/-- The file is opened for reading. -/
lemma ProgramReady.fopen (h : ProgramReady k filename mt item b n) :
    Runs (SerpaeOS.fopen filename modeR now) k fun fd k' =>
      OpenProgram k' fd mt item (n - fopenBlocks filename b) := by
  obtain ⟨L, hready⟩ := h.ready
  obtain ⟨i, hi, hfree⟩ := h.slot
  have hlate : ¬ EarlyFailure k filename modeR := by
    rintro (hacc | hnil | hnone | hmode)
    · exact hacc h.accepted
    · have hbelow := h.below
      rw [hnil] at hbelow
      exact absurd hbelow (by decide)
    · exact hnone _ h.disk
    · exact absurd hmode (by decide)
  have hperm : Permitted (fileGetModeByString modeR) item := by
    rintro ⟨hwrite, -⟩
    exact hwrite (by decide)
  have hopens : Runs (SerpaeOS.fopen filename modeR now) k fun res _ => 0 ≤ res :=
    hready.fopen_found hlate h.disk h.file hperm (Nat.lt_of_succ_lt hi) hfree
  obtain ⟨fd, k', hopen, hpos⟩ := hopens
  have hfits : ∀ mt', diskGet k (driveOf filename) = some (some mt') →
      mt'.OpenFits (namesOf filename) b := by
    intro mt' hmt'
    cases h.disk.symm.trans hmt'
    exact ⟨h.file.searchFits, fun _ _ _ => h.below⟩
  rcases h.holds.fopen hfits h.room _ _ hopen with ⟨hneg, -⟩ |
    ⟨size, hheld, mt', item', c, disk, hdisk', hfile', hsize, hdated, hdisks⟩
  · omega
  cases h.disk.symm.trans hdisk'
  obtain ⟨rfl, rfl⟩ := h.file.unique hfile'
  rw [hdated.eq_of_protected h.writeFault] at hdisks
  rcases fopen_cases hopen with ⟨hneg, -⟩ | ⟨j, desc, rfl, hent, hfrom⟩
  · omega
  obtain ⟨mt', item', c, now', disk', hdisk', hfile', hitem, hstart, hdrive, -⟩ := hfrom
  cases h.disk.symm.trans hdisk'
  obtain ⟨rfl, rfl⟩ := h.file.unique hfile'
  have hlt : j + 1 < maxFileDescriptors := by
    by_contra hlast
    exact hent.first i (by omega) hfree
  refine ⟨_, k', hopen, by rwa [hsize], desc, ?_, ?_, hstart (by decide), ?_⟩
  · rw [fileGetDescriptor_succ hlt, hent.table_eq, Function.update_self]
  · rw [hdisks, hdrive, Function.update_self]
  · rw [hitem, FatDirectoryItem.firstClusterInt_accessed]

/-! ## Reading and closing -/

lemma OpenProgram.fstat (h : OpenProgram k fd mt item n) :
    Runs (SerpaeOS.fstat fd) k fun r k' => k' = k ∧
      ∃ st : FileStat, r.2 = some st ∧ st.filesize = item.filesize := by
  obtain ⟨desc, hget, -⟩ := h.desc
  have hrun : SerpaeOS.fstat fd k = some ((0, some (fatStat desc.privateData)), k) := by
    rw [SerpaeOS.fstat, getKernel_bind, hget]
    rfl
  exact ⟨_, _, hrun, rfl, _, rfl, (h.holds.fstat _ _ hrun).2 _ rfl⟩

/-- A block that is taken while the file is open. -/
lemma OpenProgram.allocate (h : OpenProgram k fd mt item n) (hpos : 0 < size)
    (hroom : blocksFor size ≤ n) :
    Runs (onMemory (SerpaeOS.allocate size)) k fun p k' =>
      (∃ c, p = blockAddress c ∧ c + blocksFor size ≤ kernelBlocks) ∧
        OpenProgram k' fd mt item (n - blocksFor size) := by
  obtain ⟨desc, hown, hheld, hsize, honly⟩ := h.holds.file
  refine (runs_onMemory (hheld.allocate size hpos hroom)).mono fun p k' hp => ?_
  obtain ⟨m, ⟨hblock, hm⟩, rfl⟩ := hp
  refine ⟨⟨_, hblock, hm.inside List.mem_cons_self⟩, ⟨h.holds.pos, desc, hown, hm.tail, hsize,
    honly⟩, h.desc⟩

/-- The whole file is read. -/
lemma OpenProgram.fread (h : OpenProgram k fd mt item n) (hsize : item.filesize ≠ 0)
    (hread : mt.kind.readFrom mt.volume mt.disk item.firstClusterInt 0
      (i32 item.filesize) = (0, content)) :
    Runs (SerpaeOS.fread fd item.filesize) k fun r k' => r = (0, content) ∧
      HoldsFile k' fd item.filesize [] n ∧ ∃ desc, fileGetDescriptor k' fd = some desc := by
  obtain ⟨desc, hget, hdisk, hpos, hcluster⟩ := h.desc
  have hfd := h.holds.pos
  have hdriver : mt.fatRead desc.privateData item.filesize =
      (0, content, { desc.privateData with
        pos := (desc.privateData.pos + item.filesize) % 2 ^ 32 }) := by
    rw [FatMount.fatRead, hcluster, hpos]
    simp only [show i32 ((0 : ℕ) : ℤ) = 0 from rfl, hread, lt_irrefl, if_false]
  have hrun : SerpaeOS.fread fd item.filesize k = some ((0, content), k.setPrivate fd desc
      { desc.privateData with pos := (desc.privateData.pos + item.filesize) % 2 ^ 32 }) := by
    rw [SerpaeOS.fread, if_neg (by omega), getKernel_bind, hget]
    simp only [hdisk, hdriver]
    rfl
  refine ⟨_, _, hrun, rfl, (h.holds.fread _ _ _ hrun).1, ?_⟩
  rw [fileGetDescriptor] at hget ⊢
  split_ifs at hget ⊢
  exact ⟨_, Function.update_self _ _ _⟩

lemma HoldsFile.runs_fclose (h : HoldsFile k fd size [] n)
    (hget : ∃ desc, fileGetDescriptor k fd = some desc) (hn : 1 ≤ n) :
    Runs (SerpaeOS.fclose fd) k fun _ k' => Holds k'.memory [] (n - 1) := by
  obtain ⟨desc, hdesc⟩ := hget
  obtain ⟨desc', -, hheld, -, -⟩ := h.file
  obtain ⟨p, m', halloc, hp, -⟩ := hheld.allocate pathRootSize (by decide) hn
  obtain ⟨k', hclose, -⟩ := fclose_open hdesc (by cases halloc; exact hp.ne_zero)
  exact ⟨0, k', hclose, (h.fclose hn _ _ hclose).1⟩

end SerpaeOS
