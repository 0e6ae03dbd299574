import SerpaeOS.Fs.Fat.WriteSpec

/-!
# What a write leaves alone

`fat16_write` may change the clusters of the file, their table entries and the directory
entry of the file.  The bytes for the last cluster are stored from the position on, as many
as lie before the position in the cluster, and so may run over the end of the cluster.
-/

namespace SerpaeOS

open Bytes Word

namespace FatKind

variable {k : FatKind} {v : FatVolume} {disk : Disk} {chain : List ℕ}

/-- The chain that starts with a cluster is determined by the table. -/
lemma IsChain.getD_eq {chain' : List ℕ} (h : k.IsChain v disk chain)
    (h' : k.IsChain v disk chain') (hne : chain' ≠ [])
    (hfirst : chain.getD 0 0 = chain'.getD 0 0) :
    ∀ i, i < chain.length → i < chain'.length ∧ chain.getD i 0 = chain'.getD i 0 := by
  intro i
  induction i with
  | zero => exact fun _ => ⟨List.length_pos_iff.mpr hne, hfirst⟩
  | succ i ih =>
    intro hi
    obtain ⟨hi', heq⟩ := ih (by omega)
    have hnext := h.next i hi
    have hmax := k.maxCluster_lt
    have hle := (h.onVolume_getD hi).le_max
    -- the other chain cannot end here, since its entry is a cluster
    have hlt : i + 1 < chain'.length := by
      by_contra hge
      have hlast := h'.last i (by omega)
      rw [← heq, hnext] at hlast
      omega
    exact ⟨hlt, by rw [← hnext, heq, h'.next i hlt]⟩

lemma IsChain.unique {chain' : List ℕ} (h : k.IsChain v disk chain)
    (h' : k.IsChain v disk chain') {c : ℕ} (hfirst : chain.head? = some c)
    (hfirst' : chain'.head? = some c) : chain = chain' := by
  have hget : ∀ l : List ℕ, l.head? = some c → l ≠ [] ∧ l.getD 0 0 = c := by
    intro l hl
    cases l with
    | nil => simp at hl
    | cons x l => exact ⟨by simp, by simpa using hl⟩
  obtain ⟨hne, h0⟩ := hget chain hfirst
  obtain ⟨hne', h0'⟩ := hget chain' hfirst'
  have hto := h.getD_eq h' hne' (h0.trans h0'.symm)
  have hfrom := h'.getD_eq h hne (h0'.trans h0.symm)
  refine List.ext_getElem ?_ fun i hi hi' => ?_
  · by_contra hlen
    rcases Nat.lt_or_gt_of_ne hlen with hlt | hlt
    · exact absurd (hfrom chain.length hlt).1 (by omega)
    · exact absurd (hto chain'.length hlt).1 (by omega)
  · have := (hto i hi).2
    rwa [List.getD_eq_getElem _ _ hi, List.getD_eq_getElem _ _ hi'] at this

/-- The byte belongs to the clusters of a chain, to their table entries or to the directory
entry. -/
def Own (k : FatKind) (v : FatVolume) (chain : List ℕ) (slot a : ℕ) : Prop :=
  k.InClusters v chain a ∨ k.InEntries v chain a ∨ (slot ≤ a ∧ a < slot + itemSize)

/-- The write changed nothing but bytes of the file, with clusters that were its own or were
free before. -/
def KeepsOthers (k : FatKind) (v : FatVolume) (disk : Disk) (desc : FatFileDescriptor)
    (chain : List ℕ) (slot : ℕ) (r : WriteResult) : Prop :=
  ∃ chain', k.IsChain v r.disk chain' ∧ chain'.head? = some desc.item.firstCluster ∧
    (∀ c ∈ chain', c ∈ chain ∨ k.fatEntry v disk c = 0) ∧
    ∀ a, ¬ k.Own v chain' slot a → r.disk.byte a = disk.byte a

/-- The data and the directory entry are stored behind the table. -/
lemma writtenBytes_of_lt {b buf : ℕ → UInt8} {item : FatDirectoryItem} {slot last s n a : ℕ}
    {new : List ℕ} (hslot : v.tableEnd ≤ slot) (ha : a < v.tableEnd) :
    k.writtenBytes v b item slot last new buf s n a = b a := by
  have hstart := dataStart_le (k := k) (v := v) last
  have htable := tableEnd_le (k := k) (v := v)
  rw [writtenBytes, storeClusters_of_not_inClusters, store_of_lt (by omega),
    store_of_lt (by omega)]
  intro hin
  have := hin.tableEnd_le
  omega

end FatKind

open FatKind

variable {v : FatVolume} {disk : Disk} {chain : List ℕ} {priv : FatPrivate}
  {desc : FatFileDescriptor} {slot : ℕ}

/-- The chain of the file after a write that had enough clusters. -/
lemma isChain_written (h : fat16.OpenFile v priv disk desc chain slot) {n : ℕ}
    (hdata : ∀ c ∈ newClusters v disk desc n, fat16.DataCluster v c) {grown : Disk}
    (hgrown : fat16.Grown v disk chain grown (newClusters v disk desc n)) {buf : ℕ → UInt8}
    {item : FatDirectoryItem} {s : ℕ} :
    fat16.IsChain v { grown with
      byte := fat16.writtenBytes v grown.byte item slot (lastCluster chain)
        (newClusters v disk desc n) buf s n } (chain ++ newClusters v disk desc n) := by
  refine hgrown.isChain.congr_table ?_ fun a ha => writtenBytes_of_lt h.slot_table ha
  intro c hc
  rcases List.mem_append.mp hc with hc | hc
  · exact h.data c hc
  · exact hdata c hc

/-- A byte behind the last cluster that the write reaches is overwritten. -/
lemma writtenBytes_overflow {b buf : ℕ → UInt8} {item : FatDirectoryItem}
    {last s n a : ℕ} {new : List ℕ} (hs : s < v.clusterBytes)
    (ha : fat16.dataPos v last + v.clusterBytes ≤ a) (ha' : a < fat16.dataPos v last + 2 * s)
    (hnew : ¬ fat16.InClusters v new a) :
    fat16.writtenBytes v b item slot last new buf s n a =
      buf (a - (fat16.dataPos v last + s)) := by
  obtain ⟨i, rfl⟩ : ∃ i, a = fat16.dataPos v last + s + i :=
    ⟨a - (fat16.dataPos v last + s), by omega⟩
  rw [writtenBytes, storeClusters_of_not_inClusters hnew,
    store_add (by rw [length_slice]; omega), getD_slice (by omega)]
  congr 1
  omega

/-- When a byte behind the last cluster that the write reaches is not the file's own, a
buffer that differs there changes it. -/
lemma not_keepsOthers (h : fat16.OpenFile v priv disk desc chain slot)
    (hmode : desc.mode &&& fileModeWrite ≠ 0) (hsearch : fat16.SearchBelow v) {n : ℕ}
    (hn : 0 < n) (hn' : n < 2 ^ 31)
    (hdata : ∀ c ∈ newClusters v disk desc n, fat16.DataCluster v c)
    (henough : EnoughClusters v disk desc n) {a : ℕ}
    (ha : fat16.dataPos v (lastCluster chain) + v.clusterBytes ≤ a)
    (ha' : a < fat16.dataPos v (lastCluster chain) + 2 * (desc.pos % v.clusterBytes))
    (hown : ¬ fat16.Own v (chain ++ newClusters v disk desc n) slot a) {buf : ℕ → UInt8}
    (hbuf : ∀ i, buf i ≠ disk.byte a) :
    ∃ r, fat16Write v priv disk desc buf n = some r ∧ r.disk.byte a ≠ disk.byte a ∧
      ¬ fat16.KeepsOthers v disk desc chain slot r := by
  obtain ⟨grown, hgrown, hwrite, -⟩ := fat16Write_eq h hmode hsearch hn hn' hdata
  obtain ⟨res, -, hr⟩ := hwrite henough buf
  have hs : desc.pos % v.clusterBytes < v.clusterBytes := Nat.mod_lt _ v.clusterBytes_pos
  have hnew : ¬ fat16.InClusters v (newClusters v disk desc n) a := by
    rintro ⟨c, hc, hca⟩
    exact hown (Or.inl ⟨c, List.mem_append_right _ hc, hca⟩)
  have hfirst : (chain ++ newClusters v disk desc n).head? = some desc.item.firstCluster := by
    rw [List.head?_append_of_ne_nil _ h.chain_ne_nil, h.file.first]
  refine ⟨_, hr, ?_, ?_⟩
  · simp only [writtenBytes_overflow hs ha ha' hnew]
    exact hbuf _
  · rintro ⟨chain', hchain', hfirst', -, hframe⟩
    obtain rfl := hchain'.unique (isChain_written h hdata hgrown) hfirst' hfirst
    have := hframe a hown
    simp only [writtenBytes_overflow hs ha ha' hnew] at this
    exact hbuf _ this

/-- **The frame of a write.**  For every open file with a chain of data clusters below the
position `2 ^ 31` whose directory entry the driver finds where it is, every position and
every size: `fat16_write` changes, whatever the buffer holds, only bytes of the clusters of
the file, of their table entries and of its directory entry, if and only if it stops before
it stores data (the file may not be written, or there are not enough free clusters) or the
bytes behind the last cluster are the file's own, as far as twice the offset of the
position in its cluster reaches over the end of a cluster. -/
theorem fat16Write_keepsOthers_iff (h : fat16.OpenFile v priv disk desc chain slot)
    (hsearch : fat16.SearchBelow v) {n : ℕ} (hn : 0 < n) (hn' : n < 2 ^ 31)
    (hdata : ∀ c ∈ newClusters v disk desc n, fat16.DataCluster v c) :
    (∀ buf, ∃ r, fat16Write v priv disk desc buf n = some r ∧
        fat16.KeepsOthers v disk desc chain slot r) ↔
      (desc.mode &&& fileModeWrite = 0 ∨ ¬ EnoughClusters v disk desc n ∨
        ∀ a, fat16.dataPos v (lastCluster chain) + v.clusterBytes ≤ a →
          a < fat16.dataPos v (lastCluster chain) + 2 * (desc.pos % v.clusterBytes) →
          fat16.Own v (chain ++ newClusters v disk desc n) slot a) := by
  by_cases hmode : desc.mode &&& fileModeWrite = 0
  · -- the file may not be written
    refine iff_of_true (fun buf => ⟨⟨-erdonly, priv, disk, desc, 0⟩, ?_, ?_⟩) (Or.inl hmode)
    · rw [fat16Write, FatDriver.write, if_neg (by omega), if_pos hmode]
    · exact ⟨chain, h.file.isChain, h.file.first, fun c hc => Or.inl hc, fun a _ => rfl⟩
  obtain ⟨grown, hgrown, hwrite, hfull⟩ := fat16Write_eq h hmode hsearch hn hn' hdata
  have hfirst : (chain ++ newClusters v disk desc n).head? = some desc.item.firstCluster := by
    rw [List.head?_append_of_ne_nil _ h.chain_ne_nil, h.file.first]
  have htaken : ∀ c ∈ chain ++ newClusters v disk desc n,
      c ∈ chain ∨ fat16.fatEntry v disk c = 0 := by
    intro c hc
    rcases List.mem_append.mp hc with hc | hc
    · exact Or.inl hc
    · exact Or.inr (mem_newClusters hc)
  by_cases henough : EnoughClusters v disk desc n
  · constructor
    · intro hkeeps
      refine Or.inr (Or.inr fun a ha ha' => ?_)
      by_contra hown
      have hbuf : ∀ _ : ℕ, disk.byte a + 1 ≠ disk.byte a := by
        intro _ heq
        exact absurd (add_eq_left.mp heq) (by decide)
      obtain ⟨r, hr, hkeep⟩ := hkeeps fun _ => disk.byte a + 1
      obtain ⟨r', hr', -, hnot⟩ := not_keepsOthers h hmode hsearch hn hn' hdata henough ha ha'
        hown hbuf
      obtain rfl := Option.some.inj (hr.symm.trans hr')
      exact hnot hkeep
    · rintro (hc | hc | hown) buf
      · exact absurd hc hmode
      · exact absurd henough hc
      obtain ⟨res, -, hr⟩ := hwrite henough buf
      refine ⟨_, hr, _, isChain_written h hdata hgrown, hfirst, htaken, fun a ha => ?_⟩
      have hs : desc.pos % v.clusterBytes < v.clusterBytes := Nat.mod_lt _ v.clusterBytes_pos
      -- the byte lies in none of the places where something is stored
      have hnew : ¬ fat16.InClusters v (newClusters v disk desc n) a := by
        rintro ⟨c, hc, hca⟩
        exact ha (Or.inl ⟨c, List.mem_append_right _ hc, hca⟩)
      have hlast : a < fat16.dataPos v (lastCluster chain) ∨
          fat16.dataPos v (lastCluster chain) + v.clusterBytes ≤ a := by
        by_contra hin
        exact ha (Or.inl ⟨_, List.mem_append_left _ (lastCluster_mem h.chain_ne_nil),
          by omega, by omega⟩)
      have hrange : a < fat16.dataPos v (lastCluster chain) + desc.pos % v.clusterBytes ∨
          fat16.dataPos v (lastCluster chain) + desc.pos % v.clusterBytes +
            desc.pos % v.clusterBytes ≤ a := by
        by_contra hin
        exact ha (hown a (by omega) (by omega))
      have hslot : a < slot ∨ slot + itemSize ≤ a := by
        by_contra hin
        exact ha (Or.inr (Or.inr (by omega)))
      simp only [writtenBytes]
      rw [storeClusters_of_not_inClusters hnew, store_of_lt (by rw [length_slice]; exact hrange),
        store_of_lt (by rw [length_slice]; exact hslot)]
      exact hgrown.frame a fun hin => ha (Or.inr (Or.inl hin))
  · -- clusters were added as far as there were any
    refine iff_of_true (fun buf => ⟨_, hfull henough buf, ?_⟩) (Or.inr (Or.inl henough))
    exact ⟨_, hgrown.isChain, hfirst, htaken,
      fun a ha => hgrown.frame a fun hin => ha (Or.inr (Or.inl hin))⟩

/-! ## A file in the root directory -/

/-- The entry of a file in the root directory is found in the root directory. -/
lemma entryLocation_root {k : FatKind} {name : List UInt8} {i : ℕ} {sector : ℕ}
    (hindex : entryIndex priv.rootDirectory name = some i)
    (hsector : priv.rootDirectory.sectorPos = sector)
    (hlt : sector * v.sectorSize + i * itemSize < 2 ^ 32) :
    k.entryLocation v disk priv.rootDirectory [name] =
      some (some (sector * v.sectorSize + i * itemSize)) := by
  have hname : ([name] : List (List UInt8)).getLastD [] = name := rfl
  rw [entryLocation, getParentDir, Option.bind_some]
  simp only [hname, hindex, Option.map_some, hsector]
  rw [← Nat.cast_mul, ← Nat.cast_mul, ← Nat.cast_add, u32_of_lt hlt]

lemma foundAt_root {k : FatKind} {name : List UInt8} {i : ℕ} {sector : ℕ}
    (hindex : entryIndex priv.rootDirectory name = some i)
    (hsector : priv.rootDirectory.sectorPos = sector)
    (hlt : sector * v.sectorSize + i * itemSize < 2 ^ 32) :
    k.FoundAt v priv disk chain [name] (sector * v.sectorSize + i * itemSize) :=
  fun _ _ _ _ => entryLocation_root hindex hsector hlt

/-- The item of a file `A` with cluster 3. -/
def fileItem (size : ℕ) : FatDirectoryItem :=
  ⟨store (fun i => if i = 0 then 0x41 else if i = 26 then 3 else 0) 28 (numberBytes 4 size)⟩

/-- A volume with the file `A` in its root directory, in cluster 3 alone.  On a FAT16 volume
cluster 4 belongs to another file. -/
def fileDisk (size : ℕ) : Disk :=
  diskWith fun a =>
    if (518 ≤ a ∧ a < 522) ∨ (524 ≤ a ∧ a < 527) then 0xFF
    else if a = 527 then 0x0F
    else if 1024 ≤ a ∧ a < 1056 then (fileItem size).raw (a - 1024)
    else 0

/-- The mount with the root directory of one entry in memory. -/
def filePrivate (size : ℕ) : FatPrivate where
  rootDirectory := ⟨fun _ => fileItem size, 1, 2⟩
  fsInfoLocation := 1
  fsinfo _ := 0xFF

/-- The file opened for writing and appending, with the position set. -/
def fileDescriptor (size pos : ℕ) : FatFileDescriptor where
  path := [[0x41]]
  item := fileItem size
  pos := pos
  mode := fileModeWrite ||| fileModeAppend

lemma openFile_fileDisk {k : FatKind} {size pos : ℕ} (hon : k.DataCluster smallVolume 3)
    (hlast : k.endOfChain ≤ k.fatEntry smallVolume (fileDisk size) 3)
    (hfirst : (fileItem size).firstCluster = 3) (hsize : (fileItem size).filesize ≤ 512)
    (hindex : entryIndex (filePrivate size).rootDirectory [0x41] = some 0) :
    k.OpenFile smallVolume (filePrivate size) (fileDisk size) (fileDescriptor size pos) [3]
      1024 := by
  refine ⟨diskWith_faultFree _, ⟨isChain_singleton hon.toOnVolume hlast, ?_, ?_⟩, ?_, ?_,
    by decide, by decide⟩
  · exact congrArg some hfirst.symm
  · exact hsize.trans_eq (by decide)
  · intro c hc
    obtain rfl := List.mem_singleton.mp hc
    exact hon
  · exact foundAt_root hindex (rfl : _ = ((2 : ℕ) : ℤ)) (by decide)

lemma dataCluster_three : fat16.DataCluster smallVolume 3 :=
  ⟨⟨by decide, by decide, by decide, by decide⟩, by decide⟩

/-- Ten bytes at position 100 of a file of 100 bytes. -/
theorem fat16Write_keepsOthers_iff_short :
    ∃ r, fat16Write smallVolume (filePrivate 100) (fileDisk 100)
        (fileDescriptor 100 100) (fun _ => 0xFF) 10 = some r ∧
      fat16.KeepsOthers smallVolume (fileDisk 100) (fileDescriptor 100 100) [3] 1024 r := by
  have hopen : fat16.OpenFile smallVolume (filePrivate 100) (fileDisk 100)
      (fileDescriptor 100 100) [3] 1024 :=
    openFile_fileDisk dataCluster_three (by decide) (by decide) (by decide) (by decide)
  have hnew : newClusters smallVolume (fileDisk 100) (fileDescriptor 100 100) 10 = [] := by
    have hneeded : neededClusters smallVolume (fileDescriptor 100 100).item.filesize 10 = 0 := by
      decide
    rw [newClusters, hneeded, List.take_zero]
  refine (fat16Write_keepsOthers_iff hopen (by decide) (by decide) (by decide) ?_).mpr
    (Or.inr (Or.inr fun a ha ha' => ?_)) _
  · rw [hnew]
    exact fun c hc => absurd hc (by simp)
  · have hpos : fat16.dataPos smallVolume (lastCluster [3]) = 2048 := by decide
    have hB : smallVolume.clusterBytes = 512 := by decide
    have hs : (fileDescriptor 100 100).pos % smallVolume.clusterBytes = 100 := by decide
    rw [hpos, hB] at ha
    rw [hpos, hs] at ha'
    omega

/-- Ten bytes at position 400 of a file of 400 bytes: 400 bytes are stored from there on, and
the cluster behind the file changes, which belongs to another file. -/
theorem not_fat16Write_keepsOthers_overflow :
    fat16.OpenFile smallVolume (filePrivate 400) (fileDisk 400) (fileDescriptor 400 400) [3]
        1024 ∧
      fat16.IsChain smallVolume (fileDisk 400) [4] ∧
      ∃ r, fat16Write smallVolume (filePrivate 400) (fileDisk 400) (fileDescriptor 400 400)
          (fun _ => 0xFF) 10 = some r ∧
        r.disk.byte (fat16.dataPos smallVolume 4) ≠
          (fileDisk 400).byte (fat16.dataPos smallVolume 4) ∧
        ¬ fat16.KeepsOthers smallVolume (fileDisk 400) (fileDescriptor 400 400) [3] 1024 r := by
  have hopen : fat16.OpenFile smallVolume (filePrivate 400) (fileDisk 400)
      (fileDescriptor 400 400) [3] 1024 :=
    openFile_fileDisk dataCluster_three (by decide) (by decide) (by decide) (by decide)
  have hneeded : neededClusters smallVolume (fileDescriptor 400 400).item.filesize 10 = 0 := by
    decide
  have hnew : newClusters smallVolume (fileDisk 400) (fileDescriptor 400 400) 10 = [] := by
    rw [newClusters, hneeded, List.take_zero]
  have henough : EnoughClusters smallVolume (fileDisk 400) (fileDescriptor 400 400) 10 := by
    rw [EnoughClusters, hneeded]
    exact Nat.zero_le _
  refine ⟨hopen, isChain_singleton ⟨by decide, by decide, by decide, by decide⟩ (by decide), ?_⟩
  refine not_keepsOthers hopen (by decide) (by decide) (by decide) (by decide) ?_ henough
    (by decide) (by decide) ?_ (fun i => by decide)
  · rw [hnew]
    exact fun c hc => absurd hc (by simp)
  · rw [hnew]
    -- the byte is in none of the places of the file
    rintro (⟨c, hc, hca⟩ | ⟨c, hc, hca⟩ | hslot)
    · obtain rfl := List.mem_singleton.mp hc
      exact absurd hca (by decide)
    · obtain rfl := List.mem_singleton.mp hc
      exact absurd hca (by decide)
    · exact absurd hslot (by decide)

end SerpaeOS
