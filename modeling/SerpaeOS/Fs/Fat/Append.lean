import SerpaeOS.Fs.Fat.WriteFrame

/-!
# Appending to a file

When the position is the end of the file, a write should leave the old content followed by
the bytes of the buffer.  The bytes for the last cluster are as many as the cluster already
holds, instead of as many as there is room for, so this only holds for particular sizes.
-/

namespace SerpaeOS

open Bytes Word

namespace FatKind

variable {k : FatKind} {v : FatVolume} {disk : Disk} {chain : List ℕ} {priv : FatPrivate}
  {desc : FatFileDescriptor} {slot : ℕ} {new : List ℕ} {buf : ℕ → UInt8}

/-- The write left the old content of the file followed by the first `n` bytes of the buffer,
and read no other bytes of the buffer. -/
def Appends (k : FatKind) (v : FatVolume) (disk : Disk) (desc : FatFileDescriptor)
    (chain : List ℕ) (buf : ℕ → UInt8) (n : ℕ) (r : WriteResult) : Prop :=
  (∃ chain', k.FileChain v r.disk r.desc.item chain' ∧
    slice (k.contentByte v r.disk chain') 0 r.desc.item.filesize =
      slice (k.contentByte v disk chain) 0 desc.item.filesize ++ slice buf 0 n) ∧
  r.bufRead ≤ n

/-- The position on the volume of a byte of a file. -/
def contentPos (k : FatKind) (v : FatVolume) (chain : List ℕ) (x : ℕ) : ℕ :=
  k.dataPos v (chain.getD (x / v.clusterBytes) 0) + x % v.clusterBytes

lemma contentByte_eq (x : ℕ) :
    k.contentByte v disk chain x = disk.byte (k.contentPos v chain x) := rfl

lemma contentPos_inClusters {x : ℕ} (hx : x < chain.length * v.clusterBytes) :
    k.InClusters v chain (k.contentPos v chain x) := by
  have hB : 0 < v.clusterBytes := v.clusterBytes_pos
  have hlt : x / v.clusterBytes < chain.length := by rwa [Nat.div_lt_iff_lt_mul hB]
  have hmod := Nat.mod_lt x hB
  exact ⟨_, IsChain.getD_mem hlt, by rw [contentPos]; omega, by rw [contentPos]; omega⟩

lemma contentPos_append {x : ℕ} (hx : x < chain.length * v.clusterBytes) :
    k.contentPos v (chain ++ new) x = k.contentPos v chain x := by
  have hB : 0 < v.clusterBytes := v.clusterBytes_pos
  rw [contentPos, contentPos, List.getD_append]
  rwa [Nat.div_lt_iff_lt_mul hB]

/-- The content in the last cluster of a chain. -/
lemma contentPos_last (hne : chain ≠ []) {x : ℕ}
    (hx : (chain.length - 1) * v.clusterBytes ≤ x) (hx' : x < chain.length * v.clusterBytes) :
    k.contentPos v (chain ++ new) x =
      k.dataPos v (lastCluster chain) + (x - (chain.length - 1) * v.clusterBytes) := by
  have hB : 0 < v.clusterBytes := v.clusterBytes_pos
  have hpos := List.length_pos_iff.mpr hne
  have hdiv : x / v.clusterBytes = chain.length - 1 := by
    refine Nat.div_eq_of_lt_le hx ?_
    rwa [show chain.length - 1 + 1 = chain.length by omega]
  have hmod := Nat.div_add_mod x v.clusterBytes
  rw [hdiv, Nat.mul_comm] at hmod
  rw [contentPos_append hx', contentPos, hdiv, lastCluster]
  omega

/-- The content in the clusters that were appended to a chain. -/
lemma contentPos_new {i j : ℕ} (hj : j < v.clusterBytes) :
    k.contentPos v (chain ++ new) (chain.length * v.clusterBytes + (i * v.clusterBytes + j)) =
      k.dataPos v (new.getD i 0) + j := by
  have hB : 0 < v.clusterBytes := v.clusterBytes_pos
  have hsum : chain.length * v.clusterBytes + (i * v.clusterBytes + j) =
      j + v.clusterBytes * (chain.length + i) := by ring
  rw [contentPos, hsum, Nat.add_mul_div_left _ _ hB, Nat.add_mul_mod_self_left,
    Nat.div_eq_of_lt hj, Nat.mod_eq_of_lt hj, Nat.zero_add,
    List.getD_append_right _ _ _ _ (Nat.le_add_right _ _), Nat.add_sub_cancel_left]

/-! ## The content after a write -/

/-- Clusters that are not in a list do not overlap with those of it. -/
lemma not_inClusters {l : List ℕ} (h2 : ∀ c ∈ l, 2 ≤ c) {c a : ℕ} (hc2 : 2 ≤ c) (hc : c ∉ l)
    (ha : k.dataPos v c ≤ a) (ha' : a < k.dataPos v c + v.clusterBytes) :
    ¬ k.InClusters v l a := by
  rintro ⟨x, hx, hxa⟩
  have hne : c ≠ x := fun hcx => hc (hcx ▸ hx)
  rcases dataPos_ne (k := k) (v := v) hc2 (h2 x hx) hne with h | h
  · omega
  · omega

/-- A file with its position at the end, and the volume after clusters were added for a
write of `n` bytes.  The directory entry lies outside of the clusters. -/
structure GrownFile (k : FatKind) (v : FatVolume) (priv : FatPrivate) (disk : Disk)
    (desc : FatFileDescriptor) (chain : List ℕ) (slot n : ℕ) (grown : Disk) (new : List ℕ) :
    Prop where
  openFile : k.OpenFile v priv disk desc chain slot
  pos_eq : desc.pos = desc.item.filesize
  grown : k.Grown v disk chain grown new
  new_data : ∀ c ∈ new, k.DataCluster v c
  new_length : new.length = neededClusters v desc.item.filesize n
  slot_away : ∀ a, slot ≤ a → a < slot + itemSize → ¬ k.InClusters v (chain ++ new) a

/-- The volume after the write of a buffer. -/
def writtenDisk (k : FatKind) (v : FatVolume) (desc : FatFileDescriptor) (chain : List ℕ)
    (slot n : ℕ) (grown : Disk) (new : List ℕ) (buf : ℕ → UInt8) : Disk :=
  { grown with
    byte := k.writtenBytes v grown.byte (desc.item.setFilesize (desc.item.filesize + n)) slot
      (lastCluster chain) new buf (desc.pos % v.clusterBytes) n }

namespace GrownFile

variable {n : ℕ} {grown : Disk}

lemma data (h : k.GrownFile v priv disk desc chain slot n grown new) :
    ∀ c ∈ chain ++ new, k.DataCluster v c := by
  intro c hc
  rcases List.mem_append.mp hc with hc | hc
  · exact h.openFile.data c hc
  · exact h.new_data c hc

lemma isChain_written (h : k.GrownFile v priv disk desc chain slot n grown new) :
    k.IsChain v (k.writtenDisk v desc chain slot n grown new buf) (chain ++ new) :=
  h.grown.isChain.congr_table h.data fun _ ha => writtenBytes_of_lt h.openFile.slot_table ha

/-- In the clusters of the file only the bytes for the last cluster and those for the new
clusters are stored. -/
lemma store_eq (h : k.GrownFile v priv disk desc chain slot n grown new) {a p : ℕ}
    (ha : k.InClusters v (chain ++ new) a) (item : FatDirectoryItem) (l : List UInt8) :
    store (store grown.byte slot (slice item.raw 0 itemSize)) p l a = store disk.byte p l a := by
  have hslot : a < slot ∨ slot + itemSize ≤ a := by
    by_contra hin
    exact h.slot_away a (by omega) (by omega) ha
  have hframe : grown.byte a = disk.byte a := by
    refine h.grown.frame a fun hin => ?_
    have := hin.lt_tableEnd h.data
    have := ha.tableEnd_le
    omega
  have hbase : store grown.byte slot (slice item.raw 0 itemSize) a = disk.byte a := by
    rw [store_of_lt (by rw [length_slice]; exact hslot), hframe]
  by_cases hin : p ≤ a ∧ a < p + l.length
  · rw [store, if_pos hin, store, if_pos hin]
  · rw [store, if_neg hin, hbase, store, if_neg hin]

/-- The content in the old clusters. -/
lemma content_old (h : k.GrownFile v priv disk desc chain slot n grown new) {x : ℕ}
    (hx : x < chain.length * v.clusterBytes) :
    k.contentByte v (k.writtenDisk v desc chain slot n grown new buf) (chain ++ new) x =
      store disk.byte
        (k.dataPos v (lastCluster chain) + desc.item.filesize % v.clusterBytes)
        (slice buf 0 (desc.item.filesize % v.clusterBytes)) (k.contentPos v chain x) := by
  obtain ⟨c, hc, hca⟩ := contentPos_inClusters (k := k) hx
  have hnodup := List.nodup_append.mp h.grown.isChain.nodup
  have hnot : ¬ k.InClusters v new (k.contentPos v chain x) :=
    not_inClusters (fun x hx => (h.new_data x hx).two_le) (h.openFile.data c hc).two_le
      (fun hcn => hnodup.2.2 c hc c hcn rfl) hca.1 hca.2
  rw [contentByte_eq, contentPos_append hx, writtenDisk]
  simp only [writtenBytes]
  rw [storeClusters_of_not_inClusters hnot, h.pos_eq,
    h.store_eq ⟨c, List.mem_append_left _ hc, hca⟩]

/-- The content in the new clusters. -/
lemma content_new (h : k.GrownFile v priv disk desc chain slot n grown new)
    (buf : ℕ → UInt8) {i j : ℕ} (hi : i < new.length) (hj : j < v.clusterBytes) :
    k.contentByte v (k.writtenDisk v desc chain slot n grown new buf) (chain ++ new)
        (chain.length * v.clusterBytes + (i * v.clusterBytes + j)) =
      if i * v.clusterBytes + j < n - desc.item.filesize % v.clusterBytes then
        buf (desc.item.filesize % v.clusterBytes + i * v.clusterBytes + j)
      else store disk.byte
        (k.dataPos v (lastCluster chain) + desc.item.filesize % v.clusterBytes)
        (slice buf 0 (desc.item.filesize % v.clusterBytes)) (k.dataPos v (new.getD i 0) + j) := by
  have hmem : new.getD i 0 ∈ new := IsChain.getD_mem hi
  have hnodup := List.nodup_append.mp h.grown.isChain.nodup
  rw [contentByte_eq, contentPos_new hj, writtenDisk]
  simp only [writtenBytes]
  rw [storeClusters_getD hnodup.2.1 (fun x hx => (h.new_data x hx).two_le) hi hj, h.pos_eq,
    h.store_eq ⟨_, List.mem_append_right _ hmem, by omega, by omega⟩]

end GrownFile

/-- What the store for the last cluster leaves in another cluster. -/
lemma store_other {last c j r : ℕ} {b : ℕ → UInt8} (h2 : 2 ≤ last) (hc2 : 2 ≤ c) (hne : c ≠ last)
    (hj : j < v.clusterBytes) (hr : r < v.clusterBytes) :
    store b (k.dataPos v last + r) (slice buf 0 r) (k.dataPos v c + j) =
      if c = last + 1 ∧ v.clusterBytes + j < 2 * r then buf (v.clusterBytes + j - r)
      else b (k.dataPos v c + j) := by
  by_cases hc : c = last + 1
  · subst hc
    rw [dataPos_succ h2]
    by_cases hlt : v.clusterBytes + j < 2 * r
    · rw [if_pos ⟨rfl, hlt⟩]
      have hpos : k.dataPos v last + v.clusterBytes + j =
          k.dataPos v last + r + (v.clusterBytes + j - r) := by omega
      rw [hpos, store_add (by rw [length_slice]; omega), getD_slice (by omega), Nat.zero_add]
    · rw [if_neg (fun h => hlt h.2), store_of_lt (by rw [length_slice]; omega)]
  · rw [if_neg (fun h => hc h.1)]
    refine store_of_lt ?_
    rw [length_slice]
    rcases Nat.lt_or_gt_of_ne hne with hlt | hgt
    · have := dataPos_lt (k := k) (v := v) hc2 hlt
      omega
    · have hnext := dataPos_lt (k := k) (v := v) (by omega : 2 ≤ last + 1) (by omega : last + 1 < c)
      rw [dataPos_succ h2] at hnext
      omega

namespace GrownFile

variable {n : ℕ} {grown : Disk}

/-- The content in the cluster that was the last one, in terms of where it starts. -/
lemma content_last (h : k.GrownFile v priv disk desc chain slot n grown new) {x E : ℕ}
    (hE : (chain.length - 1) * v.clusterBytes = E) (hx : E ≤ x) (hx' : x < E + v.clusterBytes) :
    k.contentByte v (k.writtenDisk v desc chain slot n grown new buf) (chain ++ new) x =
      if E + desc.item.filesize % v.clusterBytes ≤ x ∧
          x < E + 2 * (desc.item.filesize % v.clusterBytes) then
        buf (x - (E + desc.item.filesize % v.clusterBytes))
      else k.contentByte v disk chain x := by
  have hne := h.openFile.chain_ne_nil
  have hpos := List.length_pos_iff.mpr hne
  have hlen : chain.length * v.clusterBytes = E + v.clusterBytes := by
    rw [← hE, ← Nat.succ_mul, show (chain.length - 1).succ = chain.length by omega]
  have hlast : k.contentPos v (chain ++ []) x = _ :=
    contentPos_last hne (hE.trans_le hx) (by omega)
  rw [List.append_nil, hE] at hlast
  rw [h.content_old (by omega), contentByte_eq, hlast]
  generalize desc.item.filesize % v.clusterBytes = r
  by_cases hin : E + r ≤ x ∧ x < E + 2 * r
  · have hsum : k.dataPos v (lastCluster chain) + (x - E) =
        k.dataPos v (lastCluster chain) + r + (x - (E + r)) := by omega
    rw [if_pos hin, hsum, store_add (by rw [length_slice]; omega), getD_slice (by omega),
      Nat.zero_add]
  · rw [if_neg hin, store_of_lt (by rw [length_slice]; omega)]

/-- The content in the clusters before. -/
lemma content_before (h : k.GrownFile v priv disk desc chain slot n grown new) {x : ℕ}
    (hx : x < (chain.length - 1) * v.clusterBytes) :
    k.contentByte v (k.writtenDisk v desc chain slot n grown new buf) (chain ++ new) x =
      if chain.getD (x / v.clusterBytes) 0 = lastCluster chain + 1 ∧
          v.clusterBytes + x % v.clusterBytes < 2 * (desc.item.filesize % v.clusterBytes) then
        buf (v.clusterBytes + x % v.clusterBytes - desc.item.filesize % v.clusterBytes)
      else k.contentByte v disk chain x := by
  have hB : 0 < v.clusterBytes := v.clusterBytes_pos
  have hpos := List.length_pos_iff.mpr h.openFile.chain_ne_nil
  have hlt : x / v.clusterBytes < chain.length - 1 := by rwa [Nat.div_lt_iff_lt_mul hB]
  have hlen : x < chain.length * v.clusterBytes :=
    lt_of_lt_of_le hx (Nat.mul_le_mul_right _ (by omega))
  have hchain := h.openFile.file.isChain
  have hne : chain.getD (x / v.clusterBytes) 0 ≠ lastCluster chain :=
    hchain.getD_ne (by omega) (by omega) (by omega)
  rw [h.content_old hlen]
  exact store_other (hchain.onVolume _ (lastCluster_mem h.openFile.chain_ne_nil)).two_le
    (hchain.onVolume_getD (by omega)).two_le hne (Nat.mod_lt _ hB) (Nat.mod_lt _ hB)

/-- The content at the beginning of the first new cluster. -/
lemma content_first_new (h : k.GrownFile v priv disk desc chain slot n grown new)
    (hnew : 0 < new.length) {j : ℕ} (hj : j < v.clusterBytes) :
    k.contentByte v (k.writtenDisk v desc chain slot n grown new buf) (chain ++ new)
        (chain.length * v.clusterBytes + j) =
      if j < n - desc.item.filesize % v.clusterBytes then
        buf (desc.item.filesize % v.clusterBytes + j)
      else if new.getD 0 0 = lastCluster chain + 1 ∧
          v.clusterBytes + j < 2 * (desc.item.filesize % v.clusterBytes) then
        buf (v.clusterBytes + j - desc.item.filesize % v.clusterBytes)
      else disk.byte (k.dataPos v (new.getD 0 0) + j) := by
  have hB : 0 < v.clusterBytes := v.clusterBytes_pos
  have hmem : new.getD 0 0 ∈ new := IsChain.getD_mem hnew
  have hnodup := List.nodup_append.mp h.grown.isChain.nodup
  have hlast := lastCluster_mem h.openFile.chain_ne_nil
  have hfirst := h.content_new buf hnew hj
  simp only [Nat.zero_mul, Nat.zero_add, Nat.add_zero] at hfirst
  rw [hfirst, store_other (h.openFile.data _ hlast).two_le (h.new_data _ hmem).two_le
    (fun heq => hnodup.2.2 _ hlast _ hmem heq.symm) hj (Nat.mod_lt _ hB)]

/-- The clusters of the file and those added are enough for the new size. -/
lemma length_le (h : k.GrownFile v priv disk desc chain slot n grown new) :
    desc.item.filesize + n ≤ (chain ++ new).length * v.clusterBytes := by
  have hcount := (clusterCount_le_iff v desc.item.filesize chain.length).mpr
    h.openFile.file.filesize_le
  rw [List.length_append, h.new_length, neededClusters, ← clusterCount_le_iff]
  omega

/-- Appending in terms of the content. -/
lemma appends_iff (h : k.GrownFile v priv disk desc chain slot n grown new)
    (hlt : desc.item.filesize + n < 2 ^ 32) (res : ℤ) :
    k.Appends v disk desc chain buf n ⟨res, priv, k.writtenDisk v desc chain slot n grown new buf,
        { desc with item := desc.item.setFilesize (desc.item.filesize + n) },
        desc.pos % v.clusterBytes + min (n - desc.pos % v.clusterBytes)
          (new.length * v.clusterBytes)⟩ ↔
      ((∀ i < desc.item.filesize,
          k.contentByte v (k.writtenDisk v desc chain slot n grown new buf) (chain ++ new) i =
            k.contentByte v disk chain i) ∧
        ∀ i < n, k.contentByte v (k.writtenDisk v desc chain slot n grown new buf) (chain ++ new)
          (desc.item.filesize + i) = buf i) ∧
      desc.item.filesize % v.clusterBytes ≤ n := by
  have hsize := desc.item.filesize_setFilesize hlt
  have hfirst := desc.item.firstCluster_setFilesize (desc.item.filesize + n)
  have hhead : (chain ++ new).head? = some desc.item.firstCluster := by
    rw [List.head?_append_of_ne_nil _ h.openFile.chain_ne_nil, h.openFile.file.first]
  rw [← slice_eq_append_iff, h.pos_eq]
  constructor
  · rintro ⟨⟨chain', hfile, hslice⟩, hread⟩
    simp only [hsize] at hslice
    obtain rfl := hfile.isChain.unique h.isChain_written (hfile.first.trans (congrArg some hfirst))
      hhead
    exact ⟨hslice, by simp only at hread; omega⟩
  · rintro ⟨hslice, hread⟩
    refine ⟨⟨chain ++ new, ⟨h.isChain_written, ?_, ?_⟩, ?_⟩, ?_⟩
    · exact hhead.trans (congrArg some hfirst.symm)
    · simp only [hsize]
      exact h.length_le
    · simp only [hsize]
      exact hslice
    · simp only
      omega

/-- What goes to the new clusters. -/
lemma content_new_lt (h : k.GrownFile v priv disk desc chain slot n grown new)
    (buf : ℕ → UInt8) {t : ℕ} (ht : t < new.length * v.clusterBytes)
    (ht' : t < n - desc.item.filesize % v.clusterBytes) :
    k.contentByte v (k.writtenDisk v desc chain slot n grown new buf) (chain ++ new)
        (chain.length * v.clusterBytes + t) =
      buf (desc.item.filesize % v.clusterBytes + t) := by
  have hB : 0 < v.clusterBytes := v.clusterBytes_pos
  have hdiv : t / v.clusterBytes * v.clusterBytes + t % v.clusterBytes = t := by
    rw [Nat.mul_comm]
    exact Nat.div_add_mod t v.clusterBytes
  have hnew := h.content_new buf (i := t / v.clusterBytes) (j := t % v.clusterBytes)
    (by rwa [Nat.div_lt_iff_lt_mul hB]) (Nat.mod_lt _ hB)
  rwa [Nat.add_assoc (desc.item.filesize % v.clusterBytes), hdiv, if_pos ht'] at hnew

end GrownFile

/-- The sizes for which a write of `n` bytes at the end of a file works: the chain has as
many clusters as the file needs, and

* the last cluster is full, or
* there are as many bytes to write as are in the last cluster, and they fit into it or the
  first new cluster lies right behind it, or
* the last cluster is half full, and there are at least as many bytes to write. -/
def AppendFits (v : FatVolume) (chain new : List ℕ) (filesize n : ℕ) : Prop :=
  chain.length = filesizeToClusterCount v filesize ∧
    (filesize % v.clusterBytes = 0 ∨
      (n = filesize % v.clusterBytes ∧
        (2 * (filesize % v.clusterBytes) ≤ v.clusterBytes ∨
          new.head? = some (lastCluster chain + 1))) ∨
      (2 * (filesize % v.clusterBytes) = v.clusterBytes ∧ filesize % v.clusterBytes ≤ n))

/-- The size of a file against the start of its last cluster. -/
lemma filesize_eq_of_count (hne : chain ≠ []) {filesize : ℕ}
    (hlen : chain.length = filesizeToClusterCount v filesize) :
    (filesize % v.clusterBytes = 0 ∧
        filesize = (chain.length - 1) * v.clusterBytes + v.clusterBytes) ∨
      (0 < filesize % v.clusterBytes ∧
        filesize = (chain.length - 1) * v.clusterBytes + filesize % v.clusterBytes) := by
  have hpos := List.length_pos_iff.mpr hne
  have hdiv := Nat.div_add_mod filesize v.clusterBytes
  rw [Nat.mul_comm] at hdiv
  rw [filesizeToClusterCount] at hlen
  split_ifs at hlen with hr
  · rw [hlen, Nat.add_sub_cancel]
    omega
  · refine Or.inl ⟨by omega, ?_⟩
    rw [← Nat.succ_mul, show (chain.length - 1).succ = chain.length by omega, hlen, Nat.add_zero]
    omega

namespace GrownFile

variable {n : ℕ} {grown : Disk}

/-- With fitting sizes the old content stays. -/
lemma content_eq_of_fits (h : k.GrownFile v priv disk desc chain slot n grown new)
    (hfits : AppendFits v chain new desc.item.filesize n) {x : ℕ} (hx : x < desc.item.filesize) :
    k.contentByte v (k.writtenDisk v desc chain slot n grown new buf) (chain ++ new) x =
      k.contentByte v disk chain x := by
  have hB : 0 < v.clusterBytes := v.clusterBytes_pos
  obtain ⟨hlen, hcase⟩ := hfits
  have hF := filesize_eq_of_count h.openFile.chain_ne_nil hlen
  have hr := Nat.mod_lt desc.item.filesize hB
  rcases Nat.lt_or_ge x ((chain.length - 1) * v.clusterBytes) with hlt | hge
  · -- a cluster before the last one is only reached when it lies right behind the last one
    rw [h.content_before hlt, if_neg]
    rintro ⟨hnext, hover⟩
    rcases hcase with hzero | ⟨-, hle | hhead⟩ | ⟨hhalf, -⟩
    · omega
    · omega
    · have hlt' : x / v.clusterBytes < chain.length := by
        have : x / v.clusterBytes < chain.length - 1 := by rwa [Nat.div_lt_iff_lt_mul hB]
        omega
      have hmem : lastCluster chain + 1 ∈ chain := by
        rw [← hnext]
        exact IsChain.getD_mem hlt'
      exact (List.nodup_append.mp h.grown.isChain.nodup).2.2 _ hmem _
        (List.mem_of_mem_head? hhead) rfl
    · omega
  · rw [h.content_last rfl hge (by omega), if_neg (by omega)]

/-- With fitting sizes the bytes of the buffer follow. -/
lemma content_add_of_fits (h : k.GrownFile v priv disk desc chain slot n grown new)
    (hfits : AppendFits v chain new desc.item.filesize n)
    (hlen : desc.item.filesize + n ≤ (chain ++ new).length * v.clusterBytes) {i : ℕ} (hi : i < n) :
    k.contentByte v (k.writtenDisk v desc chain slot n grown new buf) (chain ++ new)
      (desc.item.filesize + i) = buf i := by
  have hB : 0 < v.clusterBytes := v.clusterBytes_pos
  obtain ⟨hcount, hcase⟩ := hfits
  have hne := h.openFile.chain_ne_nil
  have hpos := List.length_pos_iff.mpr hne
  have hr := Nat.mod_lt desc.item.filesize hB
  have hE : chain.length * v.clusterBytes =
      (chain.length - 1) * v.clusterBytes + v.clusterBytes := by
    rw [← Nat.succ_mul, show (chain.length - 1).succ = chain.length by omega]
  rw [List.length_append, Nat.add_mul] at hlen
  rcases filesize_eq_of_count hne hcount with ⟨hzero, hF⟩ | ⟨hrpos, hF⟩
  · -- everything goes to the new clusters
    have hnew := h.content_new_lt buf (t := i) (by omega) (by omega)
    rwa [hE, ← hF, hzero, Nat.zero_add] at hnew
  · rcases Nat.lt_or_ge (desc.item.filesize + i) (chain.length * v.clusterBytes) with hlt | hge
    · -- the rest of the last cluster
      rw [h.content_last rfl (by omega) (by omega), if_pos (by omega)]
      congr 1
      omega
    · obtain ⟨t, ht⟩ : ∃ t, desc.item.filesize + i = chain.length * v.clusterBytes + t :=
        ⟨desc.item.filesize + i - chain.length * v.clusterBytes, by omega⟩
      rw [ht]
      rcases hcase with hzero | ⟨hn, hle | hhead⟩ | ⟨hhalf, hle⟩
      · omega
      · omega
      · -- the new cluster lies right behind the last one
        have hnew : 0 < new.length ∧ new.getD 0 0 = lastCluster chain + 1 := by
          cases new with
          | nil => simp at hhead
          | cons c new => exact ⟨Nat.succ_pos _, by simpa using hhead⟩
        rw [h.content_first_new hnew.1 (by omega), if_neg (by omega),
          if_pos ⟨hnew.2, by omega⟩]
        congr 1
        omega
      · rw [h.content_new_lt _ (by omega) (by omega)]
        congr 1
        omega

/-- A write that appends whatever the buffer holds has fitting sizes. -/
lemma fits_of_content (h : k.GrownFile v priv disk desc chain slot n grown new) (hn : 0 < n)
    (hlen : desc.item.filesize + n ≤ (chain ++ new).length * v.clusterBytes)
    (hread : desc.item.filesize % v.clusterBytes ≤ n)
    (hcontent : ∀ buf, ∀ i < n,
      k.contentByte v (k.writtenDisk v desc chain slot n grown new buf) (chain ++ new)
        (desc.item.filesize + i) = buf i) :
    AppendFits v chain new desc.item.filesize n := by
  have hB : 0 < v.clusterBytes := v.clusterBytes_pos
  have hne := h.openFile.chain_ne_nil
  have hpos := List.length_pos_iff.mpr hne
  have hr := Nat.mod_lt desc.item.filesize hB
  have hE : chain.length * v.clusterBytes =
      (chain.length - 1) * v.clusterBytes + v.clusterBytes := by
    rw [← Nat.succ_mul, show (chain.length - 1).succ = chain.length by omega]
  rw [List.length_append, Nat.add_mul] at hlen
  -- no byte of the range keeps a value that does not depend on the buffer
  have hfixed : ∀ (b : UInt8) (i : ℕ), i < n → ¬ ∀ buf,
      k.contentByte v (k.writtenDisk v desc chain slot n grown new buf) (chain ++ new)
        (desc.item.filesize + i) = b := by
    intro b i hi hb
    have heq := (hb fun _ => b + 1).symm.trans (hcontent (fun _ => b + 1) i hi)
    exact absurd (left_eq_add.mp heq) (by decide)
  have hcount : chain.length = filesizeToClusterCount v desc.item.filesize := by
    by_contra hcount
    have hle := (clusterCount_le_iff v desc.item.filesize chain.length).mpr
      h.openFile.file.filesize_le
    have hF := (clusterCount_le_iff v desc.item.filesize (chain.length - 1)).mp (by omega)
    -- the end of the file lies before the last cluster, where nothing is stored
    refine hfixed (k.contentByte v disk chain desc.item.filesize) 0 hn fun buf => ?_
    rw [Nat.add_zero]
    rcases Nat.lt_or_ge desc.item.filesize ((chain.length - 1) * v.clusterBytes) with hlt | hge
    · rw [h.content_before hlt, if_neg (fun hc => absurd hc.2 (by omega))]
    · have hzero : desc.item.filesize % v.clusterBytes = 0 := by
        rw [le_antisymm hF hge]
        exact Nat.mul_mod_left _ _
      rw [h.content_last rfl hge (by omega), if_neg (by omega)]
  refine ⟨hcount, ?_⟩
  rcases filesize_eq_of_count hne hcount with ⟨hzero, -⟩ | ⟨hrpos, hF⟩
  · exact Or.inl hzero
  refine Or.inr ?_
  by_cases hhalf : 2 * (desc.item.filesize % v.clusterBytes) = v.clusterBytes
  · exact Or.inr ⟨hhalf, hread⟩
  refine Or.inl ?_
  have hnr : n = desc.item.filesize % v.clusterBytes := by
    by_contra hnr
    rcases Nat.lt_or_gt_of_ne hhalf with hlt | hgt
    · -- a gap remains in the last cluster
      refine hfixed (k.contentByte v disk chain
        (desc.item.filesize + desc.item.filesize % v.clusterBytes)) _
        (show desc.item.filesize % v.clusterBytes < n by omega) fun buf => ?_
      rw [h.content_last rfl (by omega) (by omega), if_neg (by omega)]
    · -- the first new cluster starts with the wrong byte
      have hbyte := hcontent (fun i => if i = desc.item.filesize % v.clusterBytes then 1 else 0)
        (v.clusterBytes - desc.item.filesize % v.clusterBytes) (by omega)
      have hsum : desc.item.filesize + (v.clusterBytes - desc.item.filesize % v.clusterBytes) =
          chain.length * v.clusterBytes + 0 := by omega
      rw [hsum, h.content_new_lt _ (by omega) (by omega), Nat.add_zero, if_pos rfl,
        if_neg (by omega)] at hbyte
      exact absurd hbyte (by decide)
  refine ⟨hnr, ?_⟩
  rcases Nat.lt_or_gt_of_ne hhalf with hlt | hgt
  · exact Or.inl hlt.le
  · -- the bytes run over the end of the last cluster
    have hnew : 0 < new.length := by
      by_contra hzero
      rw [Nat.eq_zero_of_not_pos hzero, Nat.zero_mul] at hlen
      omega
    have hget : new.head? = some (new.getD 0 0) := by
      cases new with
      | nil => exact absurd hnew (by simp)
      | cons c new => rfl
    rw [hget]
    refine Or.inr (congrArg some ?_)
    by_contra hadj
    refine hfixed (disk.byte (k.dataPos v (new.getD 0 0) + 0))
      (v.clusterBytes - desc.item.filesize % v.clusterBytes) (by omega) fun buf => ?_
    have hsum : desc.item.filesize + (v.clusterBytes - desc.item.filesize % v.clusterBytes) =
        chain.length * v.clusterBytes + 0 := by omega
    rw [hsum, h.content_first_new hnew hB, if_neg (by omega), if_neg (fun hc => hadj hc.1)]

end GrownFile

/-- A write function that stores the buffer in the grown chain appends, whatever the buffer
holds, exactly when the sizes fit. -/
lemma GrownFile.appends_iff_fits {n : ℕ} {grown : Disk}
    (h : k.GrownFile v priv disk desc chain slot n grown new) (hn : 0 < n)
    (hlt : desc.item.filesize + n < 2 ^ 32) {write : (ℕ → UInt8) → Option WriteResult}
    (hwrite : ∀ buf, ∃ res, 0 ≤ res ∧ write buf = some ⟨res, priv,
      k.writtenDisk v desc chain slot n grown new buf,
      { desc with item := desc.item.setFilesize (desc.item.filesize + n) },
      desc.pos % v.clusterBytes + min (n - desc.pos % v.clusterBytes)
        (new.length * v.clusterBytes)⟩) :
    (∀ buf r, write buf = some r → 0 ≤ r.res → k.Appends v disk desc chain buf n r) ↔
      AppendFits v chain new desc.item.filesize n := by
  constructor
  · intro hall
    refine h.fits_of_content hn h.length_le ?_ fun buf => ?_
    · obtain ⟨res, hres, hr⟩ := hwrite fun _ => 0
      exact ((h.appends_iff hlt res).mp (hall _ _ hr hres)).2
    · obtain ⟨res, hres, hr⟩ := hwrite buf
      exact ((h.appends_iff hlt res).mp (hall _ _ hr hres)).1.2
  · intro hfits buf r hr _
    obtain ⟨res, hres, hr'⟩ := hwrite buf
    obtain rfl := Option.some.inj (hr'.symm.trans hr)
    refine (h.appends_iff hlt res).mpr ⟨⟨fun i hi => h.content_eq_of_fits hfits hi,
      fun i hi => h.content_add_of_fits hfits h.length_le hi⟩, ?_⟩
    rcases hfits.2 with hzero | ⟨hnr, -⟩ | ⟨-, hle⟩
    · omega
    · omega
    · exact hle

end FatKind

open FatKind

variable {v : FatVolume} {disk : Disk} {chain : List ℕ} {priv : FatPrivate}
  {desc : FatFileDescriptor} {slot : ℕ}

/-- A file opened for appending, and a write of `n` bytes to it.  The directory entry lies
outside of its clusters and of those that are added. -/
structure AppendFile (k : FatKind) (v : FatVolume) (priv : FatPrivate) (disk : Disk)
    (desc : FatFileDescriptor) (chain : List ℕ) (slot n : ℕ) (new : List ℕ) : Prop where
  openFile : k.OpenFile v priv disk desc chain slot
  writable : desc.mode &&& fileModeWrite ≠ 0
  pos_eq : desc.pos = desc.item.filesize
  size_pos : 0 < n
  size_lt : desc.item.filesize + n < 2 ^ 31
  slot_away : ∀ a, slot ≤ a → a < slot + itemSize → ¬ k.InClusters v (chain ++ new) a

/-- The write of `n` bytes finds enough free clusters, all of them data clusters. -/
structure Room (v : FatVolume) (disk : Disk) (desc : FatFileDescriptor) (n : ℕ) : Prop where
  search : fat16.SearchBelow v
  enough : EnoughClusters v disk desc n
  data : ∀ c ∈ newClusters v disk desc n, fat16.DataCluster v c

/-- The volume after `fat16_write`, with clusters added as needed. -/
lemma AppendFile.grown16 {n : ℕ}
    (h : AppendFile fat16 v priv disk desc chain slot n (newClusters v disk desc n))
    (hroom : Room v disk desc n) :
    ∃ grown, fat16.GrownFile v priv disk desc chain slot n grown (newClusters v disk desc n) ∧
      ∀ buf, ∃ res, 0 ≤ res ∧ fat16Write v priv disk desc buf n = some ⟨res, priv,
        fat16.writtenDisk v desc chain slot n grown (newClusters v disk desc n) buf,
        { desc with item := desc.item.setFilesize (desc.item.filesize + n) },
        desc.pos % v.clusterBytes + min (n - desc.pos % v.clusterBytes)
          ((newClusters v disk desc n).length * v.clusterBytes)⟩ := by
  have hlt := h.size_lt
  obtain ⟨grown, hgrown, hwrite, -⟩ := fat16Write_eq h.openFile h.writable hroom.search
    h.size_pos (by omega) hroom.data
  exact ⟨grown, ⟨h.openFile, h.pos_eq, hgrown, hroom.data, hroom.enough.length_eq, h.slot_away⟩,
    hwrite hroom.enough⟩

/-- The volume after `fat32_write` when no cluster is needed. -/
lemma AppendFile.grown32 {n : ℕ} (h : AppendFile fat32 v priv disk desc chain slot n [])
    (hneeded : neededClusters v desc.item.filesize n = 0) :
    fat32.GrownFile v priv disk desc chain slot n disk [] ∧
      ∀ buf, ∃ res, 0 ≤ res ∧ fat32Write v priv disk desc buf n = some ⟨res, priv,
        fat32.writtenDisk v desc chain slot n disk [] buf,
        { desc with item := desc.item.setFilesize (desc.item.filesize + n) },
        desc.pos % v.clusterBytes + min (n - desc.pos % v.clusterBytes)
          (([] : List ℕ).length * v.clusterBytes)⟩ := by
  have hlt := h.size_lt
  have hgrown : fat32.Grown v disk chain disk [] := by
    refine ⟨h.openFile.faultFree, ?_, fun a _ => rfl⟩
    rw [List.append_nil]
    exact h.openFile.file.isChain
  refine ⟨⟨h.openFile, h.pos_eq, hgrown, by simp, hneeded.symm, h.slot_away⟩, fun buf => ?_⟩
  have hgrow : fat32Driver.growLoop v (chain.getD 0 0) (neededClusters v desc.item.filesize n)
      priv disk = some (0, priv, disk) := by
    rw [hneeded]
    rfl
  exact write_of_grown (d := fat32Driver) h.openFile h.writable h.size_pos (by omega) hgrow hgrown
    (by simp) buf

/-- `fat32_add_cluster_to_chain` always fails: it compares the four bytes written with
`2`. -/
lemma fat32AddClusterToChain_fails (priv : FatPrivate) (h : fat32.IsChain v disk chain)
    (hne : chain ≠ []) (hf : disk.FaultFree) :
    ∃ added, fat32Driver.addClusterToChain v priv disk (chain.getD 0 0) = some added ∧
      added.1 < 0 := by
  have hpos := List.length_pos_iff.mpr hne
  have hlast := h.findLast_eq hf (chain.length - 1) 0 (by omega)
  have hlinked : ∀ disk' c val, (fat32.writeFatEntry v disk' c val).1 = 4 := fun _ _ _ => rfl
  rw [FatDriver.addClusterToChain, show fat32Driver.kind = fat32 from rfl, hlast]
  simp only [Option.bind_eq_bind, Option.bind_some, hlinked]
  by_cases hzero : (fat32Driver.getFirstFreeCluster v priv disk).1 = 0
  · rw [if_pos hzero]
    exact ⟨_, rfl, by simp [enodiskspace]⟩
  · rw [if_neg hzero]
    exact ⟨_, rfl, by simp [eio]⟩

/-- `fat32_write` fails when a cluster is needed. -/
lemma AppendFile.fails32 {n : ℕ} (h : AppendFile fat32 v priv disk desc chain slot n [])
    (hneeded : 0 < neededClusters v desc.item.filesize n) (buf : ℕ → UInt8) :
    ∃ r, fat32Write v priv disk desc buf n = some r ∧ r.res < 0 := by
  have hlt := h.size_lt
  obtain ⟨added, hadd, hneg⟩ := fat32AddClusterToChain_fails priv
    h.openFile.file.isChain h.openFile.chain_ne_nil h.openFile.faultFree
  have hgrow : fat32Driver.growLoop v (chain.getD 0 0) (neededClusters v desc.item.filesize n)
      priv disk = some added := by
    obtain ⟨m, hm⟩ : ∃ m, neededClusters v desc.item.filesize n = m + 1 :=
      ⟨neededClusters v desc.item.filesize n - 1, by omega⟩
    rw [hm, FatDriver.growLoop, hadd, Option.bind_some, if_pos hneg]
  refine ⟨⟨added.1, added.2.1, added.2.2, desc, 0⟩, ?_, hneg⟩
  rw [fat32Write, write_of_growLoop (d := fat32Driver) h.openFile h.writable h.size_pos
    (by omega) hgrow, if_pos hneg]

/-- When no cluster is needed, the sizes fit only if there are as many bytes to write as are
in the last cluster. -/
lemma appendFits_nil_iff {filesize n : ℕ} (hne : chain ≠ []) (hn : 0 < n)
    (hneeded : neededClusters v filesize n = 0) :
    AppendFits v chain [] filesize n ↔
      chain.length = filesizeToClusterCount v filesize ∧ n = filesize % v.clusterBytes := by
  refine and_congr_right fun hcount => ?_
  have hpos := List.length_pos_iff.mpr hne
  have hE : chain.length * v.clusterBytes =
      (chain.length - 1) * v.clusterBytes + v.clusterBytes := by
    rw [← Nat.succ_mul, show (chain.length - 1).succ = chain.length by omega]
  have hle : filesize + n ≤ chain.length * v.clusterBytes := by
    rw [neededClusters] at hneeded
    rw [← clusterCount_le_iff]
    omega
  rcases filesize_eq_of_count hne hcount with ⟨hzero, hF⟩ | ⟨hrpos, hF⟩
  · omega
  · constructor
    · rintro (hzero | ⟨hnr, -⟩ | ⟨hhalf, hrn⟩)
      · omega
      · exact hnr
      · omega
    · exact fun hnr => Or.inr (Or.inl ⟨hnr, Or.inl (by omega)⟩)

/-- A write does not change where the file starts. -/
lemma write_firstCluster {d : FatDriver} {buf : ℕ → UInt8} {size : ℤ} {r : WriteResult}
    (h : d.write v priv disk desc buf size = some r) :
    r.desc.item.firstCluster = desc.item.firstCluster := by
  rw [FatDriver.write] at h
  split_ifs at h
  · rw [← Option.some.inj h]
  · rw [← Option.some.inj h]
  · obtain ⟨last, -, h⟩ := Option.bind_eq_some_iff.mp h
    obtain ⟨grown, -, h⟩ := Option.bind_eq_some_iff.mp h
    split_ifs at h
    · rw [← Option.some.inj h]
    · obtain ⟨entry, -, h⟩ := Option.bind_eq_some_iff.mp h
      split_ifs at h
      · rw [← Option.some.inj h]
        exact FatDirectoryItem.firstCluster_setFilesize _ _
      · rw [← Option.some.inj h]
        exact FatDirectoryItem.firstCluster_setFilesize _ _

lemma not_appends_of_firstCluster {k : FatKind} {buf : ℕ → UInt8} {n : ℕ} {r : WriteResult}
    (hfirst : r.desc.item.firstCluster < 2) : ¬ k.Appends v disk desc chain buf n r := by
  rintro ⟨⟨chain', hfile, -⟩, -⟩
  have := (hfile.isChain.onVolume _ (List.mem_of_mem_head? hfile.first)).two_le
  omega

/-- **Appending to a file.**  For every file opened for appending on a volume without faults
and every number of bytes:

* on a FAT16 volume with enough free clusters, the write succeeds, and it leaves the old
  content followed by the bytes of the buffer and reads no byte behind them, whatever the
  buffer holds, if and only if the sizes fit;
* on a FAT32 volume, a write that succeeds does so if and only if it needs a further
  cluster (then it never succeeds), or the chain has as many clusters as the file needs and
  there are as many bytes to write as are in the last cluster;
* to a file without clusters no write does so. -/
theorem fatWrite_appends_iff (v : FatVolume) (priv : FatPrivate) (disk : Disk)
    (desc : FatFileDescriptor) (chain : List ℕ) (slot n : ℕ) :
    (AppendFile fat16 v priv disk desc chain slot n (newClusters v disk desc n) →
      Room v disk desc n →
      (∀ buf, ∃ r, fat16Write v priv disk desc buf n = some r ∧ 0 ≤ r.res) ∧
      ((∀ buf r, fat16Write v priv disk desc buf n = some r → 0 ≤ r.res →
          fat16.Appends v disk desc chain buf n r) ↔
        AppendFits v chain (newClusters v disk desc n) desc.item.filesize n)) ∧
    (AppendFile fat32 v priv disk desc chain slot n [] →
      (∀ buf, ∃ r, fat32Write v priv disk desc buf n = some r) ∧
      ((∀ buf r, fat32Write v priv disk desc buf n = some r → 0 ≤ r.res →
          fat32.Appends v disk desc chain buf n r) ↔
        0 < neededClusters v desc.item.filesize n ∨
          (chain.length = filesizeToClusterCount v desc.item.filesize ∧
            n = desc.item.filesize % v.clusterBytes))) ∧
    (desc.item.firstCluster < 2 → ∀ buf r,
      (fat16Write v priv disk desc buf n = some r → ¬ fat16.Appends v disk desc chain buf n r) ∧
      (fat32Write v priv disk desc buf n = some r →
        ¬ fat32.Appends v disk desc chain buf n r)) := by
  refine ⟨fun h hroom => ?_, fun h => ?_, fun hfirst buf r => ⟨fun hr => ?_, fun hr => ?_⟩⟩
  · obtain ⟨grown, hgrown, hwrite⟩ := h.grown16 hroom
    refine ⟨fun buf => ?_, hgrown.appends_iff_fits h.size_pos ?_ hwrite⟩
    · obtain ⟨res, hres, hr⟩ := hwrite buf
      exact ⟨_, hr, hres⟩
    · have := h.size_lt
      omega
  · rcases Nat.eq_zero_or_pos (neededClusters v desc.item.filesize n) with hneeded | hneeded
    · -- the write stays in the last cluster
      obtain ⟨hgrown, hwrite⟩ := h.grown32 hneeded
      refine ⟨fun buf => ?_, ?_⟩
      · obtain ⟨res, -, hr⟩ := hwrite buf
        exact ⟨_, hr⟩
      · rw [hgrown.appends_iff_fits h.size_pos (by have := h.size_lt; omega) hwrite,
          appendFits_nil_iff h.openFile.chain_ne_nil h.size_pos hneeded]
        exact ⟨Or.inr, fun hc => hc.resolve_left (by omega)⟩
    · -- the write fails
      refine ⟨fun buf => ?_, iff_of_true (fun buf r hr hres => ?_) (Or.inl hneeded)⟩
      · obtain ⟨r, hr, -⟩ := h.fails32 hneeded buf
        exact ⟨r, hr⟩
      · obtain ⟨r', hr', hneg⟩ := h.fails32 hneeded buf
        obtain rfl := Option.some.inj (hr.symm.trans hr')
        omega
  · refine not_appends_of_firstCluster ?_
    rw [write_firstCluster hr]
    exact hfirst
  · refine not_appends_of_firstCluster ?_
    rw [write_firstCluster hr]
    exact hfirst

lemma dataCluster32_three : fat32.DataCluster smallVolume 3 :=
  ⟨⟨by decide, by decide, by decide, by decide⟩, by decide⟩

/-- A write to the file of 100 bytes that stays in its cluster. -/
lemma appendFile_fileDisk {k : FatKind} {n : ℕ} (hon : k.DataCluster smallVolume 3)
    (hlast : k.endOfChain ≤ k.fatEntry smallVolume (fileDisk 100) 3)
    (hdata : 1056 ≤ k.dataPos smallVolume 3) (hn : 0 < n) (hn' : n < 1000) :
    AppendFile k smallVolume (filePrivate 100) (fileDisk 100) (fileDescriptor 100 100) [3] 1024 n
      [] := by
  have hsize : (fileDescriptor 100 100).item.filesize = 100 := by decide
  refine ⟨openFile_fileDisk hon hlast (by decide) (by decide) (by decide), by decide,
    hsize.symm, hn, by omega, ?_⟩
  rintro a ha ha' ⟨c, hc, hca⟩
  obtain rfl := List.mem_singleton.mp hc
  simp only [itemSize] at ha'
  omega

lemma room_fileDisk {n : ℕ} (hneeded : neededClusters smallVolume 100 n = 0) :
    newClusters smallVolume (fileDisk 100) (fileDescriptor 100 100) n = [] ∧
      Room smallVolume (fileDisk 100) (fileDescriptor 100 100) n := by
  have hsize : (fileDescriptor 100 100).item.filesize = 100 := by decide
  have hnew : newClusters smallVolume (fileDisk 100) (fileDescriptor 100 100) n = [] := by
    rw [newClusters, hsize, hneeded, List.take_zero]
  refine ⟨hnew, by decide, ?_, ?_⟩
  · rw [EnoughClusters, hsize, hneeded]
    exact Nat.zero_le _
  · rw [hnew]
    exact fun c hc => absurd hc (by simp)

/-- A hundred bytes appended to a file of a hundred bytes. -/
theorem fatWrite_appends_iff_hundred :
    (∀ buf, ∃ r, fat16Write smallVolume (filePrivate 100) (fileDisk 100)
      (fileDescriptor 100 100) buf (100 : ℕ) = some r ∧ 0 ≤ r.res ∧
      fat16.Appends smallVolume (fileDisk 100) (fileDescriptor 100 100) [3] buf 100 r) ∧
    ∀ buf r, fat32Write smallVolume (filePrivate 100) (fileDisk 100)
      (fileDescriptor 100 100) buf (100 : ℕ) = some r → 0 ≤ r.res →
      fat32.Appends smallVolume (fileDisk 100) (fileDescriptor 100 100) [3] buf 100 r := by
  obtain ⟨h16, h32, -⟩ := fatWrite_appends_iff smallVolume (filePrivate 100) (fileDisk 100)
    (fileDescriptor 100 100) [3] 1024 100
  obtain ⟨hnew, hroom⟩ := room_fileDisk (n := 100) (by decide)
  constructor
  · obtain ⟨hok, hiff⟩ := h16 (by
      rw [hnew]
      exact appendFile_fileDisk dataCluster_three (by decide) (by decide) (by decide) (by decide))
      hroom
    have happends := hiff.mpr ⟨by decide, Or.inr (Or.inl ⟨by decide, Or.inl (by decide)⟩)⟩
    intro buf
    obtain ⟨r, hr, hres⟩ := hok buf
    exact ⟨r, hr, hres, happends buf r hr hres⟩
  · exact (h32 (appendFile_fileDisk dataCluster32_three (by decide) (by decide) (by decide)
      (by decide))).2.mpr (Or.inr ⟨by decide, by decide⟩)

/-- Two hundred ones appended to a file of a hundred bytes: the last hundred are not
stored. -/
theorem not_fatWrite_appends_two_hundred :
    AppendFile fat16 smallVolume (filePrivate 100) (fileDisk 100) (fileDescriptor 100 100) [3]
        1024 200 (newClusters smallVolume (fileDisk 100) (fileDescriptor 100 100) 200) ∧
      Room smallVolume (fileDisk 100) (fileDescriptor 100 100) 200 ∧
      ∃ r, fat16Write smallVolume (filePrivate 100) (fileDisk 100) (fileDescriptor 100 100)
          (fun _ => 1) (200 : ℕ) = some r ∧ 0 ≤ r.res ∧
        ¬ fat16.Appends smallVolume (fileDisk 100) (fileDescriptor 100 100) [3] (fun _ => 1) 200
          r := by
  obtain ⟨hnew, hroom⟩ := room_fileDisk (n := 200) (by decide)
  have hfile : AppendFile fat16 smallVolume (filePrivate 100) (fileDisk 100)
      (fileDescriptor 100 100) [3] 1024 200
      (newClusters smallVolume (fileDisk 100) (fileDescriptor 100 100) 200) := by
    rw [hnew]
    exact appendFile_fileDisk dataCluster_three (by decide) (by decide) (by decide) (by decide)
  refine ⟨hfile, hroom, ?_⟩
  obtain ⟨grown, hgrown, hwrite⟩ := hfile.grown16 hroom
  obtain ⟨res, hres, hr⟩ := hwrite fun _ => 1
  refine ⟨_, hr, hres, ?_⟩
  rw [hgrown.appends_iff (by decide)]
  rintro ⟨⟨-, hcontent⟩, -⟩
  -- byte 200 of the file keeps its value
  have hbyte := hcontent 100 (by decide)
  have hsize : (fileDescriptor 100 100).item.filesize = 100 := by decide
  have hmod : 100 % smallVolume.clusterBytes = 100 := by decide
  have hzero : fat16.contentByte smallVolume (fileDisk 100) [3] 200 = 0 := by decide
  rw [hsize, hgrown.content_last (E := 0) (by decide) (by decide) (by decide), hsize, hmod,
    if_neg (by omega), hzero] at hbyte
  exact absurd hbyte (by decide)

end SerpaeOS
