import SerpaeOS.Fs.Fat.Alloc

/-!
# What a write stores

The bytes of the volume after `fat16_write`, in terms of those before: the clusters that
were added, the directory entry and the data.
-/

namespace SerpaeOS

open Bytes Word

namespace FatKind

variable (k : FatKind) (v : FatVolume)

/-- The bytes with `m` bytes of the buffer from index `p` on stored in clusters, one after
the other. -/
def storeClusters (buf : ℕ → UInt8) (b : ℕ → UInt8) (p m : ℕ) : List ℕ → ℕ → UInt8
  | [] => b
  | c :: cs =>
    storeClusters buf (store b (k.dataPos v c) (slice buf p (min m v.clusterBytes)))
      (p + min m v.clusterBytes) (m - min m v.clusterBytes) cs

variable {k v} {disk : Disk} {chain : List ℕ} {buf b : ℕ → UInt8}

lemma storeClusters_of_not_inClusters {cs : List ℕ} {a : ℕ} (h : ¬ k.InClusters v cs a) :
    ∀ {b : ℕ → UInt8} {p m : ℕ}, k.storeClusters v buf b p m cs a = b a := by
  induction cs with
  | nil => exact fun {_ _ _} => rfl
  | cons c cs ih =>
    intro b p m
    have hrest : ¬ k.InClusters v cs a := by
      rintro ⟨x, hx, ha⟩
      exact h ⟨x, List.mem_cons_of_mem _ hx, ha⟩
    rw [storeClusters, ih hrest]
    refine store_of_lt ?_
    rw [length_slice]
    by_contra hin
    refine h ⟨c, List.mem_cons_self, by omega, ?_⟩
    have := Nat.min_le_right m v.clusterBytes
    omega

lemma storeClusters_zero (cs : List ℕ) (p : ℕ) : k.storeClusters v buf b p 0 cs = b := by
  induction cs generalizing b p with
  | nil => rfl
  | cons c cs ih =>
    rw [storeClusters, Nat.zero_min, Nat.sub_zero, ih]
    exact store_nil

/-- What is stored in the clusters. -/
lemma storeClusters_getD {cs : List ℕ} (hnodup : cs.Nodup) (h2 : ∀ c ∈ cs, 2 ≤ c) :
    ∀ {b : ℕ → UInt8} {p m i j : ℕ}, i < cs.length → j < v.clusterBytes →
      k.storeClusters v buf b p m cs (k.dataPos v (cs.getD i 0) + j) =
        if i * v.clusterBytes + j < m then buf (p + i * v.clusterBytes + j)
        else b (k.dataPos v (cs.getD i 0) + j) := by
  induction cs with
  | nil => exact fun {_ _ _ _ _} hi => absurd hi (by simp)
  | cons c cs ih =>
    intro b p m i j hi hj
    have hc2 := h2 c List.mem_cons_self
    have hcs2 : ∀ x ∈ cs, 2 ≤ x := fun x hx => h2 x (List.mem_cons_of_mem _ hx)
    obtain ⟨hnotin, hcs⟩ := List.nodup_cons.mp hnodup
    rw [storeClusters]
    cases i with
    | zero =>
      -- in the first cluster, which the others leave alone
      rw [List.getD_cons_zero, storeClusters_of_not_inClusters]
      · rw [Nat.zero_mul, Nat.zero_add, Nat.add_zero]
        by_cases hjm : j < m
        · rw [if_pos hjm, store_add (by rw [length_slice]; omega),
            getD_slice (by omega)]
        · rw [if_neg hjm, store_of_lt (by rw [length_slice]; omega)]
      · rintro ⟨x, hx, ha⟩
        have hne : c ≠ x := fun hc => hnotin (hc ▸ hx)
        rcases dataPos_ne (k := k) (v := v) hc2 (hcs2 x hx) hne with h | h
        · omega
        · omega
    | succ i =>
      rw [List.length_cons] at hi
      have hmem : cs.getD i 0 ∈ cs := IsChain.getD_mem (by omega)
      have hne : c ≠ cs.getD i 0 := fun hc => hnotin (hc ▸ hmem)
      have hb : store b (k.dataPos v c) (slice buf p (min m v.clusterBytes))
          (k.dataPos v (cs.getD i 0) + j) = b (k.dataPos v (cs.getD i 0) + j) := by
        refine store_of_lt ?_
        rw [length_slice]
        rcases dataPos_ne (k := k) (v := v) hc2 (hcs2 _ hmem) hne with h | h
        · omega
        · omega
      rw [List.getD_cons_succ, ih hcs hcs2 (by omega) hj, hb, Nat.succ_mul]
      by_cases hm : i * v.clusterBytes + v.clusterBytes + j < m
      · rw [if_pos hm, if_pos (by omega), Nat.min_eq_right (by omega)]
        congr 1
        omega
      · rw [if_neg hm, if_neg (by omega)]

/-- The table is the same when all bytes of it are. -/
lemma IsChain.congr_table (h : k.IsChain v disk chain) (hdata : ∀ c ∈ chain, k.DataCluster v c)
    {disk' : Disk} (heq : ∀ a < v.tableEnd, disk'.byte a = disk.byte a) :
    k.IsChain v disk' chain := by
  refine h.congr fun c hc => fatEntry_congr fun a _ ha => heq a ?_
  have := (hdata c hc).entry_le
  omega

/-- The loop stores the rest of the buffer in the clusters that follow in the chain. -/
lemma writeLoop_eq (buf : ℕ → UInt8) (hdata : ∀ c ∈ chain, k.DataCluster v c) :
    ∀ (calls : ℕ) {disk : Disk} {i : ℕ} {res : ℤ} (p m : ℕ), k.IsChain v disk chain →
      disk.FaultFree → i < chain.length → m ≤ calls → 0 ≤ res →
      ∃ res', 0 ≤ res' ∧ k.writeLoop v buf calls disk (chain.getD i 0) res p m =
        (res', { disk with byte := k.storeClusters v buf disk.byte p m (chain.drop (i + 1)) },
          p + min m ((chain.length - (i + 1)) * v.clusterBytes)) := by
  intro calls
  induction calls with
  | zero =>
    intro disk i res p m _ _ _ hm hres
    obtain rfl : m = 0 := by omega
    refine ⟨res, hres, ?_⟩
    rw [writeLoop, storeClusters_zero, Nat.zero_min, Nat.add_zero]
  | succ calls ih =>
    intro disk i res p m h hf hi hm hres
    have hon := h.onVolume_getD hi
    rw [writeLoop]
    rcases Nat.eq_zero_or_pos m with rfl | hpos
    · refine ⟨res, hres, ?_⟩
      rw [if_pos (by simp), storeClusters_zero, Nat.zero_min, Nat.add_zero]
    rw [if_neg (by omega), entryCode_eq hf hon.tablePos_lt]
    rcases Nat.lt_or_ge (i + 1) chain.length with hlt | hge
    · -- there is a next cluster
      have hon' := h.onVolume_getD hlt
      have hmax := k.maxCluster_lt
      have hle := hon'.le_max
      have hdlt := hon'.data_lt
      have hB : 0 < v.clusterBytes := v.clusterBytes_pos
      rw [h.next i hlt]
      simp only
      rw [if_neg (by omega), hon'.clusterPos_eq, i32_of_lt (by omega) (by omega),
        diskstreamerWrite_ok hf]
      have htotal : (if (m : ℤ) ≤ v.clusterBytes then (m : ℤ).toNat else v.clusterBytes) =
          min m v.clusterBytes := by
        split_ifs with hmB
        · rw [Int.toNat_natCast]
          omega
        · omega
      have hcast : (m : ℤ) - (min m v.clusterBytes : ℕ) = ((m - min m v.clusterBytes : ℕ) : ℤ) := by
        omega
      simp only [htotal, length_slice, hcast]
      have hstart := dataStart_le (k := k) (v := v) (chain.getD (i + 1) 0)
      have htable := tableEnd_le (k := k) (v := v)
      generalize hbytes : store disk.byte (k.dataPos v (chain.getD (i + 1) 0))
        (slice buf p (min m v.clusterBytes)) = bytes
      have hchain : k.IsChain v { disk with byte := bytes } chain := by
        refine h.congr_table hdata fun a ha => ?_
        rw [← hbytes]
        exact store_of_lt (by omega)
      obtain ⟨res', hres', hloop⟩ := ih (p + min m v.clusterBytes) (m - min m v.clusterBytes)
        hchain ⟨hf.read_ok, hf.write_ok⟩ hlt (by omega)
        (show (0 : ℤ) ≤ (min m v.clusterBytes : ℕ) by omega)
      have hdrop : chain.drop (i + 1) = chain.getD (i + 1) 0 :: chain.drop (i + 1 + 1) := by
        rw [List.getD_eq_getElem _ _ hlt]
        exact List.drop_eq_getElem_cons hlt
      refine ⟨res', hres', ?_⟩
      rw [hloop, hdrop, storeClusters, hbytes]
      congr 2
      have hrest : chain.length - (i + 1) = chain.length - (i + 1 + 1) + 1 := by omega
      rw [hrest, Nat.succ_mul]
      omega
    · -- the chain ends here
      have hlast := h.last i (by omega)
      have hdrop : chain.drop (i + 1) = [] := List.drop_eq_nil_iff.mpr hge
      refine ⟨res, hres, ?_⟩
      simp only [if_pos hlast]
      rw [hdrop, storeClusters, show chain.length - (i + 1) = 0 by omega,
        Nat.zero_mul, Nat.min_zero, Nat.add_zero]

/-- With nothing left to write the loop does nothing. -/
lemma writeLoop_nonpos {calls : ℕ} {cluster : ℕ} {res : ℤ} {p : ℕ} {size : ℤ} (h : size ≤ 0) :
    k.writeLoop v buf calls disk cluster res p size = (res, disk, p) := by
  cases calls with
  | zero => rfl
  | succ calls => rw [writeLoop, if_pos h]

/-! ## Sizes -/

lemma le_clusterCount_mul (v : FatVolume) (filesize : ℕ) :
    filesize ≤ filesizeToClusterCount v filesize * v.clusterBytes := by
  have hB : 0 < v.clusterBytes := v.clusterBytes_pos
  have hdiv := Nat.div_add_mod filesize v.clusterBytes
  have hlt := Nat.mod_lt filesize hB
  rw [Nat.mul_comm] at hdiv
  rw [filesizeToClusterCount, Nat.add_mul]
  split_ifs with h
  · omega
  · omega

lemma clusterCount_mul_lt (v : FatVolume) (filesize : ℕ) :
    filesizeToClusterCount v filesize * v.clusterBytes < filesize + v.clusterBytes := by
  have hB : 0 < v.clusterBytes := v.clusterBytes_pos
  have hdiv := Nat.div_add_mod filesize v.clusterBytes
  rw [Nat.mul_comm] at hdiv
  rw [filesizeToClusterCount, Nat.add_mul]
  split_ifs with h
  · omega
  · omega

/-- A file fits into a number of clusters exactly when it needs no more. -/
lemma clusterCount_le_iff (v : FatVolume) (filesize n : ℕ) :
    filesizeToClusterCount v filesize ≤ n ↔ filesize ≤ n * v.clusterBytes := by
  have hB : 0 < v.clusterBytes := v.clusterBytes_pos
  constructor
  · intro h
    exact (le_clusterCount_mul v filesize).trans (Nat.mul_le_mul_right _ h)
  · intro h
    have hlt := clusterCount_mul_lt v filesize
    by_contra hgt
    have : (n + 1) * v.clusterBytes ≤ filesizeToClusterCount v filesize * v.clusterBytes :=
      Nat.mul_le_mul_right _ (by omega)
    rw [Nat.succ_mul] at this
    omega

/-- The number of clusters that a write adds to a file. -/
def neededClusters (v : FatVolume) (filesize n : ℕ) : ℕ :=
  filesizeToClusterCount v (filesize + n) - filesizeToClusterCount v filesize

/-- Clusters that all lie below the position `2 ^ 31` have room there side by side. -/
lemma length_mul_lt_of_near (hnodup : chain.Nodup) (h2 : ∀ c ∈ chain, 2 ≤ c)
    (hnear : ∀ c ∈ chain, (c - 1) * v.clusterBytes < 2 ^ 31) :
    chain.length * v.clusterBytes < 2 ^ 31 := by
  have hB : 0 < v.clusterBytes := v.clusterBytes_pos
  have hsub : chain ⊆ List.range' 2 ((2 ^ 31 - 1) / v.clusterBytes) := by
    intro c hc
    have hle := (Nat.le_div_iff_mul_le hB).mpr (Nat.le_sub_one_of_lt (hnear c hc))
    have := h2 c hc
    rw [List.mem_range'_1]
    omega
  have hlen := (List.subperm_of_subset hnodup hsub).length_le
  rw [List.length_range'] at hlen
  have := (Nat.le_div_iff_mul_le hB).mp hlen
  omega

lemma IsChain.length_mul_lt (h : k.IsChain v disk chain) :
    chain.length * v.clusterBytes < 2 ^ 31 := by
  refine length_mul_lt_of_near h.nodup (fun c hc => (h.onVolume c hc).two_le) fun c hc => ?_
  have h2 := (h.onVolume c hc).two_le
  have hlt := (h.onVolume c hc).data_lt
  rw [dataPos_eq] at hlt
  have hsucc : c - 1 = c - 2 + 1 := by omega
  rw [hsucc, Nat.succ_mul]
  omega

/-! ## The disk after a write -/

/-- The driver finds the directory entry of a path at a position, whatever the table entries
of the file and of free clusters hold. -/
def FoundAt (k : FatKind) (v : FatVolume) (priv : FatPrivate) (disk : Disk) (chain : List ℕ)
    (path : List (List UInt8)) (slot : ℕ) : Prop :=
  ∀ disk' : Disk, disk'.FaultFree → (∀ a, v.tableEnd ≤ a → disk'.byte a = disk.byte a) →
    (∀ c, c ∉ chain → k.fatEntry v disk c ≠ 0 → k.fatEntry v disk' c = k.fatEntry v disk c) →
    k.entryLocation v disk' priv.rootDirectory path = some (some slot)

/-- An open file with the clusters of its chain and the position of its directory entry. -/
structure OpenFile (k : FatKind) (v : FatVolume) (priv : FatPrivate) (disk : Disk)
    (desc : FatFileDescriptor) (chain : List ℕ) (slot : ℕ) : Prop where
  faultFree : disk.FaultFree
  file : k.FileChain v disk desc.item chain
  data : ∀ c ∈ chain, k.DataCluster v c
  found : k.FoundAt v priv disk chain desc.path slot
  slot_table : v.tableEnd ≤ slot
  slot_lt : slot + itemSize < 2 ^ 31

/-- The bytes after the directory entry and the data were stored: as many bytes as the
position lies behind the beginning of its cluster go to the last cluster, the rest to the
new ones. -/
def writtenBytes (k : FatKind) (v : FatVolume) (b : ℕ → UInt8) (item : FatDirectoryItem)
    (slot last : ℕ) (new : List ℕ) (buf : ℕ → UInt8) (s n : ℕ) : ℕ → UInt8 :=
  k.storeClusters v buf
    (store (store b slot (slice item.raw 0 itemSize)) (k.dataPos v last + s) (slice buf 0 s))
    s (n - s) new

variable {priv : FatPrivate} {desc : FatFileDescriptor} {slot : ℕ}

lemma OpenFile.chain_ne_nil (h : k.OpenFile v priv disk desc chain slot) : chain ≠ [] := by
  rintro rfl
  exact absurd h.file.first (by simp)

lemma OpenFile.chain_getD (h : k.OpenFile v priv disk desc chain slot) :
    chain.getD 0 0 = desc.item.firstCluster := by
  have := h.file.first
  cases chain with
  | nil => simp at this
  | cons c chain => simpa using this

lemma OpenFile.filesize_lt (h : k.OpenFile v priv disk desc chain slot) :
    desc.item.filesize < 2 ^ 31 :=
  lt_of_le_of_lt h.file.filesize_le h.file.isChain.length_mul_lt

lemma OpenFile.firstCluster_mod (h : k.OpenFile v priv disk desc chain slot) :
    desc.item.firstCluster % 2 ^ (8 * k.entrySize) = chain.getD 0 0 := by
  have hmem := IsChain.getD_mem (List.length_pos_iff.mpr h.chain_ne_nil)
  have hle := (h.file.isChain.onVolume _ hmem).le_max
  have hlt := k.maxCluster_lt.trans k.endOfChain_lt
  have hpow : (256 : ℕ) ^ k.entrySize = 2 ^ (8 * k.entrySize) := by rw [Nat.pow_mul]
  rw [← hpow, ← h.chain_getD, Nat.mod_eq_of_lt (lt_of_le_of_lt hle hlt)]

/-- The number of clusters to add, as the drivers compute it. -/
lemma needed_eq {filesize n : ℕ} (hF : filesize < 2 ^ 31) (hBlt : v.clusterBytes < 2 ^ 31)
    (hn : n < 2 ^ 31) :
    (if u32 ((filesize : ℤ) + n) >
        u32 ((filesizeToClusterCount v filesize : ℤ) * v.clusterBytes) then
      u32 ((filesizeToClusterCount v (u32 ((filesize : ℤ) + n)) : ℤ) -
        filesizeToClusterCount v filesize)
    else 0) = neededClusters v filesize n := by
  have hB : 0 < v.clusterBytes := v.clusterBytes_pos
  have hcount := clusterCount_mul_lt v filesize
  have hle := (clusterCount_le_iff v (filesize + n) (filesize + n)).mpr
    (Nat.le_mul_of_pos_right _ hB)
  have hiff := clusterCount_le_iff v (filesize + n) (filesizeToClusterCount v filesize)
  rw [← Nat.cast_add, ← Nat.cast_mul, u32_of_lt (by omega), u32_of_lt (by omega),
    neededClusters]
  split_ifs with hgt
  · have hlt : filesizeToClusterCount v filesize < filesizeToClusterCount v (filesize + n) := by
      by_contra hc
      exact absurd (hiff.mp (by omega)) (by omega)
    rw [← Nat.cast_sub hlt.le, u32_of_lt (by omega)]
  · have := hiff.mpr (by omega)
    omega

/-- Storing the data in the last cluster of a chain and the clusters that were appended to
it. -/
lemma writeData_eq {d : FatDriver} {new : List ℕ} {s n : ℕ} (priv : FatPrivate)
    (desc : FatFileDescriptor) (buf : ℕ → UInt8)
    (h : d.kind.IsChain v disk (chain ++ new)) (hdata : ∀ c ∈ chain ++ new, d.kind.DataCluster v c)
    (hne : chain ≠ []) (hf : disk.FaultFree) (hs : desc.pos % v.clusterBytes = s) :
    ∃ res, 0 ≤ res ∧ d.writeData v priv disk desc buf n (lastCluster chain) =
      ⟨res, priv, { disk with
        byte := d.kind.storeClusters v buf (store disk.byte
          (d.kind.dataPos v (lastCluster chain) + s) (slice buf 0 s)) s (n - s) new },
        desc, s + min (n - s) (new.length * v.clusterBytes)⟩ := by
  have hpos := List.length_pos_iff.mpr hne
  have hB : 0 < v.clusterBytes := v.clusterBytes_pos
  have hsB : s < v.clusterBytes := by
    rw [← hs]
    exact Nat.mod_lt _ hB
  have hmem : lastCluster chain ∈ chain ++ new := List.mem_append_left _ (lastCluster_mem hne)
  have hon := h.onVolume _ hmem
  have hlt := hon.data_lt
  have hstart := dataStart_le (k := d.kind) (v := v) (lastCluster chain)
  have htable := tableEnd_le (k := d.kind) (v := v)
  have hfirst : diskstreamerWrite disk
      (i32 (u32 (d.kind.clusterPos v (lastCluster chain) + (s : ℕ)))) (slice buf 0 s) =
        ((s : ℤ), { disk with
          byte := store disk.byte (d.kind.dataPos v (lastCluster chain) + s)
            (slice buf 0 s) }) := by
    rw [hon.clusterPos_eq, ← Nat.cast_add, u32_of_lt (by omega), i32_of_lt (by omega) (by omega),
      diskstreamerWrite_ok hf, length_slice]
  simp only [FatDriver.writeData, hs, hfirst, Int.toNat_natCast]
  generalize hbytes : store disk.byte (d.kind.dataPos v (lastCluster chain) + s) (slice buf 0 s)
    = bytes
  have hchain : d.kind.IsChain v { disk with byte := bytes } (chain ++ new) := by
    refine h.congr_table hdata fun a ha => ?_
    rw [← hbytes]
    exact store_of_lt (by omega)
  rcases Nat.lt_or_ge n s with hlt' | hge
  · refine ⟨s, by omega, ?_⟩
    rw [writeLoop_nonpos (by omega), show n - s = 0 by omega, storeClusters_zero, Nat.zero_min,
      Nat.add_zero]
  · have hlast : (chain ++ new).getD (chain.length - 1) 0 = lastCluster chain := by
      rw [List.getD_append _ _ _ _ (by omega), lastCluster]
    obtain ⟨res, hres, hloop⟩ := writeLoop_eq buf hdata n (i := chain.length - 1)
      s (n - s) hchain ⟨hf.read_ok, hf.write_ok⟩
      (by rw [List.length_append]; omega) (by omega) (by omega : (0 : ℤ) ≤ s)
    have hsucc : chain.length - 1 + 1 = chain.length := by omega
    rw [hlast, hsucc, List.drop_left, List.length_append, Nat.add_sub_cancel_left,
      Nat.cast_sub hge] at hloop
    refine ⟨res, hres, ?_⟩
    rw [hloop]

/-- Bytes of table entries lie in the table. -/
lemma InEntries.lt_tableEnd {l : List ℕ} (hdata : ∀ c ∈ l, k.DataCluster v c) {a : ℕ}
    (h : k.InEntries v l a) : a < v.tableEnd := by
  obtain ⟨c, hc, ha⟩ := h
  have := (hdata c hc).entry_le
  omega

/-- Bytes of clusters lie in the data area. -/
lemma InClusters.tableEnd_le {l : List ℕ} {a : ℕ} (h : k.InClusters v l a) : v.tableEnd ≤ a := by
  obtain ⟨c, hc, ha⟩ := h
  have := dataStart_le (k := k) (v := v) c
  have := FatKind.tableEnd_le (k := k) (v := v)
  omega

/-- After clusters were added to the file, its directory entry is still found. -/
lemma OpenFile.found_grown (h : k.OpenFile v priv disk desc chain slot) {disk' : Disk}
    {new : List ℕ} (hnew : ∀ c ∈ new, k.DataCluster v c ∧ k.fatEntry v disk c = 0)
    (hgrown : k.Grown v disk chain disk' new) :
    k.entryLocation v disk' priv.rootDirectory desc.path = some (some slot) := by
  have hdata : ∀ c ∈ chain ++ new, k.DataCluster v c := by
    intro c hc
    rcases List.mem_append.mp hc with hc | hc
    · exact h.data c hc
    · exact (hnew c hc).1
  refine h.found disk' hgrown.faultFree (fun a ha => ?_) fun c hc hused => ?_
  · refine hgrown.frame a fun hin => ?_
    have := hin.lt_tableEnd hdata
    omega
  · refine fatEntry_congr fun a ha ha' => hgrown.frame a ?_
    rintro ⟨x, hx, hx'⟩
    have hne : c ≠ x := by
      rintro rfl
      rcases List.mem_append.mp hx with hx | hx
      · exact hc hx
      · exact hused (hnew c hx).2
    rcases Nat.lt_or_gt_of_ne hne with hlt | hlt
    · have := tablePos_lt (k := k) (v := v) hlt
      omega
    · have := tablePos_lt (k := k) (v := v) hlt
      omega

/-- Replacing the directory entry at its position. -/
lemma writeDirectoryEntry_eq (hf : disk.FaultFree) {root : FatDirectory}
    {path : List (List UInt8)} (hloc : k.entryLocation v disk root path = some (some slot))
    (hlt : slot + itemSize < 2 ^ 31) (item : FatDirectoryItem) :
    k.writeDirectoryEntry v disk root path item =
      some (32, { disk with byte := store disk.byte slot (slice item.raw 0 itemSize) }) := by
  rw [writeDirectoryEntry, hloc, Option.map_some]
  simp only
  rw [i32_of_lt (by omega) (by omega), diskstreamerWrite_ok hf, length_slice]
  rfl

end FatKind

open FatKind

variable {v : FatVolume} {disk : Disk} {chain : List ℕ} {priv : FatPrivate}
  {desc : FatFileDescriptor} {slot : ℕ}

/-- The clusters that `fat16_write` takes for a write of `n` bytes. -/
def newClusters (v : FatVolume) (disk : Disk) (desc : FatFileDescriptor) (n : ℕ) : List ℕ :=
  (fat16.freeClusters v disk).take (neededClusters v desc.item.filesize n)

/-- There are enough free clusters for the write. -/
def EnoughClusters (v : FatVolume) (disk : Disk) (desc : FatFileDescriptor) (n : ℕ) : Prop :=
  neededClusters v desc.item.filesize n ≤ (fat16.freeClusters v disk).length

instance (n : ℕ) : Decidable (EnoughClusters v disk desc n) :=
  inferInstanceAs (Decidable (_ ≤ _))

lemma mem_newClusters {n c : ℕ} (hc : c ∈ newClusters v disk desc n) :
    fat16.fatEntry v disk c = 0 :=
  (mem_freeClusters.mp (List.mem_of_mem_take hc)).2

lemma EnoughClusters.length_eq {n : ℕ} (h : EnoughClusters v disk desc n) :
    (newClusters v disk desc n).length = neededClusters v desc.item.filesize n := by
  rw [newClusters, List.length_take]
  exact Nat.min_eq_left h

/-- The part of a write after the chain of the file has grown. -/
lemma write_of_last {d : FatDriver} {first last n : ℕ} (hF : desc.item.filesize < 2 ^ 31)
    (hB : v.clusterBytes < 2 ^ 31)
    (hfirst : desc.item.firstCluster % 2 ^ (8 * d.kind.entrySize) = first)
    (hlast : d.kind.findLastClusterOfChain v disk first = some last)
    (hmode : desc.mode &&& fileModeWrite ≠ 0) (hn : 0 < n) (hn' : n < 2 ^ 31)
    {grown : ℤ × FatPrivate × Disk}
    (hgrow : d.growLoop v first (neededClusters v desc.item.filesize n) priv disk = some grown)
    (buf : ℕ → UInt8) :
    d.write v priv disk desc buf n =
      if grown.1 < 0 then some ⟨grown.1, grown.2.1, grown.2.2, desc, 0⟩
      else
        (d.kind.writeDirectoryEntry v grown.2.2 grown.2.1.rootDirectory desc.path
          (desc.item.setFilesize (desc.item.filesize + n))).bind fun entry =>
            if entry.1 ≤ 0 then some ⟨entry.1, grown.2.1, entry.2,
              { desc with item := desc.item.setFilesize (desc.item.filesize + n) }, 0⟩
            else some (d.writeData v grown.2.1 entry.2
              { desc with item := desc.item.setFilesize (desc.item.filesize + n) } buf n
              last) := by
  have hu32 : u32 ((desc.item.filesize : ℤ) + n) = desc.item.filesize + n := by
    rw [← Nat.cast_add, u32_of_lt (by omega)]
  have hneeded := needed_eq hF hB hn'
  rw [FatDriver.write, if_neg (by omega), if_neg hmode, hfirst]
  simp only [hlast, Option.bind_some]
  rw [hneeded, hgrow, Option.bind_some]
  simp only [hu32]

lemma write_of_growLoop {d : FatDriver} (h : d.kind.OpenFile v priv disk desc chain slot)
    (hmode : desc.mode &&& fileModeWrite ≠ 0) {n : ℕ} (hn : 0 < n) (hn' : n < 2 ^ 31)
    {grown : ℤ × FatPrivate × Disk}
    (hgrow : d.growLoop v (chain.getD 0 0) (neededClusters v desc.item.filesize n) priv disk =
      some grown) (buf : ℕ → UInt8) :
    d.write v priv disk desc buf n =
      if grown.1 < 0 then some ⟨grown.1, grown.2.1, grown.2.2, desc, 0⟩
      else
        (d.kind.writeDirectoryEntry v grown.2.2 grown.2.1.rootDirectory desc.path
          (desc.item.setFilesize (desc.item.filesize + n))).bind fun entry =>
            if entry.1 ≤ 0 then some ⟨entry.1, grown.2.1, entry.2,
              { desc with item := desc.item.setFilesize (desc.item.filesize + n) }, 0⟩
            else some (d.writeData v grown.2.1 entry.2
              { desc with item := desc.item.setFilesize (desc.item.filesize + n) } buf n
              (lastCluster chain)) := by
  have hpos := List.length_pos_iff.mpr h.chain_ne_nil
  have hB : v.clusterBytes < 2 ^ 31 := by
    have := (h.file.isChain.onVolume _ (IsChain.getD_mem hpos)).data_lt
    omega
  have hlast := h.file.isChain.findLast_eq h.faultFree (chain.length - 1) 0 (by omega)
  exact write_of_last h.filesize_lt hB h.firstCluster_mod hlast hmode hn hn' hgrow buf

/-- A write whose clusters were added stores the directory entry and the data. -/
lemma write_of_grown {d : FatDriver} (h : d.kind.OpenFile v priv disk desc chain slot)
    (hmode : desc.mode &&& fileModeWrite ≠ 0) {n : ℕ} (hn : 0 < n) (hn' : n < 2 ^ 31)
    {new : List ℕ} {grown : Disk}
    (hgrow : d.growLoop v (chain.getD 0 0) (neededClusters v desc.item.filesize n) priv disk =
      some (0, priv, grown))
    (hgrown : d.kind.Grown v disk chain grown new)
    (hnew : ∀ c ∈ new, d.kind.DataCluster v c ∧ d.kind.fatEntry v disk c = 0)
    (buf : ℕ → UInt8) :
    ∃ res, 0 ≤ res ∧ d.write v priv disk desc buf n = some ⟨res, priv, { grown with
        byte := d.kind.writtenBytes v grown.byte
          (desc.item.setFilesize (desc.item.filesize + n)) slot (lastCluster chain)
          new buf (desc.pos % v.clusterBytes) n },
        { desc with item := desc.item.setFilesize (desc.item.filesize + n) },
        desc.pos % v.clusterBytes + min (n - desc.pos % v.clusterBytes)
          (new.length * v.clusterBytes)⟩ := by
  have hfound := h.found_grown hnew hgrown
  have hall : ∀ c ∈ chain ++ new, d.kind.DataCluster v c := by
    intro c hc
    rcases List.mem_append.mp hc with hc | hc
    · exact h.data c hc
    · exact (hnew c hc).1
  have hentry := writeDirectoryEntry_eq hgrown.faultFree hfound h.slot_lt
    (desc.item.setFilesize (desc.item.filesize + n))
  have hchain : d.kind.IsChain v { grown with
      byte := store grown.byte slot (slice (desc.item.setFilesize (desc.item.filesize + n)).raw 0
        itemSize) } (chain ++ new) := by
    refine hgrown.isChain.congr_table hall fun a ha => store_of_lt ?_
    have := h.slot_table
    omega
  obtain ⟨res, hres, hdata⟩ := writeData_eq (d := d) (n := n) priv
    { desc with item := desc.item.setFilesize (desc.item.filesize + n) } buf hchain hall
    h.chain_ne_nil ⟨hgrown.faultFree.read_ok, hgrown.faultFree.write_ok⟩ rfl
  refine ⟨res, hres, ?_⟩
  rw [write_of_growLoop h hmode hn hn' hgrow]
  simp only [lt_irrefl, if_false, hentry, Option.bind_some]
  rw [if_neg (by decide), hdata]
  rfl

/-- **What `fat16_write` does** to the volume when the file may be written: clusters are
added as far as there are any, and if there were enough, the directory entry and the data
are stored. -/
lemma fat16Write_eq (h : fat16.OpenFile v priv disk desc chain slot)
    (hmode : desc.mode &&& fileModeWrite ≠ 0) (hsearch : fat16.SearchBelow v) {n : ℕ}
    (hn : 0 < n) (hn' : n < 2 ^ 31)
    (hdata : ∀ c ∈ newClusters v disk desc n, fat16.DataCluster v c) :
    ∃ grown, fat16.Grown v disk chain grown (newClusters v disk desc n) ∧
      (EnoughClusters v disk desc n → ∀ buf, ∃ res, 0 ≤ res ∧
        fat16Write v priv disk desc buf n = some ⟨res, priv, { grown with
          byte := fat16.writtenBytes v grown.byte
            (desc.item.setFilesize (desc.item.filesize + n)) slot (lastCluster chain)
            (newClusters v disk desc n) buf (desc.pos % v.clusterBytes) n },
          { desc with item := desc.item.setFilesize (desc.item.filesize + n) },
          desc.pos % v.clusterBytes + min (n - desc.pos % v.clusterBytes)
            ((newClusters v disk desc n).length * v.clusterBytes)⟩) ∧
      (¬ EnoughClusters v disk desc n → ∀ buf,
        fat16Write v priv disk desc buf n = some ⟨-enodiskspace, priv, grown, desc, 0⟩) := by
  obtain ⟨grown, hgrow, hgrown⟩ := fat16GrowLoop_eq priv hsearch
    (neededClusters v desc.item.filesize n) h.file.isChain h.chain_ne_nil h.faultFree hdata
  refine ⟨grown, hgrown, fun henough => ?_, fun hfull buf => ?_⟩
  · rw [EnoughClusters] at henough
    rw [if_pos henough] at hgrow
    exact write_of_grown (d := fat16Driver) h hmode hn hn' hgrow hgrown
      fun c hc => ⟨hdata c hc, mem_newClusters hc⟩
  · rw [EnoughClusters] at hfull
    rw [if_neg hfull] at hgrow
    have hneg : -enodiskspace < 0 := by decide
    rw [fat16Write, write_of_growLoop (d := fat16Driver) h hmode hn hn' hgrow, if_pos hneg]

end SerpaeOS
