import SerpaeOS.Fs.Fat.WriteFrame
import SerpaeOS.Lib.StepRun

/-!
# The capacity of a file

`fat16_write` computes from the size of the file how many clusters it has to add, and never
looks at the length of the chain.  A chain that is long enough for the size stays so along any
number of writes, and stays linked, as long as the entries of its clusters lie in the table: the
search for free clusters goes up to the number of sectors of the volume divided by the size of a
cluster, which is more than there are clusters, and takes what it reads behind the table for
entries as well.
-/

namespace SerpaeOS

open Bytes Word StepRun FatKind

/-- The end of the last copy of the table, where the root directory starts. -/
def FatVolume.tablesEnd (v : FatVolume) : ℕ :=
  (v.reservedSectors + v.fatCopies * v.sectorsPerFat) * v.sectorSize

/-- The start of the first copy of the table. -/
def FatVolume.tablesStart (v : FatVolume) : ℕ := v.reservedSectors * v.sectorSize

/-- A volume smaller than `2 ^ 31` bytes with room for two clusters. -/
structure SmallVolume (v : FatVolume) : Prop where
  sectors_lt : v.sectorsBig * v.sectorSize < 2 ^ 31
  data_lt : fat16.dataStart v + 2 * v.clusterBytes < 2 ^ 31
  four_le : 4 ≤ v.clusterBytes

/-- A cluster of a volume smaller than `2 ^ 31` bytes with an entry in front of the root
directory. -/
structure TableCluster (v : FatVolume) (c : ℕ) : Prop where
  two_le : 2 ≤ c
  lt_bad : c < 0xFFF7
  near : (c - 1) * v.clusterBytes < 2 ^ 31
  in_tables : fat16.tablePos v c + 2 ≤ v.tablesEnd

/-- An open file on a mounted volume. -/
structure FatFileState where
  priv : FatPrivate
  disk : Disk
  desc : FatFileDescriptor

/-- The chain of the file is not empty, acyclic and terminated, and its clusters have room for
as many bytes as the descriptor says. -/
def HasCapacity (v : FatVolume) (s : FatFileState) : Prop :=
  ∃ chain, chain ≠ [] ∧ s.desc.item.firstCluster % 2 ^ 16 = chain.getD 0 0 ∧
    fat16.Linked v s.disk chain ∧ (∀ c ∈ chain, TableCluster v c) ∧
    s.desc.item.filesize ≤ chain.length * v.clusterBytes

/-- A call of `fat16_write`. -/
structure FatWriteCall where
  buf : ℕ → UInt8
  size : ℕ

def writeStep (v : FatVolume) (s : FatFileState) (call : FatWriteCall) : Option FatFileState :=
  (fat16Write v s.priv s.disk s.desc call.buf call.size).map fun r => ⟨r.priv, r.disk, r.desc⟩

/-- The size is positive and does not overflow, and the search only finds cluster numbers below
that of a bad cluster. -/
structure WriteLegal (v : FatVolume) (s : FatFileState) (call : FatWriteCall) : Prop where
  size_pos : 0 < call.size
  size_lt : call.size < 2 ^ 31
  filesize_lt : s.desc.item.filesize + call.size < 2 ^ 32
  free_lt : ∀ c ∈ newClusters v s.disk s.desc call.size, c < 0xFFF7

/-- The disks differ at most in the entries of a cluster and of free clusters. -/
structure TakesFree (v : FatVolume) (last : ℕ) (disk disk' : Disk) : Prop where
  faultFree : disk'.FaultFree
  byte_eq : ∀ a, a < v.tablesStart ∨ v.tablesEnd ≤ a → disk'.byte a = disk.byte a
  entry_eq : ∀ c, c ≠ last → fat16.fatEntry v disk c ≠ 0 →
    fat16.fatEntry v disk' c = fat16.fatEntry v disk c

/-- The entries of the clusters that are taken lie in front of the root directory, and the
directory entry of the file is not looked up in the tables, whatever the file's last cluster and
the free clusters are linked to. -/
structure WriteApart (v : FatVolume) (s : FatFileState) (call : FatWriteCall) : Prop where
  clusters : ∀ c ∈ newClusters v s.disk s.desc call.size, fat16.tablePos v c + 2 ≤ v.tablesEnd
  entry : ∀ last disk slot,
    fat16.findLastClusterOfChain v s.disk (s.desc.item.firstCluster % 2 ^ 16) = some last →
    TakesFree v last s.disk disk →
    fat16.entryLocation v disk s.priv.rootDirectory s.desc.path = some (some slot) →
      (v.tablesEnd : ℤ) ≤ i32 slot ∨ i32 slot + itemSize ≤ v.tablesStart

variable {v : FatVolume} {disk disk' : Disk} {chain : List ℕ} {c : ℕ} {priv : FatPrivate}

/-! ## The tables -/

/-- The disks do not differ in the tables. -/
structure SameTables (v : FatVolume) (disk disk' : Disk) : Prop where
  faultFree : disk'.FaultFree
  byte_eq : ∀ a, v.tablesStart ≤ a → a < v.tablesEnd → disk'.byte a = disk.byte a

/-- The disks do not differ between the start of the tables and the data area. -/
structure SameFront (v : FatVolume) (disk disk' : Disk) : Prop where
  faultFree : disk'.FaultFree
  byte_eq : ∀ a, v.tablesStart ≤ a → a < fat16.dataStart v → disk'.byte a = disk.byte a

lemma tablesEnd_le : v.tablesEnd ≤ fat16.dataStart v := by
  refine Nat.mul_le_mul_right _ ?_
  change _ ≤ fat16EndingSectorPos v
  rw [fat16EndingSectorPos, Nat.add_comm v.reservedSectors]
  exact Nat.le_add_right _ _

lemma SameFront.trans {disk'' : Disk} (h : SameFront v disk disk')
    (h' : SameFront v disk' disk'') : SameFront v disk disk'' :=
  ⟨h'.faultFree, fun a ha ha' => (h'.byte_eq a ha ha').trans (h.byte_eq a ha ha')⟩

lemma SameFront.sameTables (h : SameFront v disk disk') : SameTables v disk disk' :=
  ⟨h.faultFree, fun a ha ha' => h.byte_eq a ha (ha'.trans_le tablesEnd_le)⟩

lemma SameTables.linked (h : SameTables v disk disk') (hlinked : fat16.Linked v disk chain)
    (hclusters : ∀ c ∈ chain, TableCluster v c) : fat16.Linked v disk' chain := by
  refine hlinked.congr fun c hc => fatEntry_congr fun a ha ha' => h.byte_eq a ?_ ?_
  · exact (Nat.le_add_right _ _).trans ha
  · exact ha'.trans_le (hclusters c hc).in_tables

namespace TableCluster

lemma tablePos_lt (h : TableCluster v c) (hv : SmallVolume v) :
    fat16.tablePos v c + fat16.entrySize < 2 ^ 31 := by
  have hin : fat16.tablePos v c + fat16.entrySize ≤ v.tablesEnd := h.in_tables
  have hend := @tablesEnd_le v
  have hdata := hv.data_lt
  omega

lemma lt_endOfChain (h : TableCluster v c) : c < fat16.endOfChain :=
  h.lt_bad.trans (by decide)

lemma clusterPos_eq (h : TableCluster v c) : fat16.clusterPos v c = fat16.dataPos v c := by
  have h2 := h.two_le
  simp only [clusterPos, clusterToSector, dataPos]
  push_cast [Nat.cast_sub h2]
  ring

/-- The position of a cluster, in which a sum may overflow, is not in front of the data area. -/
lemma position (h : TableCluster v c) (hv : SmallVolume v) {r n : ℕ}
    (hr : r + n ≤ 2 * v.clusterBytes) :
    (fat16.dataStart v : ℤ) ≤ i32 (u32 (fat16.clusterPos v c + r)) ∨
      i32 (u32 (fat16.clusterPos v c + r)) + n ≤ 0 := by
  have hnear := h.near
  have hdata := hv.data_lt
  have hend := @tablesEnd_le v
  have h2 := h.two_le
  have hsucc : (c - 1) * v.clusterBytes = (c - 2) * v.clusterBytes + v.clusterBytes := by
    rw [← Nat.succ_mul]
    congr 1
    omega
  have hpos : fat16.dataPos v c = fat16.dataStart v + (c - 2) * v.clusterBytes := dataPos_eq c
  rw [h.clusterPos_eq, ← Nat.cast_add, u32_of_lt (by omega)]
  by_cases hlt : fat16.dataPos v c + r < 2 ^ 31
  · refine Or.inl ?_
    rw [i32_of_lt (by omega) (by omega)]
    omega
  · -- the position is negative as an `int`
    refine Or.inr ?_
    have hneg : i32 ((fat16.dataPos v c + r : ℕ) : ℤ) = (fat16.dataPos v c + r : ℕ) - 2 ^ 32 := by
      rw [i32, Int.bmod_def]
      omega
    rw [hneg]
    omega

end TableCluster

/-! ## The steps of a write -/

/-- The search does not go further than the volume. -/
lemma SmallVolume.near_searchEnd (hv : SmallVolume v) (h3 : 3 ≤ c) (hle : c ≤ searchEnd v) :
    (c - 1) * v.clusterBytes < 2 ^ 31 := by
  have hdata := hv.data_lt
  have hsectors := hv.sectors_lt
  rcases Nat.lt_or_ge 3 c with h4 | h4
  · have hquot : c - 1 ≤ v.sectorsBig / v.sectorsPerCluster := by
      rw [searchEnd] at hle
      generalize v.sectorsBig / v.sectorsPerCluster = q at hle
      omega
    calc (c - 1) * v.clusterBytes
        ≤ v.sectorsBig / v.sectorsPerCluster * v.clusterBytes := Nat.mul_le_mul_right _ hquot
      _ = v.sectorsBig / v.sectorsPerCluster * v.sectorsPerCluster * v.sectorSize := by
        rw [FatVolume.clusterBytes, Nat.mul_assoc]
      _ ≤ v.sectorsBig * v.sectorSize := Nat.mul_le_mul_right _ (Nat.div_mul_le_self _ _)
      _ < 2 ^ 31 := hsectors
  · obtain rfl : c = 3 := by omega
    omega

/-- The search for a free cluster, when the first one has its entry in the tables. -/
lemma SmallVolume.freeCluster_eq (hv : SmallVolume v) (hf : disk.FaultFree)
    (hhead : ∀ c ∈ (fat16.freeClusters v disk).head?, TableCluster v c) :
    fat16.freeCluster v disk 3 = (fat16.freeClusters v disk).head? := by
  have hdata := hv.data_lt
  have hend := @tablesEnd_le v
  have hstart : v.tablesStart ≤ v.tablesEnd := Nat.mul_le_mul_right _ (Nat.le_add_right _ _)
  refine fat16_freeCluster_eq hf (fun c h3 hc => ?_) fun c hc => ?_
  · have hnear := hv.near_searchEnd h3 hc
    have hfour : (c - 1) * 4 ≤ (c - 1) * v.clusterBytes := Nat.mul_le_mul_left _ hv.four_le
    have hpos : fat16.tablePos v c = v.tablesStart + c * 2 := rfl
    omega
  · have := (hhead c hc).tablePos_lt hv
    omega

lemma setEntry_byte_of_tables (h : TableCluster v c) (val : ℕ) {a : ℕ}
    (ha : a < v.tablesStart ∨ v.tablesEnd ≤ a) :
    (fat16.setEntry v disk c val).byte a = disk.byte a := by
  have hin : fat16.tablePos v c + fat16.entrySize ≤ v.tablesEnd := h.in_tables
  have hstart : v.tablesStart ≤ fat16.tablePos v c := Nat.le_add_right _ _
  rcases ha with ha | ha
  · exact store_of_lt (Or.inl (by omega))
  · refine store_of_lt (Or.inr ?_)
    rw [length_numberBytes]
    omega

/-- Linking a free cluster behind the last one, and then going on from there. -/
lemma TakesFree.link {last : ℕ} (hlast : TableCluster v last) (hc : TableCluster v c)
    (hfree : fat16.fatEntry v disk c = 0)
    (h : TakesFree v c (fat16.setEntry v (fat16.setEntry v disk last c) c 0xFFFF) disk') :
    TakesFree v last disk disk' := by
  refine ⟨h.faultFree, fun a ha => ?_, fun x hx hused => ?_⟩
  · rw [h.byte_eq a ha, setEntry_byte_of_tables hc _ ha, setEntry_byte_of_tables hlast _ ha]
  · have hxc : c ≠ x := by
      rintro rfl
      exact hused hfree
    have heq : fat16.fatEntry v (fat16.setEntry v (fat16.setEntry v disk last c) c 0xFFFF) x =
        fat16.fatEntry v disk x := by
      rw [fatEntry_setEntry_of_ne hxc, fatEntry_setEntry_of_ne (Ne.symm hx)]
    rw [h.entry_eq x hxc.symm (heq ▸ hused), heq]

/-- Growing a chain: it stays linked, and has all clusters that are needed unless the call
fails. -/
lemma fat16GrowLoop_linked (hv : SmallVolume v) (priv : FatPrivate) (count : ℕ) :
    ∀ {disk : Disk} {chain : List ℕ}, fat16.Linked v disk chain → chain ≠ [] →
      (∀ c ∈ chain, TableCluster v c) → disk.FaultFree →
      (∀ c ∈ (fat16.freeClusters v disk).take count, TableCluster v c) →
      ∃ res disk' new, fat16Driver.growLoop v (chain.getD 0 0) count priv disk =
          some (res, priv, disk') ∧ TakesFree v (lastCluster chain) disk disk' ∧
        fat16.Linked v disk' (chain ++ new) ∧ (∀ c ∈ new, TableCluster v c) ∧
        (0 ≤ res → new.length = count ∧ count ≤ (fat16.freeClusters v disk).length) := by
  induction count with
  | zero =>
    intro disk chain h _ _ hf _
    refine ⟨0, disk, [], rfl, ⟨hf, fun _ _ => rfl, fun _ _ _ => rfl⟩, ?_,
      fun c hc => absurd hc List.not_mem_nil, fun _ => ⟨rfl, Nat.zero_le _⟩⟩
    rwa [List.append_nil]
  | succ count ih =>
    intro disk chain h hne hclusters hf hfreeOk
    have htable := fun c hc => (hclusters c hc).tablePos_lt hv
    have hmax := fun c hc => (hclusters c hc).lt_endOfChain
    have hfirst : fat16.freeCluster v disk 3 = (fat16.freeClusters v disk).head? := by
      refine hv.freeCluster_eq hf fun c hc => hfreeOk c ?_
      obtain ⟨free, hfree⟩ := List.head?_eq_some_iff.mp hc
      rw [hfree, List.take_succ_cons]
      exact List.mem_cons_self
    rw [FatDriver.growLoop]
    cases hfree : fat16.freeClusters v disk with
    | nil =>
      rw [hfree, List.head?_nil] at hfirst
      rw [fat16AddClusterToChain_full h hne htable hmax hf hfirst]
      refine ⟨-enodiskspace, disk, [], rfl, ⟨hf, fun _ _ => rfl, fun _ _ _ => rfl⟩, ?_,
        fun c hc => absurd hc List.not_mem_nil, fun hneg => absurd hneg (by decide)⟩
      rwa [List.append_nil]
    | cons c free =>
      rw [hfree, List.head?_cons] at hfirst
      have hc : TableCluster v c := hfreeOk c (by rw [hfree]; exact List.mem_cons_self)
      obtain ⟨⟨h3, -⟩, hcfree⟩ := mem_freeClusters.mp (hfree ▸ List.mem_cons_self)
      have hpos : ∀ c ∈ chain, 0 < c := fun c hc => Nat.zero_lt_of_lt (hclusters c hc).two_le
      have hnotin : c ∉ chain := fun hmem => h.fatEntry_ne_zero hpos hmem hcfree
      have hlt : c < 256 ^ fat16.entrySize := hc.lt_bad.trans (by decide)
      have hadd := fat16AddClusterToChain_free priv h hne htable hmax hf hfirst h3
        (hc.tablePos_lt hv) hlt
      have hchain := h.append hne hlt hnotin (show fat16.endOfChain ≤ 0xFFFF by decide)
        (by decide)
      have hrest := freeClusters_append (h.fatEntry_ne_zero hpos (lastCluster_mem hne)) hfree hlt
        (show 0 < 0xFFFF by decide) (by decide)
      have hf' : (fat16.setEntry v (fat16.setEntry v disk (lastCluster chain) c) c
          0xFFFF).FaultFree := FaultFree.setEntry (FaultFree.setEntry hf)
      have hclusters' : ∀ x ∈ chain ++ [c], TableCluster v x := by
        intro x hx
        rcases List.mem_append.mp hx with hx | hx
        · exact hclusters x hx
        · rw [List.mem_singleton.mp hx]
          exact hc
      obtain ⟨res, disk', new, hgrow, htakes, hlinked, hnew, hlen⟩ :=
        ih hchain (by simp) hclusters' hf' fun x hx => hfreeOk x (by
          rw [hfree, List.take_succ_cons]
          rw [hrest] at hx
          exact List.mem_cons_of_mem _ hx)
      rw [getD_zero_append hne] at hgrow
      rw [show lastCluster (chain ++ [c]) = c by simp [lastCluster]] at htakes
      refine ⟨res, disk', c :: new, ?_, htakes.link (hclusters _ (lastCluster_mem hne)) hc hcfree,
        ?_, List.forall_mem_cons.mpr ⟨hc, hnew⟩, fun hres => ?_⟩
      · rw [hadd, Option.bind_some, if_neg (lt_irrefl 0), hgrow]
      · rw [List.append_cons]
        exact hlinked
      · rw [hrest] at hlen
        exact ⟨congrArg Nat.succ (hlen hres).1, Nat.succ_le_succ (hlen hres).2⟩

/-- The bytes of a cluster, or of its neighbour, lie in the data area. -/
lemma TableCluster.sameFront (h : TableCluster v c) (hv : SmallVolume v) (hf : disk.FaultFree)
    {r : ℕ} {buf : List UInt8} (hr : r + buf.length ≤ 2 * v.clusterBytes) :
    SameFront v disk
      (diskstreamerWrite disk (i32 (u32 (fat16.clusterPos v c + r))) buf).2 := by
  obtain ⟨hf', hbyte⟩ := diskstreamerWrite_frame buf hf (i32 (u32 (fat16.clusterPos v c + r)))
  refine ⟨hf', fun a _ ha => hbyte a ?_⟩
  rcases h.position hv hr with hpos | hpos
  · exact Or.inl (by omega)
  · exact Or.inr (by omega)

/-- The loop over the clusters behind the first one stays in the data area. -/
lemma sameFront_writeLoop (hv : SmallVolume v) (buf : ℕ → UInt8) (calls : ℕ) :
    ∀ {disk : Disk} {i p : ℕ} {res size : ℤ}, disk.FaultFree → fat16.Linked v disk chain →
      (∀ c ∈ chain, TableCluster v c) → i < chain.length →
      SameFront v disk (fat16.writeLoop v buf calls disk (chain.getD i 0) res p size).2.1 := by
  induction calls with
  | zero => exact fun hf _ _ _ => ⟨hf, fun _ _ _ => rfl⟩
  | succ calls ih =>
    intro disk i p res size hf h hclusters hi
    have hcode : fat16.entryCode v disk (chain.getD i 0) =
        fat16.fatEntry v disk (chain.getD i 0) :=
      entryCode_eq hf ((hclusters _ (IsChain.getD_mem hi)).tablePos_lt hv)
    rw [writeLoop, hcode]
    by_cases hsize : size ≤ 0
    · rw [if_pos hsize]
      exact ⟨hf, fun _ _ _ => rfl⟩
    · rw [if_neg hsize]
      simp only
      by_cases hend : fat16.endOfChain ≤ fat16.fatEntry v disk (chain.getD i 0)
      · rw [if_pos hend]
        exact ⟨hf, fun _ _ _ => rfl⟩
      · rw [if_neg hend]
        have hi' : i + 1 < chain.length := by
          by_contra hlast
          exact hend (h.last i (by omega))
        rw [h.next i hi']
        have hc := hclusters _ (IsChain.getD_mem hi')
        have hlen : 0 + (slice buf p (if size ≤ v.clusterBytes then size.toNat
            else v.clusterBytes)).length ≤ 2 * v.clusterBytes := by
          rw [length_slice]
          split_ifs
          · omega
          · omega
        have hsame := hc.sameFront hv hf hlen
        rw [Nat.cast_zero, add_zero, i32_u32] at hsame
        exact hsame.trans
          (ih hsame.faultFree (hsame.sameTables.linked h hclusters) hclusters hi')

/-- The third step of a write stays in the data area. -/
lemma sameFront_writeData (priv : FatPrivate) (hv : SmallVolume v) (hf : disk.FaultFree)
    (h : fat16.Linked v disk chain) (hclusters : ∀ c ∈ chain, TableCluster v c) {i : ℕ}
    (hi : i < chain.length) (desc : FatFileDescriptor) (buf : ℕ → UInt8) (size : ℤ) :
    SameFront v disk (fat16Driver.writeData v priv disk desc buf size (chain.getD i 0)).disk := by
  have hc := hclusters _ (IsChain.getD_mem hi)
  have hmod : desc.pos % v.clusterBytes < v.clusterBytes := Nat.mod_lt _ v.clusterBytes_pos
  have hsame := hc.sameFront hv hf (by
    rw [length_slice]
    omega : desc.pos % v.clusterBytes + (slice buf 0 (desc.pos % v.clusterBytes)).length ≤
      2 * v.clusterBytes)
  exact hsame.trans (sameFront_writeLoop hv buf _ hsame.faultFree
    (hsame.sameTables.linked h hclusters) hclusters hi)

/-! ## One write -/

variable {s s' : FatFileState} {call : FatWriteCall}

/-- The clusters that a write takes belong to the tables. -/
lemma WriteApart.tableCluster (hc : WriteApart v s call) (hl : WriteLegal v s call)
    (hv : SmallVolume v) : ∀ c ∈ newClusters v s.disk s.desc call.size, TableCluster v c := by
  intro c hmem
  have hfree := mem_freeClusters.mp (List.mem_of_mem_take hmem)
  refine ⟨by omega, hl.free_lt c hmem, ?_, hc.clusters c hmem⟩
  exact hv.near_searchEnd hfree.1.1 hfree.1.2

/-- Storing a directory entry leaves the bytes alone that are not at its position. -/
lemma writeDirectoryEntry_frame (hf : disk.FaultFree) {root : FatDirectory}
    {path : List (List UInt8)} {item : FatDirectoryItem} {entry : ℤ × Disk}
    (h : fat16.writeDirectoryEntry v disk root path item = some entry) :
    entry.2.FaultFree ∧ ∀ a : ℕ, (∀ slot : ℕ,
      fat16.entryLocation v disk root path = some (some slot) →
        a < i32 slot ∨ i32 slot + itemSize ≤ a) → entry.2.byte a = disk.byte a := by
  rw [writeDirectoryEntry, Option.map_eq_some_iff] at h
  obtain ⟨location, hlocation, rfl⟩ := h
  cases location with
  | none => exact ⟨hf, fun _ _ => rfl⟩
  | some slot =>
    have hlen : (slice item.raw 0 itemSize).length = itemSize := length_slice _ _ _
    simp only
    generalize slice item.raw 0 itemSize = buf at hlen ⊢
    obtain ⟨hf', hbyte⟩ := diskstreamerWrite_frame buf hf (i32 slot)
    rw [hlen] at hbyte
    exact ⟨hf', fun a ha => hbyte a (ha slot hlocation)⟩

/-- Storing the directory entry leaves the tables alone. -/
lemma sameTables_writeDirectoryEntry (hf : disk.FaultFree) {root : FatDirectory}
    {path : List (List UInt8)} {item : FatDirectoryItem} {entry : ℤ × Disk}
    (hapart : ∀ slot, fat16.entryLocation v disk root path = some (some slot) →
      (v.tablesEnd : ℤ) ≤ i32 slot ∨ i32 slot + itemSize ≤ v.tablesStart)
    (h : fat16.writeDirectoryEntry v disk root path item = some entry) :
    SameTables v disk entry.2 := by
  obtain ⟨hf', hbyte⟩ := writeDirectoryEntry_frame hf h
  refine ⟨hf', fun a ha ha' => hbyte a fun slot hslot => ?_⟩
  rcases hapart slot hslot with hpos | hpos
  · exact Or.inl (by omega)
  · exact Or.inr (by omega)

/-- The room for a file is enough after as many clusters were added as are needed. -/
lemma filesize_add_le {filesize n : ℕ} {new : List ℕ}
    (h : filesize ≤ chain.length * v.clusterBytes)
    (hnew : new.length = neededClusters v filesize n) :
    filesize + n ≤ (chain ++ new).length * v.clusterBytes := by
  have hcount := (clusterCount_le_iff v filesize chain.length).mpr h
  refine (clusterCount_le_iff v _ _).mp ?_
  rw [List.length_append, hnew, neededClusters]
  omega

/-- One write keeps the capacity of the file. -/
lemma hasCapacity_writeStep (hv : SmallVolume v) (hf : s.disk.FaultFree)
    (hs : HasCapacity v s) (hl : WriteLegal v s call) (hc : WriteApart v s call)
    (hstep : writeStep v s call = some s') : s'.disk.FaultFree ∧ HasCapacity v s' := by
  obtain ⟨chain, hne, hfirst, hlinked, hclusters, hroom⟩ := hs
  obtain ⟨r, hwrite, rfl⟩ := Option.map_eq_some_iff.mp hstep
  by_cases hmode : s.desc.mode &&& fileModeWrite = 0
  · -- the file is not open for writing
    rw [fat16Write, FatDriver.write, if_neg (by have := hl.size_pos; omega), if_pos hmode] at hwrite
    cases hwrite
    exact ⟨hf, chain, hne, hfirst, hlinked, hclusters, hroom⟩
  have hpos := List.length_pos_iff.mpr hne
  have hcapacity := length_mul_lt_of_near hlinked.nodup (fun c hc => (hclusters c hc).two_le)
    fun c hc => (hclusters c hc).near
  have hF : s.desc.item.filesize < 2 ^ 31 := lt_of_le_of_lt hroom hcapacity
  have hB : v.clusterBytes < 2 ^ 31 := by
    have := hv.data_lt
    omega
  have hlast := hlinked.findLast_eq hf (fun c hc => (hclusters c hc).tablePos_lt hv)
    (fun c hc => (hclusters c hc).lt_endOfChain) (chain.length - 1) 0 (by omega)
  obtain ⟨res, grown, new, hgrow, htakes, hlinked', hnew, hlen⟩ := fat16GrowLoop_linked hv s.priv
    (neededClusters v s.desc.item.filesize call.size) hlinked hne hclusters hf
    (hc.tableCluster hl hv)
  have hclusters' : ∀ c ∈ chain ++ new, TableCluster v c := fun c hmem =>
    (List.mem_append.mp hmem).elim (hclusters c) (hnew c)
  have hfirst' : s.desc.item.firstCluster % 2 ^ 16 = (chain ++ new).getD 0 0 := by
    rw [getD_zero_append hne, hfirst]
  rw [fat16Write, write_of_last (d := fat16Driver) hF hB hfirst hlast hmode hl.size_pos hl.size_lt
    hgrow] at hwrite
  simp only at hwrite
  split_ifs at hwrite with hneg
  · -- the disk is full: the chain may have grown, the size has not
    cases hwrite
    refine ⟨htakes.faultFree, chain ++ new, by simp [hne], hfirst', hlinked', hclusters', ?_⟩
    rw [List.length_append, Nat.add_mul]
    exact Nat.le_add_right_of_le hroom
  · obtain ⟨entry, hentry, hwrite⟩ := Option.bind_eq_some_iff.mp hwrite
    have hsame := sameTables_writeDirectoryEntry htakes.faultFree (hc.entry _ _ · (by
      rw [hfirst]
      exact hlast) htakes) hentry
    have hlinkedE := hsame.linked hlinked' hclusters'
    have hsize : (s.desc.item.setFilesize (s.desc.item.filesize + call.size)).filesize ≤
        (chain ++ new).length * v.clusterBytes := by
      rw [FatDirectoryItem.filesize_setFilesize _ hl.filesize_lt]
      exact filesize_add_le hroom (hlen (not_lt.mp hneg)).1
    have hfirstE : (s.desc.item.setFilesize (s.desc.item.filesize + call.size)).firstCluster
        % 2 ^ 16 = (chain ++ new).getD 0 0 := by
      rw [FatDirectoryItem.firstCluster_setFilesize, hfirst']
    split_ifs at hwrite with hres
    · cases hwrite
      exact ⟨hsame.faultFree, chain ++ new, by simp [hne], hfirstE, hlinkedE, hclusters', hsize⟩
    · cases hwrite
      have hi : chain.length - 1 < (chain ++ new).length := by
        rw [List.length_append]
        omega
      have hgetD : (chain ++ new).getD (chain.length - 1) 0 = lastCluster chain :=
        List.getD_append _ _ _ _ (by omega)
      have hdata := sameFront_writeData s.priv hv hsame.faultFree hlinkedE hclusters' hi
        { s.desc with item := s.desc.item.setFilesize (s.desc.item.filesize + call.size) }
        call.buf call.size
      rw [hgetD] at hdata
      exact ⟨hdata.faultFree, chain ++ new, by simp [hne], hfirstE,
        hdata.sameTables.linked hlinkedE hclusters', hclusters', hsize⟩

/-! ## Runs -/

/-- **The capacity of a file.**  Along any number of writes on a volume without faults, the
chain of the file stays linked and has room for the size of the file, as long as the clusters
that are taken have entries in the tables. -/
theorem fat16Write_capacity (hv : SmallVolume v) (hf : s.disk.FaultFree) (hs : HasCapacity v s)
    {calls : List FatWriteCall} (hl : Guarded (writeStep v) (WriteLegal v) s calls)
    (hc : Guarded (writeStep v) (WriteApart v) s calls) :
    Throughout (writeStep v) (HasCapacity v) s calls :=
  throughout_of_guarded (I := fun s => s.disk.FaultFree ∧ HasCapacity v s) (fun _ h => h.2)
    (fun _ _ _ h hl hc hstep => hasCapacity_writeStep hv h.1 h.2 hl hc hstep) ⟨hf, hs⟩ hl hc

/-- Ten bytes at the end of a file of one cluster: the write takes cluster 5. -/
theorem fat16Write_capacity_short :
    Throughout (writeStep smallVolume) (HasCapacity smallVolume)
      ⟨filePrivate 512, fileDisk 512, fileDescriptor 512 512⟩ [⟨fun _ => 0xFF, 10⟩] := by
  have hnew : newClusters smallVolume (fileDisk 512) (fileDescriptor 512 512) 10 = [5] := by
    decide +kernel
  have hthree : TableCluster smallVolume 3 := ⟨by decide, by decide, by decide, by decide⟩
  have hlinked : fat16.Linked smallVolume (fileDisk 512) [3] :=
    (isChain_singleton dataCluster_three.toOnVolume (by decide)).linked
  have hlegal : WriteLegal smallVolume ⟨filePrivate 512, fileDisk 512, fileDescriptor 512 512⟩
      ⟨fun _ => 0xFF, 10⟩ := by
    refine ⟨by decide, by decide, by decide, fun c hc => ?_⟩
    obtain rfl := List.mem_singleton.mp (hnew ▸ hc)
    decide
  have hapart : WriteApart smallVolume ⟨filePrivate 512, fileDisk 512, fileDescriptor 512 512⟩
      ⟨fun _ => 0xFF, 10⟩ := by
    refine ⟨fun c hc => ?_, fun _ disk slot _ _ hslot => ?_⟩
    · obtain rfl := List.mem_singleton.mp (hnew ▸ hc)
      decide
    · have hroot : fat16.entryLocation smallVolume disk (filePrivate 512).rootDirectory [[0x41]] =
          some (some (2 * smallVolume.sectorSize + 0 * itemSize)) :=
        entryLocation_root (by decide) rfl (by decide)
      obtain rfl := Option.some.inj (Option.some.inj (hroot.symm.trans hslot))
      exact Or.inl (by decide)
  exact fat16Write_capacity ⟨by decide, by decide, by decide⟩ (diskWith_faultFree _)
    ⟨[3], by decide, by decide, hlinked, List.forall_mem_singleton.mpr hthree, by decide⟩
    ⟨hlegal, fun _ _ => trivial⟩ ⟨hapart, fun _ _ => trivial⟩

/-- A volume of 288 sectors with a root directory of 32 sectors, and 254 clusters behind it. -/
def fullVolume : FatVolume := { smallVolume with rootDirEntries := 512, sectorsBig := 288 }

/-- The item of a file `A` of 512 bytes with cluster 3, its name filled up with blanks. -/
def paddedItem : FatDirectoryItem :=
  ⟨fun i => if 1 ≤ i ∧ i < 12 then 0x20 else (fileItem 512).raw i⟩

/-- The volume without a free cluster, and the file in its root directory. -/
def fullDisk : Disk :=
  diskWith fun a =>
    if 512 ≤ a ∧ a < 1024 then 0xFF
    else if 1024 ≤ a ∧ a < 1056 then paddedItem.raw (a - 1024)
    else 0

def fullState : FatFileState where
  priv := ⟨⟨fun _ => paddedItem, 1, 2⟩, 1, fun _ => 0xFF⟩
  disk := fullDisk
  desc := ⟨[[0x41]], paddedItem, 512, fileModeWrite ||| fileModeAppend⟩

/-- The volume after cluster 262 was linked behind cluster 3. -/
def fullGrown : Disk :=
  fat16.setEntry fullVolume (fat16.setEntry fullVolume fullDisk 3 262) 262 0xFFFF

/-- The volume after the directory entry was stored with the new size. -/
def fullStored : Disk :=
  { fullGrown with byte := store fullGrown.byte 1024 (slice (paddedItem.setFilesize 513).raw 0 32) }

/-- A cluster marked as free is linked behind the first one of a file. -/
lemma not_linked_of_free {first next : ℕ} (hfirst : fat16.fatEntry v disk first = next)
    (hlt : next < fat16.endOfChain) (hnext : fat16.fatEntry v disk next = 0)
    (hhead : chain.getD 0 0 = first) (hne : chain ≠ []) (hzero : 0 ∉ chain) :
    ¬ fat16.Linked v disk chain := by
  intro h
  have hpos := List.length_pos_iff.mpr hne
  have hlink : ∀ i, i < chain.length → fat16.fatEntry v disk (chain.getD i 0) < fat16.endOfChain →
      i + 1 < chain.length ∧ chain.getD (i + 1) 0 = fat16.fatEntry v disk (chain.getD i 0) := by
    intro i hi hentry
    have hi' : i + 1 < chain.length := by
      by_contra hlast
      exact absurd (h.last i (by omega)) (by omega)
    exact ⟨hi', (h.next i hi').symm⟩
  obtain ⟨h1, hone⟩ := hlink 0 hpos (by rwa [hhead, hfirst])
  rw [hhead, hfirst] at hone
  obtain ⟨h2, htwo⟩ := hlink 1 h1 (by rw [hone, hnext]; decide)
  rw [hone, hnext] at htwo
  exact hzero (htwo ▸ IsChain.getD_mem h2)

/-- One byte at the end of a file on a full volume.  The search goes on behind the table and
takes two bytes of the file's own directory entry for the entry of cluster 262; when the
directory entry is stored again, the cluster is marked as free. -/
theorem not_fat16Write_capacity_full :
    SmallVolume fullVolume ∧ fullState.disk.FaultFree ∧ HasCapacity fullVolume fullState ∧
      WriteLegal fullVolume fullState ⟨fun _ => 0x42, 1⟩ ∧
      ∃ s', writeStep fullVolume fullState ⟨fun _ => 0x42, 1⟩ = some s' ∧
        ¬ ∃ chain, chain ≠ [] ∧ 0 ∉ chain ∧
          s'.desc.item.firstCluster % 2 ^ 16 = chain.getD 0 0 ∧
          fat16.Linked fullVolume s'.disk chain := by
  have hf : fullDisk.FaultFree := diskWith_faultFree _
  have hfree : (fat16.freeClusters fullVolume fullDisk).head? = some 262 := by
    decide +kernel
  have hnew : newClusters fullVolume fullDisk fullState.desc 1 = [262] := by
    decide +kernel
  have hthree : TableCluster fullVolume 3 := ⟨by decide, by decide, by decide, by decide⟩
  have hlinked : fat16.Linked fullVolume fullDisk [3] :=
    (isChain_singleton ⟨by decide, by decide, by decide, by decide⟩ (by decide +kernel)).linked
  have hthree' : ∀ c ∈ [3], TableCluster fullVolume c := List.forall_mem_singleton.mpr hthree
  have hv : SmallVolume fullVolume := ⟨by decide, by decide, by decide⟩
  refine ⟨hv, hf, ⟨[3], by decide, by decide, hlinked, hthree', by decide⟩,
    ⟨by decide, by decide, by decide, fun c hc => ?_⟩, ?_⟩
  · obtain rfl := List.mem_singleton.mp (hnew ▸ hc)
    decide
  have htable : ∀ c ∈ [3], fat16.tablePos fullVolume c + fat16.entrySize < 2 ^ 31 :=
    fun c hc => (hthree' c hc).tablePos_lt hv
  have hmax : ∀ c ∈ [3], c < fat16.endOfChain := fun c hc => (hthree' c hc).lt_endOfChain
  have hlast := hlinked.findLast_eq hf htable hmax 0 0 rfl
  have hadd := fat16AddClusterToChain_free fullState.priv hlinked (by decide) htable hmax hf
    ((freeCluster_eq hf (by decide)).trans hfree) (by decide) (by decide) (by decide)
  have hgrow : fat16Driver.growLoop fullVolume 3 (neededClusters fullVolume 512 1) fullState.priv
      fullDisk = some (0, fullState.priv, fullGrown) := by
    have hneeded : neededClusters fullVolume 512 1 = 1 := by decide
    have hadd' : fat16Driver.addClusterToChain fullVolume fullState.priv fullDisk 3 =
      some (0, fullState.priv, fullGrown) := hadd
    rw [hneeded, FatDriver.growLoop, hadd', Option.bind_some]
    rfl
  have hroot : fat16.entryLocation fullVolume fullGrown fullState.priv.rootDirectory [[0x41]] =
      some (some (2 * fullVolume.sectorSize + 0 * itemSize)) :=
    entryLocation_root (by decide +kernel) rfl (by decide)
  have hentry : fat16.writeDirectoryEntry fullVolume fullGrown fullState.priv.rootDirectory [[0x41]]
      (paddedItem.setFilesize 513) = some (32, fullStored) :=
    writeDirectoryEntry_eq (FaultFree.setEntry (FaultFree.setEntry hf)) hroot (by decide) _
  have hsize : fullState.desc.item.filesize = 512 := by decide
  have hwrite := write_of_last (d := fat16Driver) (v := fullVolume) (n := 1) (by decide) (by decide)
    (show fullState.desc.item.firstCluster % 2 ^ 16 = 3 by decide) hlast (by decide) (by decide)
    (by decide) hgrow fun _ => 0x42
  have hstored : fat16Driver.kind.writeDirectoryEntry fullVolume fullGrown
      fullState.priv.rootDirectory fullState.desc.path
      (fullState.desc.item.setFilesize (fullState.desc.item.filesize + 1)) =
        some (32, fullStored) := by
    rw [hsize]
    exact hentry
  rw [if_neg (by decide), hstored, Option.bind_some, if_neg (by decide)] at hwrite
  refine ⟨_, congrArg (Option.map _) hwrite, ?_⟩
  rintro ⟨chain, hne, hzero, hhead, hchain⟩
  have hhead' : chain.getD 0 0 = 3 := hhead.symm.trans (by decide)
  refine @not_linked_of_free fullVolume _ chain 3 262 ?_ (by decide) ?_ hhead' hne hzero hchain
  · decide +kernel
  · decide +kernel

end SerpaeOS
