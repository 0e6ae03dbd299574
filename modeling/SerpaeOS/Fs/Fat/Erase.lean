import SerpaeOS.Fs.Fat.Delete
import SerpaeOS.Fs.Fat.Extend

/-!
# Erasing chains

`fat16_erase_cluster_chain` and `fat32_erase_cluster_chain` clear the entries of a chain while
they follow it.  Each one stops behind one value only: `0xFFFF`, which is one of the markers of a
FAT16 table, and `0x0FFFFFF`, which has a digit less than the marker of a FAT32 table.  Behind any
other marker the loop takes the marker for the number of a cluster and goes on.
-/

namespace SerpaeOS

open Bytes Word

/-- `fat32_erase_cluster_chain`: the result and the disk. -/
def fat32EraseClusterChain (v : FatVolume) (disk : Disk) (first : ℕ) : Option (ℤ × Disk) :=
  if first ≤ 2 then some (-einvarg, disk)
  else
    (eraseLoop (fat32.entryCode v) (fun disk curr => (fat32.writeFatEntry v disk curr 0x00).2)
      0x0FFFFFF disk first).map fun disk => (0, disk)

namespace FatKind

variable (k : FatKind) (v : FatVolume)

/-- The entries of the clusters lead from each one to the next, and that of the last one
is `e`. -/
def LeadsTo (disk : Disk) : List ℕ → ℕ → Prop
  | [], _ => True
  | c :: rest, e => k.fatEntry v disk c = rest.headD e ∧ LeadsTo disk rest e

/-- The disk with the entries of the clusters cleared. -/
def clearEntries (disk : Disk) (clusters : List ℕ) : Disk :=
  clusters.foldl (fun disk c => k.setEntry v disk c 0) disk

/-- The loop of `erase_cluster_chain` of the driver. -/
def eraseFrom (last : ℕ) (disk : Disk) (curr : ℕ) : Option Disk :=
  eraseLoop (k.entryCode v) (fun disk curr => (k.writeFatEntry v disk curr 0x00).2) last disk curr

/-- The entry of the cluster lies below the position `2 ^ 31`. -/
def Reachable (c : ℕ) : Prop := k.tablePos v c + k.entrySize < 2 ^ 31

variable {k v} {disk disk' : Disk} {chain rest l : List ℕ} {c e first last x : ℕ}

lemma entryCode_lt (disk : Disk) (c : ℕ) : k.entryCode v disk c < 2 ^ (8 * k.entrySize) := by
  have hpos : (0 : ℤ) < (2 ^ (8 * k.entrySize) : ℕ) :=
    Int.natCast_pos.mpr (Nat.pow_pos (by decide))
  have hlt := Int.emod_lt_of_pos (k.getFatEntry v disk c) hpos
  have hnonneg := Int.emod_nonneg (k.getFatEntry v disk c) hpos.ne'
  rw [entryCode]
  omega

/-! ## Cleared entries -/

lemma FaultFree.clearEntries (hf : disk.FaultFree) (l : List ℕ) :
    (k.clearEntries v disk l).FaultFree := by
  induction l generalizing disk with
  | nil => exact hf
  | cons c l ih => exact ih (FaultFree.setEntry hf)

lemma fatEntry_clearEntries_of_notMem (hx : x ∉ l) :
    k.fatEntry v (k.clearEntries v disk l) x = k.fatEntry v disk x := by
  induction l generalizing disk with
  | nil => rfl
  | cons c l ih =>
    obtain ⟨hne, hx⟩ := List.ne_and_not_mem_of_not_mem_cons hx
    exact (ih hx).trans (fatEntry_setEntry_of_ne (Ne.symm hne))

lemma fatEntry_clearEntries_of_mem (hx : x ∈ l) :
    k.fatEntry v (k.clearEntries v disk l) x = 0 := by
  induction l generalizing disk with
  | nil => exact absurd hx (by simp)
  | cons c l ih =>
    by_cases hmem : x ∈ l
    · exact ih hmem
    · obtain rfl : x = c := (List.mem_cons.mp hx).resolve_right hmem
      exact (fatEntry_clearEntries_of_notMem hmem).trans
        (fatEntry_setEntry_self (Nat.pow_pos (by decide)))

lemma clearEntries_of_not_inEntries {a : ℕ} (ha : ¬ k.InEntries v l a) :
    (k.clearEntries v disk l).byte a = disk.byte a := by
  induction l generalizing disk with
  | nil => rfl
  | cons c l ih =>
    have hl : ¬ k.InEntries v l a := fun h => ha (h.mono fun _ => List.mem_cons_of_mem c)
    exact (ih hl).trans (setEntry_of_not_inEntries List.mem_cons_self ha)

/-! ## The loop along a chain -/

lemma LeadsTo.congr (h : k.LeadsTo v disk l e)
    (heq : ∀ c ∈ l, k.fatEntry v disk' c = k.fatEntry v disk c) : k.LeadsTo v disk' l e := by
  induction l with
  | nil => trivial
  | cons c l ih =>
    obtain ⟨hc, hl⟩ := List.forall_mem_cons.mp heq
    exact ⟨hc.trans h.1, ih h.2 hl⟩

lemma LeadsTo.append_left {l₁ l₂ : List ℕ} (h : k.LeadsTo v disk (l₁ ++ l₂) e) :
    k.LeadsTo v disk l₁ (l₂.headD e) := by
  induction l₁ with
  | nil => trivial
  | cons c l₁ ih =>
    refine ⟨h.1.trans ?_, ih h.2⟩
    cases l₁ <;> rfl

/-- The entries of a chain lead to its marker. -/
lemma Linked.leadsTo (h : k.Linked v disk chain) :
    k.LeadsTo v disk chain (k.fatEntry v disk (lastCluster chain)) := by
  have hall : ∀ i, k.LeadsTo v disk (chain.drop i) (k.fatEntry v disk (lastCluster chain)) := by
    intro i
    by_cases hi : i < chain.length
    · induction hn : chain.length - i generalizing i with
      | zero => omega
      | succ n ih =>
        have hget : chain[i] = chain.getD i 0 := (List.getD_eq_getElem _ _ hi).symm
        rw [List.drop_eq_getElem_cons hi, hget]
        by_cases hlt : i + 1 < chain.length
        · have hget' : chain[i + 1] = chain.getD (i + 1) 0 :=
            (List.getD_eq_getElem _ _ hlt).symm
          have hrest := ih (i + 1) hlt (by omega)
          refine ⟨?_, hrest⟩
          rw [h.next i hlt, List.drop_eq_getElem_cons hlt, hget']
          rfl
        · have hlast : i = chain.length - 1 := by omega
          rw [List.drop_eq_nil_of_le (by omega), hlast]
          exact ⟨rfl, trivial⟩
    · rw [List.drop_eq_nil_of_le (by omega)]
      trivial
  exact hall 0

/-- One round of the loop. -/
lemma eraseFrom_step (hf : disk.FaultFree) (hc : k.Reachable v c) :
    k.eraseFrom v last disk c = if k.fatEntry v disk c = last then some (k.setEntry v disk c 0)
      else k.eraseFrom v last (k.setEntry v disk c 0) (k.fatEntry v disk c) := by
  rw [eraseFrom, eraseLoop_step]
  simp only [entryCode_eq hf hc, writeFatEntry_eq hc hf]
  rfl

/-- The loop clears the entries along a chain, and goes on with what the last one holds. -/
lemma eraseFrom_leads (hf : disk.FaultFree) (hnodup : (c :: rest).Nodup)
    (hreach : ∀ x ∈ c :: rest, k.Reachable v x) (hlast : last ∉ rest)
    (hleads : k.LeadsTo v disk (c :: rest) e) :
    k.eraseFrom v last disk c = if e = last then some (k.clearEntries v disk (c :: rest))
      else k.eraseFrom v last (k.clearEntries v disk (c :: rest)) e := by
  induction rest generalizing disk c with
  | nil =>
    have hentry : k.fatEntry v disk c = e := hleads.1
    rw [eraseFrom_step hf (hreach c List.mem_cons_self), hentry]
    rfl
  | cons d rest ih =>
    obtain ⟨hne, hlast⟩ := List.ne_and_not_mem_of_not_mem_cons hlast
    obtain ⟨hnotin, hnodup⟩ := List.nodup_cons.mp hnodup
    have hentry : k.fatEntry v disk c = d := hleads.1
    -- the entries behind `c` are as before
    have hrest : k.LeadsTo v (k.setEntry v disk c 0) (d :: rest) e :=
      hleads.2.congr fun x hx => fatEntry_setEntry_of_ne fun hc => hnotin (hc ▸ hx)
    rw [eraseFrom_step hf (hreach c List.mem_cons_self), hentry, if_neg (Ne.symm hne),
      ih (FaultFree.setEntry hf) hnodup (fun x hx => hreach x (List.mem_cons_of_mem _ hx)) hlast
        hrest]
    rfl

/-! ## What the loop leaves -/

lemma eraseFrom_induction {P : Disk → ℕ → Disk → Prop}
    (hstop : ∀ disk c, k.entryCode v disk c = last → P disk c (k.writeFatEntry v disk c 0).2)
    (hstep : ∀ disk c disk', k.entryCode v disk c ≠ last →
      P (k.writeFatEntry v disk c 0).2 (k.entryCode v disk c) disk' → P disk c disk')
    (h : k.eraseFrom v last disk c = some disk') : P disk c disk' := by
  refine Loop.run_induction (P := fun p disk' => P p.1 p.2 disk') ?_ ?_ h
  · rintro ⟨disk, c⟩ disk' hleave
    dsimp only at hleave
    split_ifs at hleave with hcode
    · obtain rfl := Sum.inr.inj (Option.some.inj hleave)
      exact hstop disk c hcode
    · cases hleave
  · rintro ⟨disk, c⟩ ⟨disk₁, c₁⟩ disk' hnext hP
    dsimp only at hnext
    split_ifs at hnext with hcode
    · cases hnext
    · simp only [Option.some.injEq, Sum.inl.injEq, Prod.mk.injEq] at hnext
      obtain ⟨rfl, rfl⟩ := hnext
      dsimp only at hP
      exact hstep disk c disk' hcode hP

end FatKind

open FatKind

/-! ## FAT16 -/

variable {v : FatVolume} {disk disk' : Disk} {chain : List ℕ} {c first : ℕ}

/-- The entries of a table of the FAT16 driver lie below the position `2 ^ 31`. -/
lemma fat16_reachable (hv : HeaderRanges v) (hc : c < 2 ^ 16) : fat16.Reachable v c := by
  have hreserved : v.reservedSectors * v.sectorSize ≤ 2 ^ 16 * 2048 :=
    Nat.mul_le_mul hv.reserved_lt.le hv.sectorSize_le
  have hsize : fat16.entrySize = 2 := rfl
  rw [Reachable, tablePos, hsize]
  omega

lemma fat16_entryCode_lt (disk : Disk) (c : ℕ) : fat16.entryCode v disk c < 2 ^ 16 :=
  entryCode_lt disk c

/-- The number is that of an entry of the table, as entries `0` and `1` are. -/
def InFat16Table (v : FatVolume) (c : ℕ) : Prop :=
  c < 2 ∨ (c + 1) * fat16.entrySize ≤ v.sectorsPerFat * v.sectorSize

/-- The call succeeds, the entries of the chain are cleared, and no other entry of the table has
changed. -/
def ErasesChain16 (v : FatVolume) (disk : Disk) (first : ℕ) (chain : List ℕ) : Prop :=
  ∃ disk', fat16EraseClusterChain v disk first = some (0, disk') ∧
    (∀ c ∈ chain, fat16.fatEntry v disk' c = 0) ∧
    ∀ c, InFat16Table v c → c ∉ chain → fat16.fatEntry v disk' c = fat16.fatEntry v disk c

/-- Taken for a cluster, the marker leads to `0xFFFF` over numbers behind the table. -/
def StraysOut (v : FatVolume) (disk : Disk) (chain : List ℕ) (marker : ℕ) : Prop :=
  ∃ path : List ℕ, (marker :: path).Nodup ∧ fat16.LeadsTo v disk (marker :: path) 0xFFFF ∧
    0xFFFF ∉ path ∧ ∀ c ∈ marker :: path, c < 2 ^ 16 ∧ ¬ InFat16Table v c ∧ c ∉ chain

/-- A cleared entry stays so. -/
lemma eraseFrom16_zero (hv : HeaderRanges v) {last : ℕ}
    (h : fat16.eraseFrom v last disk c = some disk') :
    disk.FaultFree → c < 2 ^ 16 → ∀ x, fat16.fatEntry v disk x = 0 →
      fat16.fatEntry v disk' x = 0 := by
  have hclear : ∀ {disk : Disk} {c x : ℕ}, disk.FaultFree → c < 2 ^ 16 →
      fat16.fatEntry v disk x = 0 → fat16.fatEntry v (fat16.writeFatEntry v disk c 0).2 x = 0 := by
    intro disk c x hf hc hx
    rw [writeFatEntry_eq (fat16_reachable hv hc) hf]
    by_cases hcx : c = x
    · rw [hcx]
      exact fatEntry_setEntry_self (by decide)
    · rw [fatEntry_setEntry_of_ne hcx, hx]
  refine eraseFrom_induction (P := fun disk c disk' => disk.FaultFree → c < 2 ^ 16 →
    ∀ x, fat16.fatEntry v disk x = 0 → fat16.fatEntry v disk' x = 0) ?_ ?_ h
  · exact fun disk c _ hf hc x hx => hclear hf hc hx
  · intro disk c disk' _ ih hf hc x hx
    have hf' : (fat16.writeFatEntry v disk c 0).2.FaultFree := by
      rw [writeFatEntry_eq (fat16_reachable hv hc) hf]
      exact FaultFree.setEntry hf
    exact ih hf' (fat16_entryCode_lt disk c) x (hclear hf hc hx)

/-- When the loop ends and the entries in `K` are as before, it has gone a way past them.  Entry
`0` is in `K` or cleared, so that a cleared entry leads into a circle. -/
lemma eraseFrom16_path (hv : HeaderRanges v) {K : ℕ → Prop}
    (h : fat16.eraseFrom v 0xFFFF disk c = some disk') :
    disk.FaultFree → c < 2 ^ 16 → (K 0 ∨ fat16.fatEntry v disk 0 = 0) →
    (∀ x, K x → fat16.fatEntry v disk' x = fat16.fatEntry v disk x) →
    ∃ path : List ℕ, (c :: path).Nodup ∧ fat16.LeadsTo v disk (c :: path) 0xFFFF ∧
      0xFFFF ∉ path ∧ ∀ x ∈ c :: path, x < 2 ^ 16 ∧ ¬ K x ∧ fat16.fatEntry v disk x ≠ 0 := by
  refine eraseFrom_induction (P := fun disk c disk' =>
    fat16.eraseFrom v 0xFFFF disk c = some disk' → disk.FaultFree → c < 2 ^ 16 →
    (K 0 ∨ fat16.fatEntry v disk 0 = 0) →
    (∀ x, K x → fat16.fatEntry v disk' x = fat16.fatEntry v disk x) →
    ∃ path : List ℕ, (c :: path).Nodup ∧ fat16.LeadsTo v disk (c :: path) 0xFFFF ∧
      0xFFFF ∉ path ∧ ∀ x ∈ c :: path, x < 2 ^ 16 ∧ ¬ K x ∧ fat16.fatEntry v disk x ≠ 0)
    ?_ ?_ h h
  · intro disk c hcode _ hf hc _ hkept
    have hreach := fat16_reachable hv hc
    rw [entryCode_eq hf hreach] at hcode
    refine ⟨[], List.nodup_singleton c, ⟨hcode, trivial⟩, by simp, ?_⟩
    rintro x hx
    obtain rfl : x = c := by simpa using hx
    refine ⟨hc, fun hK => ?_, by omega⟩
    have hzero := hkept x hK
    rw [writeFatEntry_eq hreach hf, fatEntry_setEntry_self (by decide), hcode] at hzero
    exact absurd hzero (by decide)
  · intro disk c disk' hcode ih hrun hf hc hzero hkept
    have hreach := fat16_reachable hv hc
    have hrest : fat16.eraseFrom v 0xFFFF (fat16.setEntry v disk c 0)
        (fat16.fatEntry v disk c) = some disk' := by
      rw [entryCode_eq hf hreach] at hcode
      rwa [eraseFrom_step hf hreach, if_neg hcode] at hrun
    have hlt := fat16_entryCode_lt (v := v) disk c
    rw [entryCode_eq hf hreach, writeFatEntry_eq hreach hf] at ih
    rw [entryCode_eq hf hreach] at hcode hlt
    have hf' : (fat16.setEntry v disk c 0).FaultFree := FaultFree.setEntry hf
    have hself : fat16.fatEntry v (fat16.setEntry v disk c 0) c = 0 :=
      fatEntry_setEntry_self (by decide)
    -- an entry in `K` that the loop comes to was clear before
    have hclear : K c → fat16.fatEntry v disk c = 0 := fun hK => by
      rw [← hkept c hK]
      exact eraseFrom16_zero hv hrest hf' hlt c hself
    have hsame : ∀ x, K x →
        fat16.fatEntry v (fat16.setEntry v disk c 0) x = fat16.fatEntry v disk x := by
      intro x hK
      by_cases hcx : c = x
      · subst hcx
        rw [hself, hclear hK]
      · exact fatEntry_setEntry_of_ne hcx
    have hzero' : K 0 ∨ fat16.fatEntry v (fat16.setEntry v disk c 0) 0 = 0 := by
      refine hzero.imp_right fun h0 => ?_
      by_cases hc0 : c = 0
      · rw [hc0] at hself ⊢
        exact hself
      · rw [fatEntry_setEntry_of_ne hc0, h0]
    obtain ⟨path, hnodup, hleads, hend, hall⟩ := ih hrest hf' hlt hzero' fun x hK =>
      (hkept x hK).trans (hsame x hK).symm
    have hnotin : c ∉ fat16.fatEntry v disk c :: path := fun hmem => (hall c hmem).2.2 hself
    have heq : ∀ x ∈ fat16.fatEntry v disk c :: path,
        fat16.fatEntry v disk x = fat16.fatEntry v (fat16.setEntry v disk c 0) x := by
      intro x hx
      refine (fatEntry_setEntry_of_ne ?_).symm
      rintro rfl
      exact hnotin hx
    -- the entry of `c` is not clear: entry `0` would be one of the next ones
    have hne : fat16.fatEntry v disk c ≠ 0 := by
      intro hc0
      have h0 := hall _ List.mem_cons_self
      rw [hc0] at h0
      exact hzero'.elim h0.2.1 h0.2.2
    refine ⟨fat16.fatEntry v disk c :: path, List.nodup_cons.mpr ⟨hnotin, hnodup⟩,
      ⟨rfl, hleads.congr heq⟩, ?_, ?_⟩
    · simp only [List.mem_cons, not_or]
      exact ⟨Ne.symm hcode, hend⟩
    · refine List.forall_mem_cons.mpr ⟨⟨hc, fun hK => hne (hclear hK), hne⟩, fun x hx => ?_⟩
      obtain ⟨hx16, hK, hx0⟩ := hall x hx
      exact ⟨hx16, hK, by rwa [heq x hx]⟩

/-- The loop clears the entries of a chain, and goes on with its marker. -/
lemma StartsChain.eraseFrom_eq {k : FatKind} {last : ℕ} (h : k.StartsChain v disk first chain)
    (hf : disk.FaultFree) (hreach : ∀ c ∈ chain, k.Reachable v c) (hlast : last ∉ chain.tail) :
    k.eraseFrom v last disk first =
      if k.fatEntry v disk (lastCluster chain) = last then some (k.clearEntries v disk chain)
      else k.eraseFrom v last (k.clearEntries v disk chain)
        (k.fatEntry v disk (lastCluster chain)) := by
  have hleads := h.linked.leadsTo
  have hnodup := h.linked.nodup
  have hfirst := h.first_eq
  cases chain with
  | nil => exact absurd hfirst (by simp)
  | cons c rest =>
    obtain rfl : c = first := Option.some.inj hfirst
    exact eraseFrom_leads hf hnodup hreach hlast hleads

lemma fat16EraseClusterChain_eq (hfirst : 2 < first) : fat16EraseClusterChain v disk first =
    (fat16.eraseFrom v 0xFFFF disk first).map fun disk => (0, disk) := by
  rw [fat16EraseClusterChain, if_neg (by omega)]
  rfl

/-- When the loop keeps the table as it goes on with the marker, this strays out of it. -/
lemma straysOut_of_eraseFrom (hv : HeaderRanges v) (hf : disk.FaultFree) {marker : ℕ}
    (hmarker : marker < 2 ^ 16)
    (hloop : fat16.eraseFrom v 0xFFFF (fat16.clearEntries v disk chain) marker = some disk')
    (hsame : ∀ c, InFat16Table v c → c ∉ chain →
      fat16.fatEntry v disk' c = fat16.fatEntry v disk c) : StraysOut v disk chain marker := by
  have hother : ∀ {x}, x ∉ chain →
      fat16.fatEntry v (fat16.clearEntries v disk chain) x = fat16.fatEntry v disk x :=
    fatEntry_clearEntries_of_notMem
  have hclear : ∀ {x}, x ∈ chain →
      fat16.fatEntry v (fat16.clearEntries v disk chain) x = 0 := fatEntry_clearEntries_of_mem
  -- entry `0` is one of those that are kept, or it is clear
  have hzero : (InFat16Table v 0 ∧ 0 ∉ chain) ∨
      fat16.fatEntry v (fat16.clearEntries v disk chain) 0 = 0 := by
    by_cases h0 : 0 ∈ chain
    · exact Or.inr (hclear h0)
    · exact Or.inl ⟨Or.inl (by omega), h0⟩
  obtain ⟨path, hnodup, hleads, hstop, hall⟩ := eraseFrom16_path hv
    (K := fun c => InFat16Table v c ∧ c ∉ chain) hloop (FaultFree.clearEntries hf chain) hmarker
    hzero fun c hc => (hsame c hc.1 hc.2).trans (hother hc.2).symm
  have hpath : ∀ c ∈ marker :: path, c < 2 ^ 16 ∧ ¬ InFat16Table v c ∧ c ∉ chain := by
    intro c hc
    obtain ⟨hlt, hK, hne⟩ := hall c hc
    have hnotin : c ∉ chain := fun hmem => hne (hclear hmem)
    exact ⟨hlt, fun hin => hK ⟨hin, hnotin⟩, hnotin⟩
  exact ⟨path, hnodup, hleads.congr fun c hc => (hother (hpath c hc).2.2).symm, hstop, hpath⟩

/-- When the marker strays out of the table, the loop keeps the entries of the table. -/
lemma StraysOut.eraseFrom {marker : ℕ} (h : StraysOut v disk chain marker) (hv : HeaderRanges v)
    (hf : disk.FaultFree) : ∃ disk',
    fat16.eraseFrom v 0xFFFF (fat16.clearEntries v disk chain) marker = some disk' ∧
      ∀ c, InFat16Table v c ∨ c ∈ chain → fat16.fatEntry v disk' c =
        fat16.fatEntry v (fat16.clearEntries v disk chain) c := by
  obtain ⟨path, hnodup, hleads, hstop, hpath⟩ := h
  have hleads' : fat16.LeadsTo v (fat16.clearEntries v disk chain) (marker :: path) 0xFFFF :=
    hleads.congr fun c hc => fatEntry_clearEntries_of_notMem (hpath c hc).2.2
  have hout := eraseFrom_leads (FaultFree.clearEntries hf chain) hnodup
    (fun c hc => fat16_reachable hv (hpath c hc).1) hstop hleads'
  rw [if_pos rfl] at hout
  refine ⟨_, hout, fun c hc => fatEntry_clearEntries_of_notMem fun hmem => ?_⟩
  obtain ⟨-, hout', hnotin⟩ := hpath c hmem
  exact hc.elim hout' hnotin

/-- On a volume without faults, `fat16_erase_cluster_chain` clears the entries of a chain and no
others if and only if the chain ends with `0xFFFF`, or its marker strays from the table and leads
there. -/
theorem fat16_erase_chain_iff (hv : HeaderRanges v) (hf : disk.FaultFree)
    (h : fat16.StartsChain v disk first chain) (hfirst : 2 < first) :
    ErasesChain16 v disk first chain ↔
      fat16.fatEntry v disk (lastCluster chain) = 0xFFFF ∨
        StraysOut v disk chain (fat16.fatEntry v disk (lastCluster chain)) := by
  have hend : fat16.endOfChain = 0xFFF8 := rfl
  have hreach : ∀ c ∈ chain, fat16.Reachable v c := fun c hc =>
    fat16_reachable hv ((h.clusters c hc).trans (by rw [hend]; decide))
  have hlast : 0xFFFF ∉ chain.tail := fun hmem => by
    have := h.clusters _ (List.mem_of_mem_tail hmem)
    omega
  have hrun := StartsChain.eraseFrom_eq h hf hreach hlast
  have hcall : fat16EraseClusterChain v disk first = _ := fat16EraseClusterChain_eq hfirst
  have hmarker : fat16.fatEntry v disk (lastCluster chain) < 2 ^ 16 := fatEntry_lt _ _
  by_cases hFFFF : fat16.fatEntry v disk (lastCluster chain) = 0xFFFF
  · rw [if_pos hFFFF] at hrun
    rw [hrun] at hcall
    exact iff_of_true ⟨_, hcall, fun c hc => fatEntry_clearEntries_of_mem hc,
      fun c _ hc => fatEntry_clearEntries_of_notMem hc⟩ (Or.inl hFFFF)
  rw [if_neg hFFFF] at hrun
  rw [hrun] at hcall
  constructor
  · rintro ⟨disk', hsome, -, hsame⟩
    obtain ⟨_, hloop, hres⟩ := Option.map_eq_some_iff.mp (hcall.symm.trans hsome)
    cases hres
    exact Or.inr (straysOut_of_eraseFrom hv hf hmarker hloop hsame)
  · rintro (heq | hstrays)
    · exact absurd heq hFFFF
    obtain ⟨disk', hloop, hkept⟩ := hstrays.eraseFrom hv hf
    rw [hloop] at hcall
    refine ⟨disk', hcall, fun c hc => ?_, fun c hin hc => ?_⟩
    · rw [hkept c (Or.inr hc), fatEntry_clearEntries_of_mem hc]
    · rw [hkept c (Or.inl hin), fatEntry_clearEntries_of_notMem hc]

/-- The byte of a volume with entries `0` and `1` as they are written when it is formatted, and a
chain of cluster `3` with the marker. -/
def markedByte (low : UInt8) (a : ℕ) : UInt8 :=
  if a = 512 then 0xF8 else if a = 518 then low
  else if a = 513 ∨ a = 514 ∨ a = 515 ∨ a = 519 then 0xFF else 0

lemma startsChain_marked {low : UInt8}
    (hend : fat16.endOfChain ≤ fat16.fatEntry smallVolume (diskWith (markedByte low)) 3) :
    fat16.StartsChain smallVolume (diskWith (markedByte low)) 3 [3] := by
  refine ⟨rfl, ⟨List.nodup_singleton 3, fun i hi => ?_, fun i hi => ?_⟩, ?_⟩
  · simp at hi
  · obtain rfl : i = 0 := by simpa using hi
    exact hend
  · simp only [List.mem_singleton, forall_eq]
    decide

/-- A chain that ends with `0xFFFF`. -/
theorem fat16_erase_chain_iff_ffff :
    ErasesChain16 smallVolume (diskWith (markedByte 0xFF)) 3 [3] :=
  (fat16_erase_chain_iff headerRanges_small (diskWith_faultFree _)
    (startsChain_marked (by decide)) (by decide)).mpr (Or.inl (by decide))

/-- A chain that ends with `0xFFF8`: the loop comes to entry `0`. -/
theorem not_fat16_erase_chain_fff8 :
    fat16.StartsChain smallVolume (diskWith (markedByte 0xF8)) 3 [3] ∧
      ¬ ErasesChain16 smallVolume (diskWith (markedByte 0xF8)) 3 [3] := by
  refine ⟨startsChain_marked (by decide), ?_⟩
  rintro ⟨disk', hrun, -, hkept⟩
  have hf : (diskWith (markedByte 0xF8)).FaultFree := diskWith_faultFree _
  have hreach : ∀ c ∈ [3, 0xFFF8, 0], fat16.Reachable smallVolume c := fun c hc =>
    fat16_reachable headerRanges_small (by
      simp only [List.mem_cons, List.not_mem_nil, or_false] at hc
      omega)
  have hcall : (fat16.eraseFrom smallVolume 0xFFFF (diskWith (markedByte 0xF8)) 3).map
      (fun disk => ((0 : ℤ), disk)) = some (0, disk') := hrun
  have hleads : fat16.LeadsTo smallVolume (diskWith (markedByte 0xF8)) [3, 0xFFF8, 0] 0xFFF8 :=
    ⟨by decide, by decide, by decide, trivial⟩
  rw [eraseFrom_leads hf (by decide) hreach (by decide) hleads, if_neg (by decide)] at hcall
  obtain ⟨_, hloop, hres⟩ := Option.map_eq_some_iff.mp hcall
  cases hres
  have hzero := eraseFrom16_zero headerRanges_small hloop (FaultFree.clearEntries hf _) (by decide)
    0 (fatEntry_clearEntries_of_mem (by simp))
  have hentry : fat16.fatEntry smallVolume (diskWith (markedByte 0xF8)) 0 = 0xFFF8 := by decide
  rw [hkept 0 (Or.inl (by decide)) (by decide), hentry] at hzero
  exact absurd hzero (by decide)

/-! ## FAT32 -/

/-- Every position that the driver computes has the same remainder modulo `4`. -/
lemma fat32_position (v : FatVolume) (c : ℕ) :
    i32 (fat32.entryPos v c) % 4 = (v.reservedSectors * v.sectorSize : ℕ) % 4 := by
  have hpos : fat32.entryPos v c = (v.reservedSectors * v.sectorSize : ℕ) + (c : ℤ) * 4 := by
    rw [entryPos]
    push_cast
    rfl
  rw [hpos]
  generalize v.reservedSectors * v.sectorSize = base
  unfold i32
  rw [Int.bmod_def]
  omega

/-- Storing an entry of any number. -/
lemma fat32_writeFatEntry_spec (hf : disk.FaultFree) (c val : ℕ) :
    (fat32.writeFatEntry v disk c val).2.FaultFree ∧
      (∀ a : ℕ, a < i32 (fat32.entryPos v c) ∨ i32 (fat32.entryPos v c) + 4 ≤ a →
        (fat32.writeFatEntry v disk c val).2.byte a = disk.byte a) ∧
      ∀ p : ℕ, i32 (fat32.entryPos v c) = p →
        slice (fat32.writeFatEntry v disk c val).2.byte p 4 = numberBytes 4 val := by
  have hwrite : fat32.writeFatEntry v disk c val =
      diskstreamerWrite disk (i32 (fat32.entryPos v c)) (numberBytes 4 val) := rfl
  obtain ⟨hf', hframe⟩ := diskstreamerWrite_frame (numberBytes 4 val) hf (i32 (fat32.entryPos v c))
  have hself := fun b a => slice_store_self (b := b) (a := a) (numberBytes 4 val)
  rw [length_numberBytes] at hframe hself
  rw [hwrite]
  refine ⟨hf', fun a ha => hframe a (by exact_mod_cast ha), fun p hp => ?_⟩
  rw [hp, diskstreamerWrite_ok hf]
  exact hself _ _

/-- An entry at a position that is negative as an `int` cannot be read. -/
lemma fat32_entryCode_of_neg (hneg : i32 (fat32.entryPos v c) < 0) :
    fat32.entryCode v disk c = 0xFFFFFFFF := by
  have hread : (diskstreamerRead disk (i32 (fat32.entryPos v c)) fat32.entrySize).1 =
      -etimedout := by
    rw [diskstreamerRead, diskstreamerReadLoop, if_pos hneg]
  have hlt : (-etimedout : ℤ) < 0 := by decide
  rw [entryCode, getFatEntry]
  simp only [hread, if_pos hlt]
  decide

lemma fat32_entryCode_of_pos (hf : disk.FaultFree) {p : ℕ} (hp : i32 (fat32.entryPos v c) = p) :
    fat32.entryCode v disk c = number (slice disk.byte p 4) := by
  have hnumber := number_lt (slice disk.byte p 4)
  rw [length_slice] at hnumber
  rw [entryCode, getFatEntry, hp, diskstreamerRead_ok hf]
  simp only [lt_irrefl, if_false]
  rw [← Int.natCast_mod, Int.toNat_natCast]
  exact Nat.mod_eq_of_lt hnumber

/-- The entry of any number, as the driver reads it. -/
lemma fat32_entryCode_cases (hf : disk.FaultFree) (c : ℕ) :
    (fat32.entryCode v disk c = 0xFFFFFFFF) ∨ ∃ p : ℕ, i32 (fat32.entryPos v c) = p ∧
      fat32.entryCode v disk c = number (slice disk.byte p 4) := by
  rcases lt_or_ge (i32 (fat32.entryPos v c)) 0 with hneg | hpos
  · exact Or.inl (fat32_entryCode_of_neg hneg)
  · obtain ⟨p, hp⟩ := Int.eq_ofNat_of_zero_le hpos
    exact Or.inr ⟨p, hp, fat32_entryCode_of_pos hf hp⟩

/-- When the loop ends, it has cleared four bytes that held the value it stops at. -/
lemma eraseFrom32_slot {last : ℕ} (hlast : last ≠ 0) (hlast' : last ≠ 0xFFFFFFFF)
    (h : fat32.eraseFrom v last disk c = some disk') :
    disk.FaultFree → ∃ p : ℕ, p % 4 = v.reservedSectors * v.sectorSize % 4 ∧
      number (slice disk.byte p 4) = last ∧ slice disk'.byte p 4 = [0, 0, 0, 0] := by
  refine eraseFrom_induction (P := fun disk _ disk' => disk.FaultFree → ∃ p : ℕ,
    p % 4 = v.reservedSectors * v.sectorSize % 4 ∧ number (slice disk.byte p 4) = last ∧
      slice disk'.byte p 4 = [0, 0, 0, 0]) ?_ ?_ h
  · intro disk c hcode hf
    rcases fat32_entryCode_cases (v := v) hf c with hbad | ⟨p, hp, hread⟩
    · exact absurd (hcode.symm.trans hbad) hlast'
    · have hmod := fat32_position v c
      rw [hp] at hmod
      exact ⟨p, by omega, hread.symm.trans hcode, (fat32_writeFatEntry_spec hf c 0).2.2 p hp⟩
  · intro disk c disk' _ ih hf
    obtain ⟨hf', hframe, hself⟩ := fat32_writeFatEntry_spec (v := v) hf c 0
    obtain ⟨p, hmod, hslot, hzero⟩ := ih hf'
    have hmod' := fat32_position v c
    have hne : i32 (fat32.entryPos v c) ≠ p := by
      intro hp
      rw [hself p hp] at hslot
      exact hlast hslot.symm
    have hslice : slice disk.byte p 4 = slice (fat32.writeFatEntry v disk c 0).2.byte p 4 :=
      slice_eq_iff.mpr fun i hi => (hframe (p + i) (by omega)).symm
    refine ⟨p, hmod, ?_, hzero⟩
    rw [hslice, hslot]

/-- The call succeeds, the entries of the chain are cleared, and no other byte of the disk has
changed. -/
def ErasesChain32 (v : FatVolume) (disk : Disk) (first : ℕ) (chain : List ℕ) : Prop :=
  ∃ disk', fat32EraseClusterChain v disk first = some (0, disk') ∧
    (∀ c ∈ chain, fat32.fatEntry v disk' c = 0) ∧
    ∀ a, ¬ fat32.InEntries v chain a → disk'.byte a = disk.byte a

/-- Behind a chain the loop goes on from the marker, and clears four bytes of which no entry of
the chain has any. -/
lemma eraseFrom32_marker (hf : disk.FaultFree)
    (h : fat32.eraseFrom v 0x0FFFFFF (fat32.clearEntries v disk chain) c = some disk') :
    ∃ a, ¬ fat32.InEntries v chain a ∧ disk'.byte a ≠ disk.byte a := by
  have hsize : fat32.entrySize = 4 := rfl
  obtain ⟨p, hmod, hslot, hzero⟩ :=
    eraseFrom32_slot (by decide) (by decide) h (FaultFree.clearEntries hf chain)
  -- a byte of an entry of the chain would be one of four bytes that are clear
  have hout : ∀ i < 4, ¬ fat32.InEntries v chain (p + i) := by
    rintro i hi ⟨x, hx, hle, hlt⟩
    have hpos : fat32.tablePos v x = p := by
      rw [tablePos, hsize] at hle hlt ⊢
      omega
    have hclear : fat32.fatEntry v (fat32.clearEntries v disk chain) x = 0 :=
      fatEntry_clearEntries_of_mem hx
    have hentry : fat32.fatEntry v (fat32.clearEntries v disk chain) x =
        number (slice (fat32.clearEntries v disk chain).byte p 4) := by
      rw [← hpos]
      rfl
    rw [hentry, hslot] at hclear
    exact absurd hclear (by decide)
  by_contra! hsame
  have hslice : slice disk'.byte p 4 = slice (fat32.clearEntries v disk chain).byte p 4 := by
    refine slice_eq_iff.mpr fun i hi => ?_
    rw [hsame _ (hout i hi), clearEntries_of_not_inEntries (hout i hi)]
  rw [← hslice, hzero] at hslot
  exact absurd hslot (by decide)

/-- The last cluster of a list is behind any part at its front. -/
lemma lastCluster_append_mem {l₁ l₂ : List ℕ} (hne : l₂ ≠ []) :
    lastCluster (l₁ ++ l₂) ∈ l₂ := by
  have hpos := List.length_pos_iff.mpr hne
  have hlast : lastCluster (l₁ ++ l₂) = lastCluster l₂ := by
    simp only [lastCluster, List.length_append]
    rw [List.getD_append_right _ _ _ _ (by omega)]
    congr 1
    omega
  exact hlast ▸ lastCluster_mem hne

/-- What the loop does to a chain that ends with the marker of the driver: it leaves an entry of
the chain, or it clears other bytes. -/
lemma eraseFrom32_chain (hv : HeaderRanges v) (hf : disk.FaultFree)
    (h : fat32.StartsChain v disk first chain)
    (hend : fat32.fatEntry v disk (lastCluster chain) = 0x0FFFFFFF)
    (hloop : fat32.eraseFrom v 0x0FFFFFF disk first = some disk') :
    (∃ c ∈ chain, fat32.fatEntry v disk' c ≠ 0) ∨
      ∃ a, ¬ fat32.InEntries v chain a ∧ disk'.byte a ≠ disk.byte a := by
  have hreach : ∀ c ∈ chain, fat32.Reachable v c := fun c hc =>
    fat32_tablePos_lt hv ((h.clusters c hc).trans (by decide))
  by_cases hstop : 0x0FFFFFF ∈ chain.tail
  · -- the loop takes a cluster of the chain for the marker, and leaves the rest
    have hnodup := h.linked.nodup
    have hleads := h.linked.leadsTo
    rw [hend] at hleads
    obtain ⟨l₁, l₂, htail, hnotin⟩ := List.eq_append_cons_of_mem hstop
    have hchain : chain = (first :: l₁) ++ 0x0FFFFFF :: l₂ := by
      rw [← List.cons_head?_tail h.first_eq, htail]
      rfl
    have hlast : lastCluster ((first :: l₁) ++ 0x0FFFFFF :: l₂) ∈ 0x0FFFFFF :: l₂ :=
      lastCluster_append_mem (List.cons_ne_nil _ _)
    have hmem := lastCluster_mem h.ne_nil
    rw [← hchain] at hlast
    rw [hchain] at hnodup hleads hreach
    obtain ⟨hnodup₁, -, hdisjoint⟩ := List.nodup_append.mp hnodup
    have hout := eraseFrom_leads hf hnodup₁ (fun c hc => hreach c (List.mem_append_left _ hc))
      hnotin hleads.append_left
    rw [List.headD_cons, if_pos rfl] at hout
    obtain rfl : fat32.clearEntries v disk (first :: l₁) = disk' :=
      Option.some.inj (hout.symm.trans hloop)
    refine Or.inl ⟨_, hmem, ?_⟩
    rw [fatEntry_clearEntries_of_notMem fun hin => hdisjoint _ hin _ hlast rfl, hend]
    decide
  · rw [StartsChain.eraseFrom_eq h hf hreach hstop, hend, if_neg (by decide)] at hloop
    exact Or.inr (eraseFrom32_marker hf hloop)

/-- A call that erases the chain is a run of the loop that does. -/
lemma ErasesChain32.eraseFrom (h : ErasesChain32 v disk first chain) (hfirst : 2 < first) :
    ∃ disk', fat32.eraseFrom v 0x0FFFFFF disk first = some disk' ∧
      (∀ c ∈ chain, fat32.fatEntry v disk' c = 0) ∧
      ∀ a, ¬ fat32.InEntries v chain a → disk'.byte a = disk.byte a := by
  obtain ⟨disk', hrun, hdone⟩ := h
  rw [fat32EraseClusterChain, if_neg (by omega)] at hrun
  obtain ⟨_, hloop, hres⟩ := Option.map_eq_some_iff.mp hrun
  cases hres
  exact ⟨disk', hloop, hdone⟩

/-- On a volume without faults, `fat32_erase_cluster_chain` never erases just a chain that ends
with the marker that the driver writes: it goes on behind the marker, unless a cluster of the
chain has the number that it takes for one. -/
theorem fat32_erase_chain_never (hv : HeaderRanges v) (hf : disk.FaultFree)
    (h : fat32.StartsChain v disk first chain) (hfirst : 2 < first)
    (hend : fat32.fatEntry v disk (lastCluster chain) = 0x0FFFFFFF) :
    ¬ ErasesChain32 v disk first chain := by
  intro herases
  obtain ⟨disk', hloop, hclear, hkept⟩ := herases.eraseFrom hfirst
  rcases eraseFrom32_chain hv hf h hend hloop with ⟨c, hc, hne⟩ | ⟨a, hout, hne⟩
  · exact hne (hclear c hc)
  · exact hne (hkept a hout)

/-- The byte of a volume with a chain of the clusters `3` and `4`. -/
def chainByte (a : ℕ) : UInt8 :=
  if a = 524 then 0x04 else if a = 531 then 0x0F else if 528 ≤ a ∧ a < 531 then 0xFF else 0

lemma startsChain_pair : fat32.StartsChain smallVolume (diskWith chainByte) 3 [3, 4] := by
  refine ⟨rfl, ⟨by decide, fun i hi => ?_, fun i hi => ?_⟩, by decide⟩
  · obtain rfl : i = 0 := by
      rw [List.length_cons, List.length_singleton] at hi
      omega
    decide
  · obtain rfl : i = 1 := by simpa using hi
    decide

/-- A chain of two clusters. -/
theorem fat32_erase_chain_never_pair :
    ¬ ErasesChain32 smallVolume (diskWith chainByte) 3 [3, 4] :=
  fat32_erase_chain_never headerRanges_small (diskWith_faultFree _) startsChain_pair (by decide)
    (by decide)

/-- A chain of one cluster: the loop goes on from its marker. -/
theorem not_fat32_erase_chain_single :
    fat32.StartsChain smallVolume (diskWith chainByte) 4 [4] ∧
      fat32.fatEntry smallVolume (diskWith chainByte) (lastCluster [4]) = 0x0FFFFFFF ∧
      ¬ ErasesChain32 smallVolume (diskWith chainByte) 4 [4] := by
  have hchain : fat32.StartsChain smallVolume (diskWith chainByte) 4 [4] :=
    startsChain_singleton (by decide) (by decide)
  refine ⟨hchain, by decide, fun herases => ?_⟩
  obtain ⟨disk', hloop, hclear, hkept⟩ := herases.eraseFrom (by decide)
  rcases eraseFrom32_chain headerRanges_small (diskWith_faultFree _) hchain (by decide) hloop with
    ⟨c, hc, hne⟩ | ⟨a, hout, hne⟩
  · exact hne (hclear c hc)
  · exact hne (hkept a hout)

end SerpaeOS
