import SerpaeOS.Heap.OneBlock
import SerpaeOS.Lib.CString
import SerpaeOS.Lib.Bytes
import SerpaeOS.Memory.Paging

/-!
# Strings of a task

`copy_string_from_task` copies a string in two steps: with the page directory of the task in use
from the string to a temporary block of the kernel heap, which is mapped to itself for that time,
and with the directory of the kernel in use from there to the destination.

Nothing checks that the pages of the string are present, as those of memory that was given back with
`sos_free` are not: the kernel gets a page fault then and ends the task, and the call does not
return.  Nor does it go on if the task's directory has other pages in the place of the kernel's.
-/

namespace SerpaeOS

open BlockTable Bytes Word

/-- The page of an address is present: its entry and the entry of the directory above it are. -/
def PagePresent (c : PagingChunk) (virt : ℕ) : Prop :=
  c.directoryEntry (virt / (pagingTotalEntriesPerTable * pagingPageSize)) &&& pagingIsPresent ≠ 0 ∧
    pagingGet c (pagingAlignToLowerPage virt) &&& pagingIsPresent ≠ 0

instance (c : PagingChunk) (virt : ℕ) : Decidable (PagePresent c virt) :=
  inferInstanceAs (Decidable (_ ∧ _))

/-- The page directory in use. -/
inductive DirectoryInUse
  | kernel
  | task
  deriving DecidableEq, Repr

/-- The kernel heap, the bytes of the memory, and the page directories of the kernel and of a
task. -/
structure AddressSpaces where
  heap : Heap
  byte : ℕ → UInt8
  kernelDirectory : PagingChunk
  taskDirectory : PagingChunk
  inUse : DirectoryInUse
  /-- The pages with the code, the stack and the variables that the kernel uses. -/
  kernelPages : List ℕ

namespace AddressSpaces

/-- Where the bytes are that the task sees. -/
def taskAddress (s : AddressSpaces) (virt : ℕ) : ℕ :=
  pagingGetPhysicalAddress s.taskDirectory (virt % 2 ^ 32)

/-- Where the bytes are that the kernel sees under its own directory. -/
def kernelAddress (s : AddressSpaces) (virt : ℕ) : ℕ :=
  pagingGetPhysicalAddress s.kernelDirectory (virt % 2 ^ 32)

/-- Where the processor finds a byte, or a page fault. -/
def translate (s : AddressSpaces) (virt : ℕ) : Option ℕ :=
  match s.inUse with
  | .kernel => if PagePresent s.kernelDirectory (virt % 2 ^ 32) then some (s.kernelAddress virt)
    else none
  | .task => if PagePresent s.taskDirectory (virt % 2 ^ 32) then some (s.taskAddress virt) else none

/-- The kernel's own pages are in their places. -/
def KernelInPlace (s : AddressSpaces) : Prop := ∀ page ∈ s.kernelPages, s.translate page = some page

instance (s : AddressSpaces) : Decidable s.KernelInPlace :=
  inferInstanceAs (Decidable (∀ page ∈ s.kernelPages, s.translate page = some page))

/-- `paging_switch`.  The kernel only goes on if it finds its own pages. -/
def pagingSwitch (s : AddressSpaces) (inUse : DirectoryInUse) : Option AddressSpaces :=
  let s := { s with inUse := inUse }
  if s.KernelInPlace then some s else none

end AddressSpaces

/-- The loop of `memset`; `f` is the translation of the addresses. -/
def memsetLoop (f : ℕ → Option ℕ) (c : UInt8) : ℕ → ℕ → (ℕ → UInt8) → Option (ℕ → UInt8)
  | 0, _, byte => some byte
  | n + 1, ptr, byte => do
    let a ← f ptr
    memsetLoop f c n (ptr + 1) (Function.update byte a c)

/-- The loop of `strncpy` with `n` characters to go, and the end of the string. -/
def strncpyLoop (f : ℕ → Option ℕ) : ℕ → ℕ → ℕ → (ℕ → UInt8) → Option (ℕ → UInt8)
  | 0, dest, _, byte => do
    let d ← f dest
    return Function.update byte d 0
  | n + 1, dest, src, byte => do
    let a ← f src
    let d ← f dest
    if byte a = 0 then return Function.update byte d 0
    else strncpyLoop f n (dest + 1) (src + 1) (Function.update byte d (byte a))

namespace AddressSpaces

/-- `kzalloc`. -/
def kzalloc (s : AddressSpaces) (size : ℕ) : Option (AddressSpaces × ℕ) :=
  let (heap, ptr) := SerpaeOS.kzalloc s.heap size
  if ptr = 0 then some ({ s with heap := heap }, 0)
  else do
    let byte ← memsetLoop s.translate 0 size ptr s.byte
    return ({ s with heap := heap, byte := byte }, ptr)

def kfree (s : AddressSpaces) (ptr : ℕ) : AddressSpaces :=
  { s with heap := SerpaeOS.kfree s.heap ptr }

/-- `strncpy` of the kernel. -/
def strncpy (s : AddressSpaces) (dest src : ℕ) (count : ℤ) : Option AddressSpaces := do
  let byte ← strncpyLoop s.translate (count - 1).toNat dest src s.byte
  return { s with byte := byte }

end AddressSpaces

/-- `copy_string_from_task`; `none` is a call that does not return. -/
def copyStringFromTask (s : AddressSpaces) (virt phys : ℕ) (max : ℤ) :
    Option (ℤ × AddressSpaces) := do
  if max ≥ pagingPageSize then return (-einvarg, s)
  else
    let (s, tmp) ← s.kzalloc (u32 max)
    if tmp = 0 then return (-enomem, s)
    else
      let oldEntry := pagingGet s.taskDirectory tmp
      let (_, directory) := pagingMap s.taskDirectory tmp tmp
        (pagingIsWriteable ||| pagingIsPresent ||| pagingAccessFromAll)
      let s ← { s with taskDirectory := directory }.pagingSwitch .task
      let s ← s.strncpy tmp virt max
      let s ← s.pagingSwitch .kernel
      let (res, directory) := pagingSet s.taskDirectory tmp oldEntry
      let s := { s with taskDirectory := directory }
      if res < 0 then return (-eio, s.kfree tmp)
      else
        let s ← s.strncpy phys tmp max
        return (res, s.kfree tmp)

/-- The flags of the directory that `kernel_main` makes. -/
def kernelPageFlags : UInt8 :=
  UInt8.ofNat (pagingIsWriteable ||| pagingIsPresent ||| pagingAccessFromAll)

/-- The kernel uses its own directory, which `kernel_main` has made. -/
structure KernelPaged (s : AddressSpaces) : Prop where
  inUse_eq : s.inUse = .kernel
  directory : ∃ t, s.kernelDirectory = pagingNew4gb kernelPageFlags t
  pages_lt : ∀ page ∈ s.kernelPages, page < 2 ^ 32

/-- The temporary block. -/
def temporaryBlock (s : AddressSpaces) (max : ℕ) : ℕ := (SerpaeOS.kzalloc s.heap max).2

/-- An address in the page of another one. -/
def InPage (page a : ℕ) : Prop := a / pagingPageSize = page / pagingPageSize

instance (page a : ℕ) : Decidable (InPage page a) := inferInstanceAs (Decidable (_ = _))

/-- What the task's directory has to have: the page table of the temporary block, the kernel's own
pages in their places, and the pages of what is read of the string. -/
structure TaskPaged (s : AddressSpaces) (virt max : ℕ) : Prop where
  table : s.taskDirectory.directoryEntry (temporaryBlock s max /
    (pagingTotalEntriesPerTable * pagingPageSize)) &&& pagingIsPresent ≠ 0
  kernel : ∀ page ∈ s.kernelPages, PagePresent s.taskDirectory page ∧ s.taskAddress page = page
  string : ∀ x ∈ stringBytes (view s.taskAddress s.byte) virt (max - 1),
    PagePresent s.taskDirectory (x % 2 ^ 32)

/-- What is read of the string is not in the page of the temporary block, neither for the task nor
in the memory, and not in a page that the kernel itself uses. -/
def StringApart (s : AddressSpaces) (virt max : ℕ) : Prop :=
  ∀ x ∈ stringBytes (view s.taskAddress s.byte) virt (max - 1),
    ¬ InPage (temporaryBlock s max) (x % 2 ^ 32) ∧
      ¬ InPage (temporaryBlock s max) (s.taskAddress x) ∧
      ∀ page ∈ s.kernelPages, ¬ InPage page (s.taskAddress x)

/-- The string is in the destination, and everything else is as before. -/
structure StringCopied (s s' : AddressSpaces) (virt phys max : ℕ) : Prop where
  string : HasString (view s'.kernelAddress s'.byte) phys
    (cstring (view s.taskAddress s.byte) virt (max - 1))
  taskDirectory_eq : s'.taskDirectory = s.taskDirectory
  kernelDirectory_eq : s'.kernelDirectory = s.kernelDirectory
  inUse_eq : s'.inUse = s.inUse
  saddr_eq : s'.heap.saddr = s.heap.saddr
  total_eq : s'.heap.table.total = s.heap.table.total
  entries_eq : s'.heap.table.entries = s.heap.table.entries
  byte_eq : ∀ a, ¬ InPage (temporaryBlock s max) a → (∀ page ∈ s.kernelPages, ¬ InPage page a) →
    (∀ i < max, a ≠ (phys + i) % 2 ^ 32) → s'.byte a = s.byte a

variable {s s' : AddressSpaces} {c c' : PagingChunk} {f : ℕ → Option ℕ} {g : ℕ → ℕ}
  {byte : ℕ → UInt8} {virt phys max src dest a n : ℕ}

/-! ## Copying through a translation -/

/-- Where the translation is `g`, nothing else is cleared. -/
lemma memsetLoop_spec (u : UInt8) (n : ℕ) : ∀ {ptr : ℕ} {byte : ℕ → UInt8},
    (∀ i < n, f (ptr + i) = some (g (ptr + i))) → ∃ byte', memsetLoop f u n ptr byte = some byte' ∧
      ∀ a, (∀ i < n, a ≠ g (ptr + i)) → byte' a = byte a := by
  induction n with
  | zero => exact fun _ => ⟨_, rfl, fun _ _ => rfl⟩
  | succ n ih =>
    intro ptr byte hf
    have hfirst : f ptr = some (g ptr) := hf 0 (Nat.succ_pos n)
    have hshift : ∀ i, ptr + 1 + i = ptr + (i + 1) := fun i => by omega
    obtain ⟨byte', hloop, hbyte'⟩ := @ih (ptr + 1) (Function.update byte (g ptr) u) fun i hi => by
      rw [hshift]
      exact hf (i + 1) (Nat.succ_lt_succ hi)
    refine ⟨byte', ?_, fun a ha => ?_⟩
    · rw [memsetLoop, hfirst]
      exact hloop
    · rw [hbyte' a fun i hi => by rw [hshift]; exact ha (i + 1) (Nat.succ_lt_succ hi)]
      exact Function.update_of_ne (ha 0 (Nat.succ_pos n)) _ _

/-- Where the translation is `g`, the copy is what was read of the string if it is not written where
it is read from, and nothing else is written. -/
lemma strncpyLoop_spec (n : ℕ) : ∀ {dest src : ℕ} {byte : ℕ → UInt8},
    (∀ i ≤ n, f (dest + i) = some (g (dest + i))) →
    (∀ x ∈ stringBytes (view g byte) src n, f x = some (g x)) →
    (∀ i ≤ n, ∀ j ≤ n, g (dest + i) = g (dest + j) → i = j) →
    (∀ x ∈ stringBytes (view g byte) src n, ∀ i ≤ n, g x ≠ g (dest + i)) →
    ∃ byte', strncpyLoop f n dest src byte = some byte' ∧
      HasString (view g byte') dest (cstring (view g byte) src n) ∧
      ∀ a, (∀ i ≤ n, a ≠ g (dest + i)) → byte' a = byte a := by
  induction n with
  | zero =>
    intro dest src byte hdest _ _ _
    have hfirst : f dest = some (g dest) := hdest 0 le_rfl
    refine ⟨Function.update byte (g dest) 0, ?_, Function.update_self _ _ _, fun a ha =>
      Function.update_of_ne (ha 0 le_rfl) _ _⟩
    rw [strncpyLoop, hfirst]
    rfl
  | succ n ih =>
    intro dest src byte hdest hsrc hinj hapart
    have hfirst : f dest = some (g dest) := hdest 0 (Nat.zero_le _)
    have hread : f src = some (g src) := hsrc src (self_mem_stringBytes _ _ _)
    rw [strncpyLoop, hread, hfirst, cstring_succ, show view g byte src = byte (g src) from rfl]
    simp only [Option.bind_eq_bind, Option.bind_some]
    by_cases hzero : byte (g src) = 0
    · rw [if_pos hzero, if_pos hzero]
      exact ⟨_, rfl, Function.update_self _ _ _, fun a ha =>
        Function.update_of_ne (ha 0 (Nat.zero_le _)) _ _⟩
    rw [if_neg hzero, if_neg hzero]
    have hshift : ∀ i, dest + 1 + i = dest + (i + 1) := fun i => by omega
    have hsub : stringBytes (view g byte) (src + 1) n ⊆ stringBytes (view g byte) src (n + 1) :=
      stringBytes_succ hzero
    -- the rest of the string is not written with the first character
    have hrest : ∀ x ∈ stringBytes (view g byte) (src + 1) n,
        view g (Function.update byte (g dest) (byte (g src))) x = view g byte x := fun x hx =>
      Function.update_of_ne (hapart x (hsub hx) 0 (Nat.zero_le _)) _ _
    obtain ⟨byte', hloop, hstring, hframe⟩ :=
      @ih (dest + 1) (src + 1) (Function.update byte (g dest) (byte (g src))) (fun i hi => by
        rw [hshift]
        exact hdest (i + 1) (Nat.succ_le_succ hi)) (fun x hx => by
        rw [stringBytes_congr hrest] at hx
        exact hsrc x (hsub hx)) (fun i hi j hj hij => by
        rw [hshift, hshift] at hij
        exact Nat.succ.inj (hinj _ (Nat.succ_le_succ hi) _ (Nat.succ_le_succ hj) hij))
        fun x hx i hi => by
          rw [stringBytes_congr hrest] at hx
          rw [hshift]
          exact hapart x (hsub hx) (i + 1) (Nat.succ_le_succ hi)
    refine ⟨byte', hloop, ⟨?_, hzero, ?_⟩, fun a ha => ?_⟩
    · rw [view, hframe _ fun i hi hc => ?_]
      · exact Function.update_self _ _ _
      · rw [hshift] at hc
        exact absurd (hinj 0 (Nat.zero_le _) (i + 1) (Nat.succ_le_succ hi) hc) (by omega)
    · rwa [cstring_congr hrest] at hstring
    · rw [hframe a fun i hi => by rw [hshift]; exact ha (i + 1) (Nat.succ_le_succ hi)]
      exact Function.update_of_ne (ha 0 (Nat.zero_le _)) _ _

/-- The copy of a string whose page the task does not have stops at a page fault. -/
lemma strncpy_fault (hin : s.inUse = .task) (habsent : ¬ PagePresent s.taskDirectory (src % 2 ^ 32))
    {count : ℤ} (hcount : 2 ≤ count) : s.strncpy dest src count = none := by
  obtain ⟨n, hn⟩ : ∃ n, (count - 1).toNat = n + 1 := ⟨(count - 2).toNat, by omega⟩
  have hread : s.translate src = none := by
    rw [AddressSpaces.translate, hin]
    exact if_neg habsent
  rw [AddressSpaces.strncpy, hn, strncpyLoop, hread]
  rfl

lemma pagingSwitch_eq_some {inUse : DirectoryInUse} (h : s.pagingSwitch inUse = some s') :
    s' = { s with inUse := inUse } :=
  (Option.some.inj (Option.ite_none_right_eq_some.mp h).2).symm

/-! ## The page of the temporary block -/

lemma inPage_add {page i : ℕ} (hpage : page % 4096 = 0) (hi : i < 4096) :
    InPage page (page + i) := by
  rw [InPage, pagingPageSize]
  omega

/-- With a page mapped to itself, the task sees this page in its place and all others as before. -/
lemma pagingGetPhysicalAddress_of_mapped {page flags : ℕ} (hpage : page % 4096 = 0)
    (hlt : page < 2 ^ 32) (hflags : flags < 4096)
    (hget : ∀ w : ℕ, w % 4096 = 0 → w < 2 ^ 32 →
      pagingGet c' w = if w = page then page ||| flags else pagingGet c w) (ha : a < 2 ^ 32) :
    pagingGetPhysicalAddress c' a =
      if InPage page a then a else pagingGetPhysicalAddress c a := by
  have hentry := hget (a / 4096 * 4096) (by omega) (by omega)
  by_cases hin : InPage page a
  · have hin' : a / 4096 = page / 4096 := hin
    rw [if_pos (by omega)] at hentry
    rw [if_pos hin, pagingGetPhysicalAddress_of_entry hentry hpage hlt hflags]
    omega
  · have hin' : a / 4096 ≠ page / 4096 := hin
    rw [if_neg (by omega)] at hentry
    rw [if_neg hin]
    simp only [pagingGetPhysicalAddress, pagingAlignToLowerPage_eq, hentry]

lemma or_present {x flags : ℕ} (h : flags &&& pagingIsPresent ≠ 0) :
    (x ||| flags) &&& pagingIsPresent ≠ 0 := by
  rw [Nat.and_or_distrib_right]
  exact fun hzero => h (Nat.or_eq_zero_iff.mp hzero).2

/-- Only the entry of the page that is mapped gets present. -/
lemma pagePresent_of_mapped {page flags : ℕ} (hflags : flags &&& pagingIsPresent ≠ 0)
    (hdir : c'.directoryEntry = c.directoryEntry)
    (htable : c.directoryEntry (page / (pagingTotalEntriesPerTable * pagingPageSize)) &&&
      pagingIsPresent ≠ 0)
    (hget : ∀ w : ℕ, w % 4096 = 0 → w < 2 ^ 32 →
      pagingGet c' w = if w = page then page ||| flags else pagingGet c w) (ha : a < 2 ^ 32)
    (h : InPage page a ∧ page % 4096 = 0 ∨ PagePresent c a) : PagePresent c' a := by
  have hentry := hget (a / 4096 * 4096) (by omega) (by omega)
  rw [PagePresent, hdir, pagingAlignToLowerPage_eq, hentry]
  simp only [PagePresent, InPage, pagingTotalEntriesPerTable, pagingPageSize,
    pagingAlignToLowerPage_eq] at h htable ⊢
  by_cases heq : a / 4096 * 4096 = page
  · have hdiv : a / (1024 * 4096) = page / (1024 * 4096) := by omega
    rw [if_pos heq, hdiv]
    exact ⟨htable, or_present hflags⟩
  · rw [if_neg heq]
    exact h.resolve_left fun hin => heq (by omega)

/-- All pages of a directory that was made with the flag are present. -/
lemma pagePresent_pagingNew4gb {flags : UInt8} (hflags : flags.toNat &&& pagingIsPresent ≠ 0)
    (t : TableAddresses) (ha : a < 2 ^ 32) : PagePresent (pagingNew4gb flags t) a := by
  rw [PagePresent, pagingAlignToLowerPage_eq, pagingGet_pagingNew4gb _ _ (by omega) (by omega)]
  have hentry (i : ℕ) : (pagingNew4gb flags t).directoryEntry i =
      t.entry i ||| pagingIsWriteable ||| flags.toNat := Nat.or_right_comm _ _ _
  rw [hentry]
  exact ⟨or_present hflags, or_present hflags⟩

/-! ## The directory of the kernel -/

lemma kernelAddress_eq (h : KernelPaged s) (a : ℕ) : s.kernelAddress a = a % 2 ^ 32 := by
  obtain ⟨t, ht⟩ := h.directory
  rw [AddressSpaces.kernelAddress, ht]
  exact pagingGetPhysicalAddress_pagingNew4gb _ t (Nat.mod_lt _ (by decide))

lemma translate_kernel (h : KernelPaged s) (s' : AddressSpaces) (hin : s'.inUse = .kernel)
    (hdir : s'.kernelDirectory = s.kernelDirectory) (a : ℕ) :
    s'.translate a = some (a % 2 ^ 32) := by
  obtain ⟨t, ht⟩ := h.directory
  have hpresent : PagePresent s'.kernelDirectory (a % 2 ^ 32) := by
    rw [hdir, ht]
    exact pagePresent_pagingNew4gb (by decide) t (Nat.mod_lt _ (by decide))
  have haddress : s'.kernelAddress a = s.kernelAddress a := by
    rw [AddressSpaces.kernelAddress, hdir]
    rfl
  rw [AddressSpaces.translate, hin]
  simp only
  rw [if_pos hpresent, haddress, kernelAddress_eq h]

/-- The kernel can always go back to its own directory. -/
lemma pagingSwitch_kernel (h : KernelPaged s) (s' : AddressSpaces)
    (hdir : s'.kernelDirectory = s.kernelDirectory) (hpages : s'.kernelPages = s.kernelPages) :
    s'.pagingSwitch .kernel = some { s' with inUse := .kernel } := by
  refine if_pos fun page hpage => (translate_kernel h { s' with inUse := .kernel } rfl hdir
    page).trans ?_
  rw [Nat.mod_eq_of_lt (h.pages_lt page (hpages ▸ hpage))]

/-! ## The two steps -/

/-- What `copy_string_from_task` does with a temporary block. -/
lemma copyStringFromTask_eq {tmp : ℕ} {count : ℤ} (hcount : count < 4096)
    (hk : s.kzalloc (u32 count) = some (s', tmp)) (hnull : tmp ≠ 0) (htmp : tmp % 4096 = 0)
    (hlt : tmp < 2 ^ 32) : ∃ c, c.directoryEntry = s'.taskDirectory.directoryEntry ∧
      (∀ w : ℕ, w % 4096 = 0 → w < 2 ^ 32 →
        pagingGet c w = if w = tmp then tmp ||| 7 else pagingGet s'.taskDirectory w) ∧
      pagingSet c tmp (pagingGet s'.taskDirectory tmp) = (0, s'.taskDirectory) ∧
      copyStringFromTask s virt phys count =
        ({ s' with taskDirectory := c }.pagingSwitch .task).bind fun s =>
          (s.strncpy tmp virt count).bind fun s => (s.pagingSwitch .kernel).bind fun s =>
            let (res, directory) := pagingSet s.taskDirectory tmp (pagingGet s'.taskDirectory tmp)
            let s := { s with taskDirectory := directory }
            if res < 0 then some (-eio, s.kfree tmp)
            else (s.strncpy phys tmp count).bind fun s => some (res, s.kfree tmp) := by
  obtain ⟨c, hset, hdir, hget⟩ := pagingSet_of_aligned s'.taskDirectory htmp hlt (tmp ||| 7)
  have hback := pagingSet_pagingGet s'.taskDirectory htmp (tmp ||| 7)
  rw [hset] at hback
  have hmap : pagingMap s'.taskDirectory tmp tmp
      (pagingIsWriteable ||| pagingIsPresent ||| pagingAccessFromAll) = (0, c) := by
    rw [pagingMap, if_neg (by simp [pagingPageSize, htmp])]
    exact hset
  refine ⟨c, hdir, hget, hback, ?_⟩
  rw [copyStringFromTask, if_neg (by simp only [pagingPageSize]; omega), hk]
  simp only [Option.bind_eq_bind, Option.bind_some, if_neg hnull, hmap]
  rfl

/-- The temporary block is a free block of the heap, and only its bytes are cleared. -/
lemma KernelPaged.kzalloc (hkernel : KernelPaged s) (hheap : KernelTable s.heap)
    (hroom : (freeBlocks s.heap).Nonempty) (hpos : 1 ≤ max) (hle : max ≤ 4096) :
    ∃ b < kernelBlocks, ∃ heap' byte, temporaryBlock s max = blockAddress b ∧
      Marked s.heap heap' [b] ∧
      s.kzalloc max = some ({ s with heap := heap', byte := byte }, blockAddress b) ∧
      ∀ a, ¬ InPage (blockAddress b) a → byte a = s.byte a := by
  obtain ⟨b, heap', hk, hmarked⟩ := (Marked.refl s.heap).kzalloc hheap
    (Finset.card_pos.mpr hroom) hpos hle
  have hb := hmarked.lt_kernelBlocks hheap (List.mem_singleton_self b)
  have hlt := blockAddress_add_le hb
  obtain ⟨byte, hloop, hframe⟩ := @memsetLoop_spec s.translate (· % 2 ^ 32) 0 max (blockAddress b)
    s.byte fun i _ => translate_kernel hkernel s hkernel.inUse_eq rfl _
  refine ⟨b, hb, heap', byte, ?_, hmarked, ?_, fun a ha => hframe a fun i hi hc => ha ?_⟩
  · rw [temporaryBlock, hk]
  · rw [AddressSpaces.kzalloc, hk]
    simp only [if_neg (blockAddress_ne_zero b), hloop, Option.bind_eq_bind, Option.bind_some]
    rfl
  · rw [hc, Nat.mod_eq_of_lt (by omega)]
    exact inPage_add (blockAddress_mod b) (by omega)

/-- The two copies, through the page of a temporary block, which the task sees at its own place
then. -/
lemma strncpyLoop_twice {f₁ f₂ : ℕ → Option ℕ} {g₀ g₁ g₂ : ℕ → ℕ} {byte₀ byte₁ : ℕ → UInt8}
    {tmp n : ℕ} (htmp : tmp % 4096 = 0) (hlt : tmp + 4096 ≤ 2 ^ 32) (hn : n < 4095)
    (hg₂ : ∀ a, g₂ a = a % 2 ^ 32) (hf₂ : ∀ a, f₂ a = some (g₂ a))
    (hg₁ : ∀ i < 4096, g₁ (tmp + i) = tmp + i) (hf₁ : ∀ i < 4096, f₁ (tmp + i) = some (tmp + i))
    (hsrc : ∀ x ∈ stringBytes (view g₀ byte₀) virt n,
      f₁ x = some (g₁ x) ∧ g₁ x = g₀ x ∧ ¬ InPage tmp (g₀ x))
    (hbyte : ∀ a, ¬ InPage tmp a → byte₁ a = byte₀ a)
    (hdest : ∀ i ≤ n, ¬ InPage tmp ((phys + i) % 2 ^ 32)) :
    ∃ byte₂ byte₃, strncpyLoop f₁ n tmp virt byte₁ = some byte₂ ∧
      strncpyLoop f₂ n phys tmp byte₂ = some byte₃ ∧
      HasString (view g₂ byte₃) phys (cstring (view g₀ byte₀) virt n) ∧
      ∀ a, ¬ InPage tmp a → (∀ i ≤ n, a ≠ (phys + i) % 2 ^ 32) → byte₃ a = byte₁ a := by
  have hpage : ∀ i < 4096, InPage tmp (tmp + i) := fun _ hi => inPage_add htmp hi
  have hview : ∀ x ∈ stringBytes (view g₀ byte₀) virt n, view g₁ byte₁ x = view g₀ byte₀ x := by
    intro x hx
    obtain ⟨-, heq, hapart⟩ := hsrc x hx
    rw [view, heq, hbyte _ hapart, view]
  -- the first copy, as the task sees it
  obtain ⟨byte₂, hloop₂, hfirst, hframe₂⟩ := @strncpyLoop_spec f₁ g₁ n tmp virt byte₁
    (fun i hi => by rw [hf₁ i (by omega), hg₁ i (by omega)])
    (fun x hx => by
      rw [stringBytes_congr hview] at hx
      exact (hsrc x hx).1)
    (fun i hi j hj hij => by
      rw [hg₁ i (by omega), hg₁ j (by omega)] at hij
      omega)
    fun x hx i hi hc => by
      rw [stringBytes_congr hview] at hx
      obtain ⟨-, heq, hapart⟩ := hsrc x hx
      rw [heq, hg₁ i (by omega)] at hc
      exact hapart (hc ▸ hpage i (by omega))
  rw [cstring_congr hview] at hfirst
  have hlen := length_cstring_le (view g₀ byte₀) virt n
  have hself : ∀ x, tmp ≤ x → x < tmp + 4096 → view g₂ byte₂ x = view g₁ byte₂ x := by
    intro x hlow hhigh
    have hx := hg₁ (x - tmp) (by omega)
    rw [Nat.add_sub_of_le hlow] at hx
    rw [view, view, hx, hg₂, Nat.mod_eq_of_lt (by omega)]
  have hsecond : HasString (view g₂ byte₂) tmp (cstring (view g₀ byte₀) virt n) :=
    hfirst.congr fun x hx hx' => hself x hx (by omega)
  -- the second copy, as the kernel sees it
  obtain ⟨byte₃, hloop₃, hthird, hframe₃⟩ := @strncpyLoop_spec f₂ g₂ n phys tmp byte₂
    (fun i _ => hf₂ _) (fun x _ => hf₂ x)
    (fun i hi j hj hij => by
      rw [hg₂, hg₂] at hij
      omega)
    fun x hx i hi hc => by
      obtain ⟨hlow, hhigh, -⟩ := hx
      rw [hg₂, hg₂, Nat.mod_eq_of_lt (by omega)] at hc
      have hin := hpage (x - tmp) (by omega)
      rw [Nat.add_sub_of_le hlow, hc] at hin
      exact hdest i hi hin
  refine ⟨byte₂, byte₃, hloop₂, hloop₃, ?_, fun a ha hphys => ?_⟩
  · rwa [hsecond.cstring_eq_take, List.take_of_length_le hlen] at hthird
  · rw [hframe₃ a fun i hi => by rw [hg₂]; exact hphys i hi, hframe₂ a fun i hi hc => ?_]
    rw [hc, hg₁ i (by omega)] at ha
    exact ha (hpage i (by omega))

/-- A task with the string `hello` and this directory, and the kernel after its start. -/
def greetingTask (directory : PagingChunk) (virt : ℕ) : AddressSpaces :=
  ⟨freshHeap, store (fun _ => 0) virt [104, 101, 108, 108, 111],
    pagingNew4gb kernelPageFlags lowTables, directory, .kernel, [0x100000, 0x5ff000]⟩

variable {directory : PagingChunk}

lemma greetingTask_kernelPaged : KernelPaged (greetingTask directory virt) :=
  ⟨rfl, ⟨lowTables, rfl⟩, by simp [greetingTask]⟩

lemma greetingTask_freeBlocks : (freeBlocks (greetingTask directory virt).heap).Nonempty := by
  rw [← Finset.card_pos, show (greetingTask directory virt).heap = freshHeap from rfl,
    card_freeBlocks_freshHeap]
  decide

lemma greetingTask_temporaryBlock : temporaryBlock (greetingTask directory virt) 4 = 0x1000000 :=
  (by decide : (SerpaeOS.kzalloc freshHeap 4).2 = 0x1000000)

/-- The directory of a task that has given back its page at `0x1400000` with `sos_free`. -/
def freedPageDirectory : PagingChunk :=
  (pagingMap (pagingNew4gb 5 lowTables) 0x1400000 0x1400000 0).2

lemma freedPageDirectory_spec :
    freedPageDirectory.directoryEntry = (pagingNew4gb 5 lowTables).directoryEntry ∧
      ∀ w : ℕ, w % 4096 = 0 → w < 2 ^ 32 → pagingGet freedPageDirectory w =
        if w = 0x1400000 then 0x1400000 ||| 0 else pagingGet (pagingNew4gb 5 lowTables) w := by
  obtain ⟨c, hset, hdir, hget⟩ := pagingSet_of_aligned (pagingNew4gb 5 lowTables)
    (by decide : 0x1400000 % 4096 = 0) (by decide) (0x1400000 ||| 0)
  have heq : freedPageDirectory = c := congrArg Prod.snd hset
  rw [heq]
  exact ⟨hdir, hget⟩

lemma freedPageDirectory_address (ha : a < 2 ^ 32) :
    (greetingTask freedPageDirectory virt).taskAddress a = a := by
  rw [AddressSpaces.taskAddress, Nat.mod_eq_of_lt ha]
  refine (pagingGetPhysicalAddress_of_mapped (by decide) (by decide) (by decide)
    freedPageDirectory_spec.2 ha).trans ?_
  rw [pagingGetPhysicalAddress_pagingNew4gb 5 lowTables ha, ite_self]

lemma freedPageDirectory_present (ha : a < 2 ^ 32) :
    PagePresent freedPageDirectory a ↔ ¬ InPage 0x1400000 a := by
  have hold : PagePresent (pagingNew4gb 5 lowTables) a :=
    pagePresent_pagingNew4gb (by decide) lowTables ha
  rw [PagePresent, pagingAlignToLowerPage_eq] at hold ⊢
  rw [freedPageDirectory_spec.1, freedPageDirectory_spec.2 _ (by omega) (by omega),
    and_iff_right hold.1, InPage, pagingPageSize]
  split_ifs with hin
  · exact iff_of_false (by decide) (not_not.mpr (by omega))
  · exact iff_of_true hold.2 (by omega)

end SerpaeOS
