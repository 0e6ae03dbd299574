import SerpaeOS.Fs.FileSpec

/-!
# Structures of the file layer in memory

Open files and the root directories of mounted volumes are structures in blocks of the kernel heap.
They are what was stored in them as long as the heap has each of them as an allocation of its own.
Opening a file of a root directory ends this: `write_directory_entry` gives back the blocks of the
root directory in memory, and `kzalloc` hands them out again.
-/

namespace SerpaeOS

open BlockTable Prog

/-! ## The blocks of the structures -/

/-- The size of the items of the root directory, as `fat16_get_root_directory` and
`fat32_load_root_dir` ask for it. -/
def FatMount.rootItemsSize (mt : FatMount) : ℕ :=
  if mt.looksTwice then mt.volume.rootDirEntries * itemSize else mt.root.total.toNat * itemSize

def FatMount.extents (mt : FatMount) : List Extent :=
  [extentAt mt.rootItemPtr (blocksFor mt.rootItemsSize), extentAt mt.rootPtr 1]

/-- The blocks of a descriptor, of its file and of the path of the file. -/
def FileDescriptor.extents (desc : FileDescriptor) : List Extent :=
  extentAt desc.ptr 1 :: (desc.privateData.extents ++ pathExtents desc.privateData.path)

/-- The blocks of the open files and of the mounted volumes. -/
def Kernel.structures (k : Kernel) : List Extent :=
  (List.range maxFileDescriptors).flatMap
      (fun i => (k.fileDescriptors i).elim [] FileDescriptor.extents) ++
    (List.range maxDisks).flatMap fun i => (k.disks i).join.elim [] FatMount.extents

/-- The heap has the extent as one allocation. -/
def IsAllocation (m : KMemory) (a : Extent) : Prop :=
  0 < a.len ∧ ∀ j < a.len, m.heap.table.entries (a.start + j : ℕ) = blockCode a.len j

/-- Each structure is an allocation of its own. -/
structure Kernel.Intact (k : Kernel) : Prop where
  allocated : ∀ a ∈ k.structures, IsAllocation k.memory a
  apart : k.structures.Pairwise Extent.Apart

instance (a b : Extent) : Decidable (a.Apart b) :=
  decidable_of_iff (a.len = 0 ∨ b.len = 0 ∨ a.start + a.len ≤ b.start ∨ b.start + b.len ≤ a.start)
    ⟨fun h i ⟨hi, hi'⟩ => by
      simp only [Extent.Covers] at hi hi'
      omega,
    fun h => by
      by_contra hno
      refine h (max a.start b.start) ⟨⟨le_max_left _ _, ?_⟩, le_max_right _ _, ?_⟩
      · omega
      · omega⟩

instance (m : KMemory) (a : Extent) : Decidable (IsAllocation m a) :=
  inferInstanceAs (Decidable (_ ∧ _))

instance (k : Kernel) : Decidable k.Intact :=
  decidable_of_iff ((∀ a ∈ k.structures, IsAllocation k.memory a) ∧
    k.structures.Pairwise Extent.Apart) ⟨fun h => ⟨h.1, h.2⟩, fun h => ⟨h.allocated, h.apart⟩⟩

lemma flatMap_range_single {β : Type} {f : ℕ → List β} {i : ℕ} :
    ∀ {n : ℕ}, i < n → (∀ j, j ≠ i → f j = []) → (List.range n).flatMap f = f i := by
  intro n
  induction n with
  | zero => exact fun h => absurd h (Nat.not_lt_zero i)
  | succ n ih =>
    intro hi h
    rw [List.range_succ, List.flatMap_append, List.flatMap_singleton]
    rcases Nat.lt_succ_iff_lt_or_eq.mp hi with hlt | rfl
    · rw [ih hlt h, h n (by omega), List.append_nil]
    · rw [List.flatMap_eq_nil_iff.mpr fun j hj => h j (List.mem_range.mp hj).ne, List.nil_append]

/-- Structures that are all the allocations of the heap are intact. -/
lemma KernelHeap.intact {k : Kernel} {L : List Extent} (h : KernelHeap k.memory.heap L)
    (heq : k.structures = L) (hpos : ∀ a ∈ L, 0 < a.len) : k.Intact := by
  have hencodes := h.records.encodes
  refine ⟨fun a ha => ?_, heq ▸ hencodes.packed.apart⟩
  rw [heq] at ha
  exact ⟨hpos a ha, fun j hj => hencodes.code_eq a ha j hj⟩

lemma mem_pathExtents {e : Extent} : ∀ {parts : List PathPart}, e ∈ pathExtents parts →
    ∃ part ∈ parts, e = extentAt part.partPtr 1 ∨ e = extentAt part.ptr 1 := by
  intro parts
  induction parts with
  | nil => exact fun h => absurd h List.not_mem_nil
  | cons part parts ih =>
    intro h
    rw [pathExtents, List.mem_cons, List.mem_cons] at h
    rcases h with rfl | rfl | h
    · exact ⟨part, List.mem_cons_self, Or.inl rfl⟩
    · exact ⟨part, List.mem_cons_self, Or.inr rfl⟩
    · obtain ⟨part', hpart, hext⟩ := ih h
      exact ⟨part', List.mem_cons_of_mem _ hpart, hext⟩

lemma FileDescriptor.extents_pos {d : FileDescriptor} {e : Extent} (he : e ∈ d.extents) :
    0 < e.len := by
  rw [FileDescriptor.extents, FatOpenFile.extents] at he
  simp only [List.cons_append, List.nil_append, List.mem_cons] at he
  rcases he with rfl | rfl | rfl | rfl | he
  · exact Nat.one_pos
  · exact Nat.one_pos
  · exact Nat.one_pos
  · exact Nat.one_pos
  · obtain ⟨part, -, rfl | rfl⟩ := mem_pathExtents he
    · exact Nat.one_pos
    · exact Nat.one_pos

/-- A step of a system with a kernel.  When the structures of the file layer are not intact, the
memory of one may have been overwritten, and the step may do anything: `lost`. -/
def intactStep {σ α : Type} (kernel : σ → Kernel) (lost step : σ → α → Option σ) (s : σ) (a : α) :
    Option σ :=
  if (kernel s).Intact then step s a else lost s a

lemma intactStep_eq {σ α : Type} {kernel : σ → Kernel} {lost step : σ → α → Option σ} {s : σ}
    {a : α} (h : (kernel s).Intact) : intactStep kernel lost step s a = step s a := if_pos h

end SerpaeOS
