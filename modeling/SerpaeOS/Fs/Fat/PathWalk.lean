import SerpaeOS.Fs.Fat.Lookup

/-!
# Walking along a path

`fat16_get_directory_entry` and `fat32_get_directory_entry` on a tree of directories.  The loop
looks at the type of the item it has come to before it goes on, but not at whether there is one.
It comes to no item only where a name in the middle of the path is missing: the first name has a
test of its own, and the last one is not followed by another.
-/

namespace SerpaeOS

open Bytes

namespace FatKind

variable (k : FatKind) (v : FatVolume) (disk : Disk)

/-- The name is that of a subdirectory, which is loaded. -/
def SubdirectoryAt (d : FatDirectory) (name : List UInt8) (d' : FatDirectory) : Prop :=
  ∃ item, k.findItemInDirectory d name = some item ∧
    item.attributeBits &&& fatFileSubdirectory ≠ 0 ∧
    k.loadFatDirectory v disk item = some (.ok d')

/-- The names lead from a directory through its subdirectories. -/
inductive DirsTo : FatDirectory → List (List UInt8) → FatDirectory → Prop
  | here (d : FatDirectory) : DirsTo d [] d
  | sub {d d' d'' : FatDirectory} {name : List UInt8} {rest : List (List UInt8)}
      (hsub : k.SubdirectoryAt v disk d name d') (hrest : DirsTo d' rest d'') :
      DirsTo d (name :: rest) d''

/-- The directory is the root of a tree: the subdirectories found below it can be loaded. -/
def Tree (root : FatDirectory) : Prop :=
  ∀ names d, k.DirsTo v disk root names d → ∀ name item,
    k.findItemInDirectory d name = some item →
      item.attributeBits &&& fatFileSubdirectory ≠ 0 →
      ∃ d', k.loadFatDirectory v disk item = some (.ok d')

/-- Each name but the last one is that of a subdirectory of the directory before, and the last
one that of an item. -/
inductive ItemAt : FatDirectory → List (List UInt8) → FatItem → Prop
  | last {d : FatDirectory} {name : List UInt8} {item : FatItem}
      (hfind : k.findFatItem v disk d name = some (some item)) : ItemAt d [name] item
  | sub {d d' : FatDirectory} {name : List UInt8} {rest : List (List UInt8)} {item : FatItem}
      (hsub : k.SubdirectoryAt v disk d name d') (hrest : ItemAt d' rest item) :
      ItemAt d (name :: rest) item

/-- Behind names of subdirectories there is a name that is missing, and is not the last. -/
inductive MissingAt : FatDirectory → List (List UInt8) → Prop
  | here {d : FatDirectory} {name : List UInt8} {rest : List (List UInt8)}
      (hfind : k.findItemInDirectory d name = none) (hrest : rest ≠ []) :
      MissingAt d (name :: rest)
  | sub {d d' : FatDirectory} {name : List UInt8} {rest : List (List UInt8)}
      (hsub : k.SubdirectoryAt v disk d name d') (hrest : MissingAt d' rest) :
      MissingAt d (name :: rest)

/-- A name that is neither the first nor the last is missing behind names of subdirectories. -/
def MissingInside (root : FatDirectory) : List (List UInt8) → Prop
  | [] => False
  | name :: rest => ∃ d, k.SubdirectoryAt v disk root name d ∧ k.MissingAt v disk d rest

/-- The call returns the item that the path leads to, and if there is none, it returns `NULL`; it
never reads through a pointer to no item. -/
def WalksTree (root : FatDirectory) (path : List (List UInt8)) : Prop :=
  (∀ item, k.getDirectoryEntry v disk root path = some (some item) ↔
    k.ItemAt v disk root path item) ∧
  ((∀ item, ¬ k.ItemAt v disk root path item) →
    k.getDirectoryEntry v disk root path = some none)

variable {k v disk} {d d' root : FatDirectory} {name : List UInt8} {rest path : List (List UInt8)}
  {item : FatItem}

/-! ## One name -/

lemma Tree.sub (h : k.Tree v disk d) (hsub : k.SubdirectoryAt v disk d name d') :
    k.Tree v disk d' :=
  fun names d'' hdirs => h (name :: names) d'' (.sub hsub hdirs)

lemma SubdirectoryAt.unique {d'' : FatDirectory} (h : k.SubdirectoryAt v disk d name d')
    (h' : k.SubdirectoryAt v disk d name d'') : d' = d'' := by
  obtain ⟨item, hfind, -, hload⟩ := h
  obtain ⟨item', hfind', -, hload'⟩ := h'
  obtain rfl : item = item' := Option.some.inj (hfind.symm.trans hfind')
  exact Except.ok.inj (Option.some.inj (hload.symm.trans hload'))

lemma SubdirectoryAt.findFatItem (h : k.SubdirectoryAt v disk d name d') :
    k.findFatItem v disk d name = some (some (.directory (.ok d'))) := by
  obtain ⟨item, hfind, hsub, hload⟩ := h
  simp only [FatKind.findFatItem, hfind, newFatItem]
  rw [if_pos hsub, hload]
  rfl

/-- A name in a tree is missing, or that of a file or of a subdirectory. -/
lemma Tree.cases (h : k.Tree v disk d) (name : List UInt8) :
    (k.findItemInDirectory d name = none ∧ k.findFatItem v disk d name = some none) ∨
      (∃ file, k.findFatItem v disk d name = some (some (.file file))) ∨
      ∃ d', k.SubdirectoryAt v disk d name d' := by
  cases hfind : k.findItemInDirectory d name with
  | none =>
    left
    simp only [FatKind.findFatItem, hfind, true_and]
  | some item =>
    by_cases hsub : item.attributeBits &&& fatFileSubdirectory ≠ 0
    · obtain ⟨d', hload⟩ := h [] d (.here d) name item hfind hsub
      exact Or.inr (Or.inr ⟨d', item, hfind, hsub, hload⟩)
    · refine Or.inr (Or.inl ⟨item, ?_⟩)
      simp only [FatKind.findFatItem, hfind, newFatItem]
      rw [if_neg hsub]
      rfl

/-- Behind a subdirectory the path goes on there. -/
lemma SubdirectoryAt.itemAt_iff (h : k.SubdirectoryAt v disk d name d') (hrest : rest ≠ []) :
    k.ItemAt v disk d (name :: rest) item ↔ k.ItemAt v disk d' rest item := by
  constructor
  · intro hitem
    cases hitem with
    | last => exact absurd rfl hrest
    | sub hsub hitem => exact h.unique hsub ▸ hitem
  · exact fun hitem => .sub h hitem

lemma SubdirectoryAt.missingAt_iff (h : k.SubdirectoryAt v disk d name d') :
    k.MissingAt v disk d (name :: rest) ↔ k.MissingAt v disk d' rest := by
  constructor
  · intro hmissing
    cases hmissing with
    | here hfind =>
      obtain ⟨item, hfind', -⟩ := h
      exact nomatch hfind.symm.trans hfind'
    | sub hsub hmissing => exact h.unique hsub ▸ hmissing
  · exact fun hmissing => .sub h hmissing

/-- The path leads nowhere when its first name is not that of a subdirectory and another one
follows. -/
lemma not_itemAt (h : ∀ d', ¬ k.SubdirectoryAt v disk d name d') (hrest : rest ≠ []) :
    ¬ k.ItemAt v disk d (name :: rest) item := by
  intro hitem
  cases hitem with
  | last => exact hrest rfl
  | sub hsub => exact h _ hsub

lemma itemAt_singleton :
    k.ItemAt v disk d [name] item ↔ k.findFatItem v disk d name = some (some item) := by
  constructor
  · intro hitem
    cases hitem with
    | last hfind => exact hfind
    | sub _ hrest => nomatch hrest
  · exact .last

lemma not_missingAt_singleton : ¬ k.MissingAt v disk d [name] := by
  intro hmissing
  cases hmissing with
  | here _ hrest => exact hrest rfl
  | sub _ hrest => nomatch hrest

/-- A file is not a subdirectory. -/
lemma not_subdirectoryAt_of_file {file : FatDirectoryItem}
    (h : k.findFatItem v disk d name = some (some (.file file))) (d' : FatDirectory) :
    ¬ k.SubdirectoryAt v disk d name d' := fun hsub => by
  have heq := h.symm.trans hsub.findFatItem
  simp at heq

/-! ## The loop -/

/-- The loop from a directory of a tree: what it returns, and when it reads through `NULL`. -/
lemma getDirectoryEntryLoop_tree (hpath : path ≠ []) : ∀ {d : FatDirectory}, k.Tree v disk d →
    (∀ item, k.getDirectoryEntryLoop v disk (some (.directory (.ok d))) path =
        some (some item) ↔ k.ItemAt v disk d path item) ∧
      (k.getDirectoryEntryLoop v disk (some (.directory (.ok d))) path = none ↔
        k.MissingAt v disk d path) := by
  induction path with
  | nil => exact absurd rfl hpath
  | cons name rest ih =>
    intro d htree
    rw [getDirectoryEntryLoop]
    rcases htree.cases name with ⟨hnone, hfind⟩ | ⟨file, hfind⟩ | ⟨d', hsub⟩
    · -- the name is missing
      have hnot : ∀ d', ¬ k.SubdirectoryAt v disk d name d' := fun d' hsub =>
        nomatch hfind.symm.trans hsub.findFatItem
      rw [hfind, Option.bind_some]
      cases rest with
      | nil => simp [getDirectoryEntryLoop, itemAt_singleton, hfind, not_missingAt_singleton]
      | cons next rest =>
        have hmissing : k.MissingAt v disk d (name :: next :: rest) := .here hnone (by simp)
        simp [getDirectoryEntryLoop, not_itemAt hnot, hmissing]
    · have hnot := not_subdirectoryAt_of_file hfind
      rw [hfind, Option.bind_some]
      cases rest with
      | nil => simp [getDirectoryEntryLoop, itemAt_singleton, hfind, not_missingAt_singleton]
      | cons next rest =>
        have hmissing : ¬ k.MissingAt v disk d (name :: next :: rest) := by
          intro hmissing
          cases hmissing with
          | here hnone => simp [FatKind.findFatItem, hnone] at hfind
          | sub hsub => exact hnot _ hsub
        simp [getDirectoryEntryLoop, not_itemAt hnot, hmissing]
    · rw [hsub.findFatItem, Option.bind_some]
      cases rest with
      | nil =>
        simp [getDirectoryEntryLoop, itemAt_singleton, hsub.findFatItem, not_missingAt_singleton]
      | cons next rest =>
        obtain ⟨hitem, hnone⟩ := ih (by simp) (htree.sub hsub)
        refine ⟨fun item => ?_, ?_⟩
        · rw [hitem, hsub.itemAt_iff (by simp)]
        · rw [hnone, hsub.missingAt_iff]

/-- The call, and not only its loop: the first name has a test of its own. -/
lemma getDirectoryEntry_tree (htree : k.Tree v disk root) (hpath : path ≠ []) :
    (∀ item, k.getDirectoryEntry v disk root path = some (some item) ↔
        k.ItemAt v disk root path item) ∧
      (k.getDirectoryEntry v disk root path = none ↔ k.MissingInside v disk root path) := by
  cases path with
  | nil => exact absurd rfl hpath
  | cons name rest =>
    rw [getDirectoryEntry]
    have hinside : ∀ {d'}, k.SubdirectoryAt v disk root name d' →
        (k.MissingInside v disk root (name :: rest) ↔ k.MissingAt v disk d' rest) := by
      intro d' hsub
      constructor
      · rintro ⟨d'', hsub', hmissing⟩
        exact hsub.unique hsub' ▸ hmissing
      · exact fun hmissing => ⟨d', hsub, hmissing⟩
    rcases htree.cases name with ⟨-, hfind⟩ | ⟨file, hfind⟩ | ⟨d', hsub⟩
    · have hnot : ∀ d', ¬ k.SubdirectoryAt v disk root name d' := fun d' hsub =>
        nomatch hfind.symm.trans hsub.findFatItem
      have hmissing : ¬ k.MissingInside v disk root (name :: rest) := fun ⟨d', hsub, _⟩ =>
        hnot d' hsub
      rw [hfind, Option.bind_some]
      cases rest with
      | nil => simp [itemAt_singleton, hfind, hmissing]
      | cons next rest => simp [not_itemAt hnot, hmissing]
    · have hnot := not_subdirectoryAt_of_file hfind
      have hmissing : ¬ k.MissingInside v disk root (name :: rest) := fun ⟨d', hsub, _⟩ =>
        hnot d' hsub
      rw [hfind, Option.bind_some]
      cases rest with
      | nil => simp [getDirectoryEntryLoop, itemAt_singleton, hfind, hmissing]
      | cons next rest => simp [getDirectoryEntryLoop, not_itemAt hnot, hmissing]
    · rw [hsub.findFatItem, Option.bind_some, hinside hsub]
      cases rest with
      | nil =>
        have hmissing : ¬ k.MissingAt v disk d' [] := fun hmissing => nomatch hmissing
        simp [getDirectoryEntryLoop, itemAt_singleton, hsub.findFatItem, hmissing]
      | cons next rest =>
        have hne : next :: rest ≠ [] := by simp
        obtain ⟨hitem, hnone⟩ := getDirectoryEntryLoop_tree hne (htree.sub hsub)
        exact ⟨fun item => (hitem item).trans (hsub.itemAt_iff (by simp)).symm, hnone⟩

end FatKind

open FatKind

variable {k : FatKind} {v : FatVolume} {disk : Disk} {root : FatDirectory}
  {path : List (List UInt8)}

/-- The item of a directory `A` in cluster 3. -/
def subItem : FatDirectoryItem :=
  ⟨fun i => if i = 0 then 0x41 else if i < 11 then 0x20 else if i = 11 then 0x10
    else if i = 26 then 3 else 0⟩

/-- A root directory with the directory `A`, which is empty on a blank disk. -/
def subRoot : FatDirectory := ⟨fun _ => subItem, 1, 2⟩

lemma subItem_load : fat16.loadFatDirectory smallVolume (diskWith fun _ => 0) subItem =
    some (.ok ⟨itemsOf [], 0, 4⟩) := by
  have htotal : getTotalItemsForDirectory smallVolume (diskWith fun _ => 0) 4 = some 0 := by
    have hread := diskstreamerRead_ok (diskWith_faultFree fun _ => 0) 2048 itemSize
    have hpos : Word.i32 (4 * smallVolume.sectorSize) = (2048 : ℕ) := by decide
    rw [getTotalItemsForDirectory, totalItemsLoop_step, hpos, hread]
    rfl
  have hsector : fat16.clusterToSector smallVolume subItem.firstClusterInt = 4 := by decide
  rw [loadFatDirectory, if_neg (by decide), loadDirectory]
  simp only [hsector, htotal]
  rfl

lemma subRoot_find : fat16.findItemInDirectory subRoot [0x41] = some subItem := by
  have hcmp : istrncmp subItem.fullRelativeFilename [0x41] maxPath = 0 :=
    (istrncmp_eq_zero_iff_of_lt (by decide) (by decide) (by decide)).mpr (by decide)
  have hone : (List.range subRoot.total.toNat).map subRoot.item = [subItem] := rfl
  rw [findItemInDirectory, findItem, hone, List.find?_cons_of_pos]
  simp only [hcmp, beq_self_eq_true, Bool.and_true]
  rfl

lemma subRoot_subdirectory : fat16.SubdirectoryAt smallVolume (diskWith fun _ => 0) subRoot [0x41]
    ⟨itemsOf [], 0, 4⟩ :=
  ⟨subItem, subRoot_find, by decide, subItem_load⟩

/-- The only directories are the root and the empty one. -/
lemma subRoot_tree : fat16.Tree smallVolume (diskWith fun _ => 0) subRoot := by
  have hitem : ∀ {name item}, fat16.findItemInDirectory subRoot name = some item →
      item = subItem := by
    intro name item hfind
    obtain ⟨i, -, hi⟩ := List.mem_map.mp (List.mem_of_find?_eq_some hfind)
    exact hi.symm
  intro names d hdirs name item hfind _
  cases hdirs with
  | here => exact hitem hfind ▸ ⟨_, subItem_load⟩
  | sub hsub hrest =>
    obtain ⟨sub, hfind', -, hload⟩ := hsub
    rw [hitem hfind', subItem_load] at hload
    obtain rfl := Except.ok.inj (Option.some.inj hload)
    cases hrest with
    | here => exact nomatch hfind
    | sub hsub =>
      obtain ⟨sub', hfind', -⟩ := hsub
      exact nomatch hfind'

end SerpaeOS
