import SerpaeOS.Fs.ReadCodes
import SerpaeOS.Heap.Guard

/-!
# Files and the rest of the heap

Opening, reading and closing a file free only what the call has taken itself, `NULL`, error
codes, the blocks of the open file and, for a file in the root directory, those of the root
directory.  So the calls keep every guard for which these are clear, whatever they return and
however much room there is.
-/

namespace SerpaeOS

open BlockTable Word Prog

variable {G : Guard} {mt : FatMount}

/-! ## Paths -/

/-- The pointers of the parts are clear. -/
def ClearParts (G : Guard) (parts : List PathPart) : Prop :=
  ∀ part ∈ parts, G.clear part.partPtr ∧ G.clear part.ptr

/-- The pointers of a parsed path are clear. -/
structure ClearRoot (G : Guard) (root : PathRoot) : Prop where
  ptr : G.clear root.ptr
  parts : ClearParts G root.first

lemma gives_pathparserParsePathPart (path : List UInt8) :
    Gives G.holds (pathparserParsePathPart path) fun r =>
      ∀ part ∈ r, G.clear part.partPtr ∧ G.clear part.ptr := by
  have hget : Gives G.holds (pathparserGetPathPart path) fun r => ∀ p ∈ r, G.clear p := by
    refine (G.allocate _).bind fun p hp => ?_
    refine Gives.ite (fun _ => ?_) fun _ => Gives.ite (fun _ => gives_stuck) fun _ => ?_
    · exact (G.release hp).bind fun _ _ => gives_pure fun q hq => nomatch hq
    · refine gives_pure fun q hq => ?_
      cases hq
      exact hp
  refine hget.bind fun r hr => ?_
  cases r with
  | none => exact gives_pure fun part hpart => nomatch hpart
  | some p =>
    refine (G.allocate _).bind fun q hq => Gives.ite (fun _ => gives_stuck) fun _ => ?_
    refine gives_pure fun part hpart => ?_
    cases hpart
    exact ⟨hr p rfl, hq⟩

lemma gives_pathparserLoop (calls : ℕ) : ∀ path : List UInt8,
    Gives G.holds (pathparserLoop calls path) (ClearParts G) := by
  induction calls with
  | zero => exact fun _ => gives_pure fun part hpart => nomatch hpart
  | succ calls ih =>
    intro path
    refine (gives_pathparserParsePathPart path).bind fun r hr => ?_
    cases r with
    | none => exact gives_pure fun part hpart => nomatch hpart
    | some part =>
      refine (ih _).bind fun parts hparts => gives_pure ?_
      exact List.forall_mem_cons.mpr ⟨hr part rfl, hparts⟩

lemma gives_pathparserParse (path : List UInt8) :
    Gives G.holds (pathparserParse path) fun r => ∀ root ∈ r, ClearRoot G root := by
  have hnone : Gives G.holds (pure none : KProg (Option PathRoot)) fun r =>
      ∀ root ∈ r, ClearRoot G root := gives_pure fun root hroot => nomatch hroot
  refine Gives.ite (fun _ => hnone) fun _ => Gives.ite (fun _ => hnone) fun _ => ?_
  refine (G.allocate _).bind fun p hp => Gives.ite (fun _ => gives_stuck) fun _ => ?_
  refine (gives_pathparserLoop _ _).bind fun parts hparts => gives_pure fun root hroot => ?_
  cases hroot
  exact ⟨hp, hparts⟩

lemma gives_pathparserFree {root : PathRoot} (h : ClearRoot G root) :
    Gives G.holds (pathparserFree root) fun _ => True := by
  have hfree : ∀ parts : List PathPart, ClearParts G parts →
      Gives G.holds (freeParts parts) fun _ => True := by
    intro parts
    induction parts with
    | nil => exact fun _ => gives_pure trivial
    | cons part parts ih =>
      intro hparts
      obtain ⟨hpart, hrest⟩ := List.forall_mem_cons.mp hparts
      exact (G.release hpart.1).bind fun _ _ => (G.release hpart.2).bind fun _ _ => ih hrest
  exact (hfree root.first h.parts).bind fun _ _ => G.release h.ptr

/-! ## Items -/

/-- The pointers that `fat_item_free` frees are clear. -/
def ClearItem (G : Guard) : HeapItem → Prop
  | .file ptr itemPtr _ => G.clear ptr ∧ G.clear itemPtr
  | .directory ptr (.loaded directory itemPtr _) =>
    G.clear ptr ∧ G.clear directory ∧ G.clear itemPtr
  | .directory ptr _ => G.clear ptr

/-- The pointers to the root directory of the volume are clear. -/
structure ClearMount (G : Guard) (mt : FatMount) : Prop where
  rootPtr : G.clear mt.rootPtr
  rootItemPtr : G.clear mt.rootItemPtr

lemma gives_fatItemFree {item : HeapItem} (h : ClearItem G item) :
    Gives G.holds (fatItemFree item) fun _ => True := by
  rcases item with ⟨p, q, item⟩ | ⟨p, _ | _ | ⟨dp, ip, d⟩⟩
  · exact (G.release h.2).bind fun _ _ => G.release h.1
  · exact G.release h
  · exact gives_stuck
  · have hrest : Gives G.holds (do
        release dp
        release p : KProg Unit) fun _ => True :=
      (G.release h.2.1).bind fun _ _ => G.release h.1
    refine Gives.ite (fun _ => ?_) fun _ => hrest
    exact (G.release h.2.2).bind fun _ _ => hrest

lemma gives_loadFatDirectory (item : FatDirectoryItem) :
    Gives G.holds (mt.loadFatDirectory item) fun handle =>
      ∀ p, G.clear p → ClearItem G (.directory p handle) := by
  refine (G.allocate _).bind fun dp hdp => Gives.ite (fun _ => ?_) fun _ => ?_
  · exact gives_pure fun p hp => hp
  · rcases htotal : getTotalItemsForDirectory mt.volume mt.disk
      (mt.kind.clusterToSector mt.volume item.firstClusterInt) with _ | total
    · simp only [htotal]
      exact gives_stuck
    · simp only [htotal]
      refine (G.allocate _).bind fun ip hip => Gives.ite (fun _ => ?_) fun _ => ?_
      · exact (G.release hdp).bind fun _ _ => gives_pure fun p hp => hp
      · refine Gives.ite (fun _ => ?_) fun _ => gives_pure fun p hp => ⟨hp, hdp, hip⟩
        refine (G.release hip).bind fun _ _ => ?_
        exact (G.release hdp).bind fun _ _ => gives_pure fun p hp => hp

lemma gives_findFatItem (d : FatDirectory) (name : List UInt8) :
    Gives G.holds (mt.findFatItem d name) fun r => ∀ item ∈ r, ClearItem G item := by
  rw [FatMount.findFatItem]
  rcases mt.kind.findItemInDirectory d name with _ | item
  · exact gives_pure fun item hitem => (Option.not_mem_none item hitem).elim
  refine (G.allocate _).bind fun p hp => Gives.ite (fun _ => ?_) fun _ => ?_
  · exact gives_pure fun item hitem => (Option.not_mem_none item hitem).elim
  refine Gives.ite (fun _ => ?_) fun _ => ?_
  · refine (gives_loadFatDirectory item).bind fun handle hhandle => gives_pure fun item hitem => ?_
    cases hitem
    exact hhandle p hp
  · refine (G.allocate _).bind fun q hq => gives_pure fun item hitem => ?_
    cases hitem
    exact ⟨hp, hq⟩

lemma gives_getDirectoryEntryLoop : ∀ (names : List (List UInt8)) {r : Option HeapItem},
    (∀ item ∈ r, ClearItem G item) → Gives G.holds (mt.getDirectoryEntryLoop r names) fun r =>
      ∀ item ∈ r, ClearItem G item := by
  intro names
  induction names with
  | nil =>
    intro r hr
    rw [FatMount.getDirectoryEntryLoop]
    exact gives_pure hr
  | cons name rest ih =>
    intro r hr
    rcases r with _ | ⟨p, q, item⟩ | ⟨p, _ | _ | ⟨dp, ip, d⟩⟩
    · exact gives_stuck
    · exact gives_pure fun item hitem => (Option.not_mem_none item hitem).elim
    · exact gives_stuck
    · exact gives_stuck
    · rw [FatMount.getDirectoryEntryLoop]
      refine (gives_findFatItem d name).bind fun tmp htmp => ?_
      exact (gives_fatItemFree (hr _ rfl)).bind fun _ _ => ih htmp

lemma gives_getDirectoryEntry (names : List (List UInt8)) :
    Gives G.holds (mt.getDirectoryEntry names) fun r => ∀ item ∈ r, ClearItem G item := by
  cases names with
  | nil => exact gives_stuck
  | cons name rest =>
    refine (gives_findFatItem _ name).bind fun r hr => ?_
    cases r with
    | none => exact gives_pure fun item hitem => (Option.not_mem_none item hitem).elim
    | some item => exact gives_getDirectoryEntryLoop rest hr

/-- Only for a path of one part the parent is the root directory in memory. -/
lemma gives_getParentDir {names : List (List UInt8)} (hmt : names.length = 1 → ClearMount G mt) :
    Gives G.holds (mt.getParentDir names) fun r => ∀ item ∈ r, ClearItem G item := by
  match names with
  | [] => exact gives_pure fun item hitem => (Option.not_mem_none item hitem).elim
  | [_] =>
    obtain ⟨hroot, hitem⟩ := hmt rfl
    refine (G.allocate _).bind fun p hp => Gives.ite (fun _ => gives_stuck) fun _ => ?_
    refine gives_pure fun item hitem => ?_
    cases hitem
    exact ⟨hp, hroot, hitem⟩
  | name :: name' :: rest =>
    change Gives G.holds (mt.getDirectoryEntry (name :: name' :: rest).dropLast) _
    exact gives_getDirectoryEntry _

lemma gives_writeDirectoryEntry {names : List (List UInt8)}
    (hmt : names.length = 1 → ClearMount G mt) (newItem : FatDirectoryItem) :
    Gives G.holds (mt.writeDirectoryEntry names newItem) fun _ => True := by
  refine (gives_getParentDir hmt).bind fun r hr => ?_
  rcases r with _ | ⟨p, q, item⟩ | ⟨p, _ | _ | ⟨dp, ip, d⟩⟩
  · exact gives_stuck
  · exact gives_stuck
  · exact gives_pure trivial
  · exact gives_stuck
  · simp only
    rcases FatKind.entryIndex d (names.getLastD []) with _ | i
    · exact gives_pure trivial
    · exact (gives_fatItemFree (hr _ rfl)).bind fun _ _ => gives_pure trivial

lemma gives_openItem (names : List (List UInt8)) :
    Gives G.holds (mt.openItem names) fun r => ∀ item ∈ r, ClearItem G item := by
  refine (gives_getDirectoryEntry names).bind fun r hr => ?_
  cases r with
  | none =>
    refine Gives.ite (fun _ => gives_getDirectoryEntry names) fun _ => ?_
    exact gives_pure fun item hitem => (Option.not_mem_none item hitem).elim
  | some item => exact gives_pure hr

/-! ## Open files -/

/-- The path is that of a file in the root directory. -/
def FatMount.RootFile (mt : FatMount) (names : List (List UInt8)) : Prop :=
  ∃ name item, names = [name] ∧ mt.kind.findItemInDirectory mt.root name = some item ∧
    item.attributeBits &&& fatFileSubdirectory = 0

/-- A file that a path of one part leads to lies in the root directory. -/
lemma FileAt.rootFile {names : List (List UInt8)} {item : FatDirectoryItem} {b : ℕ}
    (h : FileAt mt mt.root names item b) (hlen : names.length = 1) : mt.RootFile names := by
  cases h with
  | @file _ name item hfind hfile => exact ⟨name, item, rfl, hfind, not_not.mp hfile⟩
  | sub _ _ _ hrest => exact absurd (List.length_eq_zero_iff.mp (Nat.succ.inj hlen)) hrest.ne_nil

/-- The path is that of a file in the root directory that may be opened in the mode. -/
def FatMount.OpensRoot (mt : FatMount) (names : List (List UInt8)) (mode : ℕ) : Prop :=
  names.length = 1 ∧ ∃ item b, FileAt mt mt.root names item b ∧ Permitted mode item

lemma FatMount.OpensRoot.rootFile {names : List (List UInt8)} {mode : ℕ}
    (h : mt.OpensRoot names mode) : mt.RootFile names := by
  obtain ⟨hlen, item, b, hfile, -⟩ := h
  exact hfile.rootFile hlen

/-- The pointers of an open file are clear. -/
structure ClearFile (G : Guard) (f : FatOpenFile) : Prop where
  ptr : G.clear f.ptr
  parts : ClearParts G f.path
  item : G.clear f.itemPtr
  clone : G.clear f.clonePtr

lemma gives_fatOpen {path : List PathPart} {mode : ℕ}
    (hmt : mt.OpensRoot (path.map PathPart.part) mode → ClearMount G mt)
    (hpath : ClearParts G path) (now : ℕ) : Gives G.holds (mt.fatOpen path mode now) fun r =>
      ∀ f, r.1 = .ok f → ClearFile G f := by
  refine (G.allocate _).bind fun ptr hptr => Gives.ite (fun _ => ?_) fun _ => ?_
  · exact gives_pure fun f hf => nomatch hf
  have hfail : ∀ e : ℤ, Gives G.holds (do
      release ptr
      return (.error e, mt.disk) : KProg (Except ℤ FatOpenFile × Disk)) fun r =>
        ∀ f, r.1 = .ok f → ClearFile G f :=
    fun e => (G.release hptr).bind fun _ _ => gives_pure fun f hf => nomatch hf
  have hopen : Gives G.holds (mt.openItem (path.map PathPart.part)) fun r =>
      (∀ item ∈ r, ClearItem G item) ∧ ∀ p q item, r = some (.file p q item) →
        ∃ b, FileAt mt mt.root (path.map PathPart.part) item b := by
    intro m hm r m' hrun
    obtain ⟨hm', hr⟩ := gives_openItem _ m hm r m' hrun
    refine ⟨hm', hr, fun p q item hfile => ?_⟩
    subst hfile
    exact FatMount.fileAt_of_openItem hrun
  refine hopen.bind fun r hr => ?_
  rcases r with _ | ⟨p, q, item⟩ | ⟨p, handle⟩
  · exact hfail _
  · obtain ⟨hp, hq⟩ : G.clear p ∧ G.clear q := hr.1 (.file p q item) rfl
    obtain ⟨b, hfile⟩ := hr.2 p q item rfl
    refine Gives.ite (fun _ => gives_stuck) fun _ => Gives.ite (fun _ => hfail _) fun hperm => ?_
    have hparent := fun hlen => hmt ⟨hlen, item, b, hfile, hperm⟩
    refine (gives_writeDirectoryEntry hparent _).bind fun written _ => gives_pure fun f hf => ?_
    rw [← Except.ok.inj hf]
    exact ⟨hptr, hpath, hp, hq⟩
  · exact hfail _

lemma gives_fatClose {f : FatOpenFile} (h : ClearFile G f) :
    Gives G.holds (fatClose f) fun _ => True := by
  refine (G.allocate _).bind fun root hroot => Gives.ite (fun _ => gives_stuck) fun _ => ?_
  have hpath : ClearRoot G ⟨root, 0, f.path⟩ := ⟨hroot, h.parts⟩
  refine (gives_pathparserFree hpath).bind fun _ _ => ?_
  have hitem : ClearItem G (.file f.itemPtr f.clonePtr f.item) := ⟨h.item, h.clone⟩
  refine (gives_fatItemFree hitem).bind fun _ _ => ?_
  exact (G.release h.ptr).bind fun _ _ => gives_pure trivial

/-! ## The table of file descriptors -/

/-- The guard holds, and the mounted volumes have the property. -/
structure GuardedKernel (G : Guard) (C : FatMount → Prop) (k : Kernel) : Prop where
  holds : G.holds k.memory
  mounts : ∀ i mt, k.disks i = some (some mt) → C mt

/-- The pointers of an entry of the table are clear. -/
structure ClearDescriptor (G : Guard) (desc : FileDescriptor) : Prop where
  ptr : G.clear desc.ptr
  file : ClearFile G desc.privateData

/-- The root directories of the mounted volumes are clear. -/
abbrev ClearKernel (G : Guard) (k : Kernel) : Prop := GuardedKernel G (ClearMount G) k

/-- A property of the volumes that does not look at the disk, and from which the root directory is
clear if the path is that of a file there. -/
structure Spares (G : Guard) (C : FatMount → Prop) (filename : List UInt8) : Prop where
  disk : ∀ {mt disk}, C mt → C { mt with disk := disk }
  root : ∀ {mt}, C mt → mt.RootFile (namesOf filename) → ClearMount G mt

lemma spares_clearMount {filename : List UInt8} : Spares G (ClearMount G) filename :=
  ⟨fun h => ⟨h.rootPtr, h.rootItemPtr⟩, fun h _ => h⟩

/-- The path is not that of a file in the root directory. -/
lemma spares_nested {filename : List UInt8} :
    Spares G (fun mt => ¬ mt.RootFile (namesOf filename)) filename :=
  ⟨fun h => h, fun h hroot => absurd hroot h⟩

/-- The pointers of the descriptor that an index leads to are clear. -/
def ClearIndex (G : Guard) (fd : ℤ) (k : Kernel) : Prop :=
  ∀ desc, fileGetDescriptor k fd = some desc → ClearDescriptor G desc

/-- The same for the index that `fopen` returns, which is also that of the last slot. -/
def ClearEntry (G : Guard) (fd : ℤ) (k : Kernel) : Prop :=
  0 < fd → ∀ desc, k.fileDescriptors (fd - 1).toNat = some desc → ClearDescriptor G desc

variable {C : FatMount → Prop}

lemma ClearEntry.index {fd : ℤ} {k : Kernel} (h : ClearEntry G fd k) : ClearIndex G fd k := by
  intro desc hget
  rw [fileGetDescriptor] at hget
  split_ifs at hget with hrange
  exact h (by omega) desc hget

lemma clearEntry_of_le {fd : ℤ} (h : fd ≤ 0) (k : Kernel) : ClearEntry G fd k :=
  fun hpos => absurd hpos (by omega)

lemma clearIndex_of_le {fd : ℤ} (h : fd ≤ 0) (k : Kernel) : ClearIndex G fd k := by
  intro desc hget
  rw [fileGetDescriptor, if_pos (Or.inl h)] at hget
  cases hget

lemma gives_onMemory {α : Type} {p : KProg α} {Q : α → Prop} (h : Gives G.holds p Q) :
    Gives (GuardedKernel G C) (SerpaeOS.onMemory p) Q := by
  intro k hk a k' hrun
  obtain ⟨m, hp, rfl⟩ := onMemory_eq_some hrun
  obtain ⟨hm, ha⟩ := h k.memory hk.holds a m hp
  exact ⟨⟨hm, hk.mounts⟩, ha⟩

lemma gives_fopenOut {root : PathRoot} (hroot : ClearRoot G root) {p : Ptr} (hp : G.clear p)
    (res : ℤ) : Gives (GuardedKernel G C) (fopenOut root p res) fun r => r = res := by
  refine (gives_onMemory (gives_pathparserFree hroot)).bind fun _ _ => ?_
  refine Gives.ite (fun _ => ?_) fun _ => gives_pure rfl
  exact (gives_onMemory (G.release hp)).bind fun _ _ => gives_pure rfl

variable {k : Kernel}

/-- An opened file is entered into the table, or given back. -/
lemma ends_fopenEnter {root : PathRoot} (hroot : ClearRoot G root) {f : FatOpenFile}
    (hf : ClearFile G f) (mode : ℕ) (hk : GuardedKernel G C k) :
    Ends (fopenEnter root f mode) k fun r k' => GuardedKernel G C k' ∧ ClearEntry G r k' := by
  have hnew : Ends (fileNewDescriptor f root.driveNo mode) k fun r k' => GuardedKernel G C k' ∧
      ∀ i ∈ r, ClearEntry G i k' := by
    refine ends_getKernel_bind ?_
    rcases (List.range maxFileDescriptors).find? fun i => (k.fileDescriptors i).isNone with _ | i
    · exact ends_pure ⟨hk, fun i hi => nomatch hi⟩
    refine (gives_onMemory (G.allocate _) k hk).bind fun p k₁ hp => ?_
    refine Ends.ite (fun _ => ends_stuck) fun _ => ?_
    intro r k' hrun
    cases hrun
    refine ⟨⟨hp.1.holds, hp.1.mounts⟩, fun j hj _ desc hget => ?_⟩
    cases hj
    rw [show (((i + 1 : ℕ) : ℤ) - 1).toNat = i by omega] at hget
    simp only [Function.update_self] at hget
    cases hget
    exact ⟨hp.2, hf⟩
  refine hnew.bind fun r k₁ hr => ?_
  cases r with
  | none =>
    refine (gives_fopenOut hroot hf.ptr _ k₁ hr.1).mono fun res k' hres => ⟨hres.1, ?_⟩
    rw [hres.2]
    exact clearEntry_of_le (by decide) k'
  | some i =>
    intro res k' hrun
    cases hrun
    exact ⟨⟨(G.release hroot.ptr k₁.memory hr.1.holds () _ rfl).1, hr.1.mounts⟩, hr.2 i rfl⟩

/-- The way out of a failed call. -/
lemma ends_fopenOut {root : PathRoot} (hroot : ClearRoot G root) {p : Ptr} (hp : IsCode p) {e : ℤ}
    (he : e ≤ 0) (hk : GuardedKernel G C k) :
    Ends (fopenOut root p e) k fun r k' => GuardedKernel G C k' ∧ ClearEntry G r k' := by
  refine (gives_fopenOut hroot (G.code hp) e k hk).mono fun r k' hr => ⟨hr.1, ?_⟩
  rw [hr.2]
  exact clearEntry_of_le he k'

/-- The driver opens the file, and its disk may have changed. -/
lemma ends_fopenOn {root : PathRoot} (hroot : ClearRoot G root)
    {mode : ℕ} (hmt : mt.OpensRoot (root.first.map PathPart.part) mode → ClearMount G mt)
    (hdisk : ∀ disk, C { mt with disk := disk }) (now : ℕ) (hk : GuardedKernel G C k) :
    Ends (fopenOn mt root mode now) k fun r k' => GuardedKernel G C k' ∧ ClearEntry G r k' := by
  have hopen : Ends (onMemory (mt.fatOpen root.first mode now)) k fun opened k' =>
      GuardedKernel G C k' ∧ (∀ f, opened.1 = .ok f → ClearFile G f) ∧
        ∀ e, opened.1 = .error e → -8 ≤ e ∧ e < 0 := by
    intro opened k' hrun
    obtain ⟨m, hm, rfl⟩ := onMemory_eq_some hrun
    obtain ⟨hm', hfile⟩ := gives_fatOpen hmt hroot.parts now k.memory hk.holds opened m hm
    refine ⟨⟨hm', hk.mounts⟩, hfile, fun e he => ?_⟩
    obtain ⟨res, disk⟩ := opened
    simp only at he
    subst he
    exact FatMount.fatOpen_error hm
  refine hopen.bind fun opened k₁ h₁ => ?_
  obtain ⟨hk₁, hfile, herror⟩ := h₁
  refine Ends.bind (P := fun _ k₂ => GuardedKernel G C k₂) ?_ fun _ k₂ hk₂ => ?_
  · intro _ k₂ hrun
    cases hrun
    refine ⟨hk₁.holds, fun i mt' hi => ?_⟩
    by_cases hdrive : i = root.driveNo
    · subst hdrive
      simp only [Function.update_self] at hi
      cases hi
      exact hdisk opened.2
    · simp only [Function.update_of_ne hdrive] at hi
      exact hk₁.mounts i mt' hi
  · rcases hres : opened.1 with e | f
    · obtain ⟨hlow, hneg⟩ := herror e hres
      simp only
      exact ends_fopenOut hroot ⟨e, hlow, hneg.le, rfl⟩ hneg.le hk₂
    · simp only
      exact ends_fopenEnter hroot (hfile f hres) mode hk₂

/-- Opening a file.  The root directory of its volume is clear if the file lies there. -/
lemma ends_fopen_guarded {filename modeStr : List UInt8}
    (hdisk : ∀ {mt disk}, C mt → C { mt with disk := disk })
    (hmt : ∀ mt, diskGet k (driveOf filename) = some (some mt) →
      fileGetModeByString modeStr ≠ fileModeInvalid →
      mt.OpensRoot (namesOf filename) (fileGetModeByString modeStr) → ClearMount G mt)
    (now : ℕ) (hk : GuardedKernel G C k) :
    Ends (fopen filename modeStr now) k fun r k' => GuardedKernel G C k' ∧ ClearEntry G r k' := by
  have hparse : Ends (onMemory (pathparserParse filename)) k fun r k' => GuardedKernel G C k' ∧
      k'.disks = k.disks ∧ (∀ root ∈ r, ClearRoot G root) ∧
        ∀ root, r = some root → root.driveNo = driveOf filename ∧
          root.first.map PathPart.part = namesOf filename := by
    intro r k' hrun
    obtain ⟨hk', hroot⟩ := gives_onMemory (gives_pathparserParse filename) k hk r k' hrun
    obtain ⟨m, hm, rfl⟩ := onMemory_eq_some hrun
    exact ⟨hk', rfl, hroot, fun root hr => ends_pathparserParse _ _ _ _ hm root hr⟩
  refine hparse.bind fun r k₁ hr => ?_
  obtain ⟨hk₁, hdisks, hroot, hnames⟩ := hr
  cases r with
  | none => exact ends_pure ⟨hk₁, clearEntry_of_le (by decide) k₁⟩
  | some root =>
    have hroot := hroot root rfl
    have hout : ∀ e : ℤ, e ≤ 0 →
        Ends (fopenOut root 0 e) k₁ fun r k' => GuardedKernel G C k' ∧ ClearEntry G r k' :=
      fun e he => ends_fopenOut hroot isCode_null he hk₁
    refine Ends.ite (fun _ => hout _ (by decide)) fun _ => ends_getKernel_bind ?_
    rcases hget : diskGet k₁ root.driveNo with _ | _ | mt
    · exact hout _ (by decide)
    · exact hout _ (by decide)
    have hmount : k₁.disks root.driveNo = some (some mt) := by
      rw [diskGet] at hget
      split_ifs at hget
      exact hget
    obtain ⟨hdrive, hparts⟩ := hnames root rfl
    rw [diskGet, hdisks, ← diskGet, hdrive] at hget
    exact Ends.ite (fun _ => hout _ (by decide)) fun hmode =>
      ends_fopenOn hroot (hparts ▸ hmt mt hget hmode) (fun _ => hdisk (hk₁.mounts _ mt hmount)) now
        hk₁

lemma ends_fopen {filename : List UInt8} (hC : Spares G C filename) (modeStr : List UInt8)
    (now : ℕ) (hk : GuardedKernel G C k) :
    Ends (fopen filename modeStr now) k fun r k' => GuardedKernel G C k' ∧ ClearIndex G r k' := by
  have hroot : ∀ mt, diskGet k (driveOf filename) = some (some mt) →
      fileGetModeByString modeStr ≠ fileModeInvalid →
      mt.OpensRoot (namesOf filename) (fileGetModeByString modeStr) → ClearMount G mt := by
    intro mt hget _ hopens
    rw [diskGet] at hget
    split_ifs at hget
    exact hC.root (hk.mounts _ mt hget) hopens.rootFile
  exact (ends_fopen_guarded hC.disk hroot now hk).mono fun _ _ hr => ⟨hr.1, hr.2.index⟩

/-- Closing a file. -/
lemma ends_fclose {fd : ℤ} (hk : GuardedKernel G C k) (hfd : ClearIndex G fd k) :
    Ends (fclose fd) k fun _ k' => GuardedKernel G C k' := by
  refine ends_getKernel_bind ?_
  rcases hget : fileGetDescriptor k fd with _ | desc
  · exact ends_pure hk
  obtain ⟨hptr, hfile⟩ := hfd desc hget
  refine (gives_onMemory (gives_fatClose hfile) k hk).bind fun res k₁ hk₁ => ?_
  refine Ends.ite (fun _ => ?_) fun _ => ends_pure hk₁.1
  intro r k' hrun
  cases hrun
  exact ⟨(G.release hptr k₁.memory hk₁.1.holds () _ rfl).1, hk₁.1.mounts⟩

/-- Reading moves the position in the file. -/
lemma ends_fread {fd : ℤ} (hk : GuardedKernel G C k) (hfd : ClearIndex G fd k) (count : ℕ) :
    Ends (fread fd count) k fun _ k' => GuardedKernel G C k' ∧ ClearIndex G fd k' := by
  refine Ends.ite (fun _ => ends_pure ⟨hk, hfd⟩) fun _ => ends_getKernel_bind ?_
  rcases hget : fileGetDescriptor k fd with _ | desc
  · exact ends_pure ⟨hk, hfd⟩
  simp only
  rcases k.disks desc.disk with _ | _ | mt
  · exact ends_stuck
  · exact ends_stuck
  obtain ⟨hptr, hfile⟩ := hfd desc hget
  obtain ⟨p, hp⟩ := mt.fatRead_file desc.privateData count
  intro r k' hrun
  cases hrun
  refine ⟨⟨hk.holds, hk.mounts⟩, fun desc' hget' => ?_⟩
  rw [hp, fileGetDescriptor] at hget'
  split_ifs at hget'
  simp only [Kernel.setPrivate, Function.update_self] at hget'
  cases hget'
  exact ⟨hptr, hfile.ptr, hfile.parts, hfile.item, hfile.clone⟩

end SerpaeOS
