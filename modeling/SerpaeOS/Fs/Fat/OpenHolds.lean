import SerpaeOS.Fs.Fat.OpenAccounts

/-!
# The memory of a search

What a search along a path and an open of a file hold when they return, whether they succeed or
not.  A failed search may leave blocks taken that nobody refers to, but it frees only what it
has taken itself.  `SearchFits` says how many blocks it asks for.
-/

namespace SerpaeOS

open BlockTable Bytes Word Prog

/-! ## The directories on the way -/

/-- The directories that a search along the names loads have entries, and the search takes at
most `n` blocks. -/
def FatMount.SearchFits (mt : FatMount) : List (List UInt8) → FatDirectory → ℕ → Prop
  | [], _, _ => True
  | name :: rest, d, n => ∀ item, mt.kind.findItemInDirectory d name = some item →
    2 ≤ n ∧ (item.attributeBits &&& fatFileSubdirectory ≠ 0 →
      (∀ total : ℤ, getTotalItemsForDirectory mt.volume mt.disk
        (mt.kind.clusterToSector mt.volume item.firstClusterInt) = some total →
          0 < total ∧ 2 + blocksFor (total.toNat * itemSize) ≤ n) ∧
      ∀ d', mt.kind.loadFatDirectory mt.volume mt.disk item = some (.ok d') →
        mt.SearchFits rest d' (n - (2 + d'.blocks)))

/-- The opening of a file writes the date of access into the directory entry of the file. -/
def FatMount.Dated (mt : FatMount) (names : List (List UInt8)) (disk : Disk) : Prop :=
  disk = mt.disk ∨ ∃ item b now written, FileAt mt mt.root names item b ∧
    mt.kind.writeDirectoryEntry mt.volume mt.disk mt.root names
      ⟨store item.raw 18 (numberBytes 2 now)⟩ = some written ∧ disk = written.2

variable {mt : FatMount} {d d' : FatDirectory} {name : List UInt8} {names rest : List (List UInt8)}
  {item : FatDirectoryItem} {A : KMemory → List Extent → ℕ → Prop} {m m' : KMemory}
  {L : List Extent} {n b : ℕ}

/-- A search without the last name takes no more. -/
lemma FatMount.SearchFits.dropLast : ∀ {names : List (List UInt8)} {d : FatDirectory} {n : ℕ},
    mt.SearchFits names d n → mt.SearchFits names.dropLast d n := by
  intro names
  induction names with
  | nil => exact fun h => h
  | cons name rest ih =>
    intro d n h
    cases rest with
    | nil => trivial
    | cons name' rest =>
      rw [List.dropLast_cons_cons]
      intro item hfind
      obtain ⟨htwo, hsub⟩ := h item hfind
      refine ⟨htwo, fun hattr => ?_⟩
      obtain ⟨htotal, hrest⟩ := hsub hattr
      exact ⟨htotal, fun d' hload => ih (hrest d' hload)⟩

/-! ## What is written to the disk -/

/-- A subdirectory that is found in memory is the one on the disk. -/
lemma FatMount.findFatItem_disk {p dp ip : Ptr}
    (h : mt.findFatItem d name m = some (some (.directory p (.loaded dp ip d')), m')) :
    mt.kind.findFatItem mt.volume mt.disk d name = some (some (.directory (.ok d'))) := by
  cases FatMount.findFatItem_foundIn h with
  | directory hfind hsub hload =>
    rw [FatKind.findFatItem, hfind]
    simp only [FatKind.newFatItem, if_pos hsub, hload dp ip d' rfl]
    rfl

/-- A search that ends in a loaded directory has started in one. -/
lemma FatMount.loop_start {r : Option HeapItem} {p dp ip : Ptr}
    (h : mt.getDirectoryEntryLoop r names m = some (some (.directory p (.loaded dp ip d)), m')) :
    ∃ p' dp' ip' d', r = some (.directory p' (.loaded dp' ip' d')) := by
  cases names with
  | nil =>
    rw [FatMount.getDirectoryEntryLoop] at h
    cases pure_eq_some h
    exact ⟨p, dp, ip, d, rfl⟩
  | cons name rest =>
    rcases r with _ | ⟨p', ip', item⟩ | ⟨p', _ | _ | ⟨dp', ip', d'⟩⟩
    · cases h
    · cases pure_eq_some h
    · cases h
    · cases h
    · exact ⟨p', dp', ip', d', rfl⟩

lemma FatMount.loop_disk : ∀ {names : List (List UInt8)} {d d' : FatDirectory} {m m' : KMemory}
    {p dp ip p' dp' ip' : Ptr},
    mt.getDirectoryEntryLoop (some (.directory p (.loaded dp ip d))) names m =
      some (some (.directory p' (.loaded dp' ip' d')), m') →
    mt.kind.getDirectoryEntryLoop mt.volume mt.disk (some (.directory (.ok d))) names =
      some (some (.directory (.ok d'))) := by
  intro names
  induction names with
  | nil =>
    intro d d' m m' p dp ip p' dp' ip' h
    rw [FatMount.getDirectoryEntryLoop] at h
    cases pure_eq_some h
    rfl
  | cons name rest ih =>
    intro d d' m m' p dp ip p' dp' ip' h
    rw [FatMount.getDirectoryEntryLoop] at h
    obtain ⟨tmp, m₁, htmp, h⟩ := bind_eq_some h
    obtain ⟨_, m₂, -, h⟩ := bind_eq_some h
    obtain ⟨p₁, dp₁, ip₁, d₁, rfl⟩ := FatMount.loop_start h
    rw [FatKind.getDirectoryEntryLoop, FatMount.findFatItem_disk htmp]
    exact ih h

/-- The parent directory that is loaded is the one on the disk. -/
lemma FatMount.getParentDir_disk {p dp ip : Ptr}
    (h : mt.getParentDir names m = some (some (.directory p (.loaded dp ip d)), m')) :
    mt.kind.getParentDir mt.volume mt.disk mt.root names = some (some (.directory (.ok d))) := by
  match names with
  | [] => cases pure_eq_some h
  | [_] =>
    obtain ⟨q, m₁, -, h⟩ := bind_eq_some h
    split_ifs at h
    · cases h
    · cases pure_eq_some h
      rfl
  | name :: name' :: rest =>
    obtain ⟨r, m₁, hr, h⟩ := bind_eq_some h
    cases r with
    | none => cases pure_eq_some h
    | some r =>
      obtain ⟨p₁, dp₁, ip₁, d₁, heq⟩ := FatMount.loop_start h
      cases heq
      change mt.kind.getDirectoryEntry mt.volume mt.disk mt.root
        (name :: (name' :: rest).dropLast) = _
      rw [FatKind.getDirectoryEntry, FatMount.findFatItem_disk hr]
      exact FatMount.loop_disk h

/-- `write_directory_entry` leaves the disk as it is, or writes what it does without regard to
the memory. -/
lemma FatMount.writeDirectoryEntry_disk {newItem : FatDirectoryItem} {res : ℤ × Disk}
    (h : mt.writeDirectoryEntry names newItem m = some (res, m')) : res.2 = mt.disk ∨
      mt.kind.writeDirectoryEntry mt.volume mt.disk mt.root names newItem = some res := by
  obtain ⟨r, m₁, hr, h⟩ := bind_eq_some h
  rcases r with _ | ⟨p, ip, item⟩ | ⟨p, _ | _ | ⟨dp, ip, d⟩⟩
  · cases h
  · cases h
  · cases pure_eq_some h
    exact Or.inl rfl
  · cases h
  simp only at h
  rcases hi : FatKind.entryIndex d (names.getLastD []) with _ | i
  · simp only [hi] at h
    cases pure_eq_some h
    exact Or.inl rfl
  · simp only [hi] at h
    obtain ⟨_, m₂, -, h⟩ := bind_eq_some h
    cases pure_eq_some h
    refine Or.inr ?_
    rw [FatKind.writeDirectoryEntry, FatKind.entryLocation, FatMount.getParentDir_disk hr]
    simp only [Option.bind_some, Option.map_some, hi]

/-! ## What a search holds -/

/-- The blocks of an item, if there is one. -/
def itemExtents : Option HeapItem → List Extent
  | none => []
  | some item => item.extents

/-- The pointers of an item are addresses of blocks. -/
def ItemOwned : Option HeapItem → Prop
  | none => True
  | some (.file ptr itemPtr _) => IsBlock ptr ∧ IsBlock itemPtr
  | some (.directory ptr (.loaded directory itemPtr d)) => DirOwned ptr directory itemPtr d
  | some (.directory ptr _) => IsBlock ptr

/-- A search has come to an item, and there is room for the rest of it. -/
structure Reached (mt : FatMount) (L : List Extent) (rest : List (List UInt8)) (r : Option HeapItem)
    (m : KMemory) (n b : ℕ) : Prop where
  owned : ItemOwned r
  holds : Holds m (itemExtents r ++ L) n
  fits : ∀ p dp ip d, r = some (.directory p (.loaded dp ip d)) → mt.SearchFits rest d b
  le : b ≤ n

lemma Holds.loadFatDirectory (h : Holds m L n)
    (hsub : item.attributeBits &&& fatFileSubdirectory ≠ 0)
    (htotal : ∀ total : ℤ, getTotalItemsForDirectory mt.volume mt.disk
      (mt.kind.clusterToSector mt.volume item.firstClusterInt) = some total →
        0 < total ∧ 1 + blocksFor (total.toNat * itemSize) ≤ b) (hone : 1 ≤ b) (hb : b ≤ n) :
    Ends (mt.loadFatDirectory item) m fun handle m' =>
      (handle = .freed ∧ Holds m' L (n - b)) ∨ ∃ p q d, handle = .loaded p q d ∧
        IsBlock p ∧ IsBlock q ∧ 0 < d.total ∧ 1 + d.blocks ≤ b ∧
        mt.kind.loadFatDirectory mt.volume mt.disk item = some (.ok d) ∧
        Holds m' (extentAt q d.blocks :: extentAt p 1 :: L) (n - (1 + d.blocks)) := by
  have hblocks : blocksFor fatDirectorySize = 1 := by decide
  refine (h.allocate fatDirectorySize (by decide) (by omega)).ends.bind fun p m₁ hp => ?_
  rw [hblocks] at hp
  rw [if_neg hp.1.ne_zero]
  rcases htot : getTotalItemsForDirectory mt.volume mt.disk
    (mt.kind.clusterToSector mt.volume item.firstClusterInt) with _ | total
  · simp only [htot]
    exact ends_stuck
  obtain ⟨hpos, hle⟩ := htotal total htot
  have hsize : u32 (total * itemSize) = total.toNat * itemSize :=
    FatDirectory.size_eq (d := ⟨mt.root.item, total, 0⟩) hpos
      (show blocksFor (total.toNat * itemSize) ≤ kernelBlocks from by have := h.le; omega)
  simp only [htot]
  rw [hsize]
  refine (hp.2.allocate _ (Nat.mul_pos (by omega) (by decide)) (by omega)).ends.bind
    fun q m₂ hq => ?_
  rw [if_neg hq.1.ne_zero]
  refine Ends.ite (fun _ => ?_) fun hread => ?_
  · have hk := blocksFor_pos (Nat.mul_pos (by omega : 0 < total.toNat) (by decide : 0 < itemSize))
    refine (hq.2.release hq.1 hk).ends.bind fun _ m₃ hm₃ => ?_
    refine (hm₃.release hp.1 Nat.one_pos).ends.bind fun _ m₄ hm₄ => ?_
    exact ends_pure (Or.inl ⟨rfl, hm₄.mono (by omega)⟩)
  · refine ends_pure (Or.inr ⟨p, q, _, rfl, hp.1, hq.1, hpos, hle, ?_, ?_⟩)
    · rw [FatKind.loadFatDirectory, if_neg hsub, FatKind.loadDirectory, htot]
      exact if_neg hread
    · rw [← Nat.sub_sub]
      exact hq.2

/-- One step of a search. -/
lemma Holds.findFatItem (h : Holds m L n) (hfit : mt.SearchFits (name :: rest) d b) (hb : b ≤ n) :
    Ends (mt.findFatItem d name) m fun r m' =>
      ∃ u ≤ b, Reached mt L rest r m' (n - u) (b - u) := by
  have hblocks : blocksFor fatItemSize = 1 := by decide
  rw [FatMount.findFatItem]
  rcases hfind : mt.kind.findItemInDirectory d name with _ | item
  · refine ends_pure ⟨0, Nat.zero_le b, trivial, h, fun p dp ip d heq => ?_, hb⟩
    cases heq
  obtain ⟨htwo, hsub⟩ := hfit item hfind
  refine (h.allocate fatItemSize (by decide) (by omega)).ends.bind fun p m₁ hp => ?_
  rw [hblocks] at hp
  rw [if_neg hp.1.ne_zero]
  refine Ends.ite (fun hattr => ?_) fun _ => ?_
  · obtain ⟨htotal, hrest⟩ := hsub hattr
    have hcount : ∀ total : ℤ, getTotalItemsForDirectory mt.volume mt.disk
        (mt.kind.clusterToSector mt.volume item.firstClusterInt) = some total →
          0 < total ∧ 1 + blocksFor (total.toNat * itemSize) ≤ b - 1 := by
      intro total htot
      obtain ⟨hpos, hle⟩ := htotal total htot
      exact ⟨hpos, by omega⟩
    refine (hp.2.loadFatDirectory hattr hcount (by omega) (by omega)).bind
      fun handle m₂ hhandle => ?_
    rcases hhandle with ⟨rfl, hm₂⟩ | ⟨dp, ip, d', rfl, hdp, hip, hpos, hle, hdisk, hm₂⟩
    · refine ends_pure ⟨b, le_rfl, hp.1, hm₂.mono (by omega), fun p dp ip d heq => ?_, by omega⟩
      cases heq
    · refine ends_pure ⟨2 + d'.blocks, by omega, ⟨hp.1, hdp, hip, hpos⟩, ?_, ?_, by omega⟩
      · exact hm₂.mono (by omega)
      · rintro p dp ip d'' ⟨⟩
        exact hrest d' hdisk
  · have hone : blocksFor itemSize = 1 := by decide
    refine (hp.2.allocate itemSize (by decide) (by omega)).ends.bind fun q m₂ hq => ?_
    rw [hone] at hq
    refine ends_pure ⟨2, htwo, ⟨hp.1, hq.1⟩, hq.2.mono (by omega), fun p dp ip d heq => ?_,
      by omega⟩
    cases heq

/-- An item is freed with all its blocks. -/
lemma Ledger.fatItemFree (hA : Ledger A) {item : HeapItem} (hown : ItemOwned (some item))
    (h : A m (item.extents ++ L) n) :
    Ends (SerpaeOS.fatItemFree item) m fun _ m' => A m' L n := by
  rcases item with ⟨p, q, item⟩ | ⟨p, _ | _ | ⟨dp, ip, d⟩⟩
  · have h' : A m ([] ++ ((HeapItem.file p q item).extents ++ L)) n := h
    exact (hA.freeFile hown.1 hown.2 h' item).ends
  · exact (hA.release h hown Nat.one_pos).ends
  · exact ends_stuck
  · have h' : A m ([] ++ ((HeapItem.directory p (.loaded dp ip d)).extents ++ L)) n := h
    exact (hA.freeDirectory hown h').ends

/-- The rest of a search. -/
lemma Reached.getDirectoryEntryLoop : ∀ {names : List (List UInt8)} {r : Option HeapItem}
    {m : KMemory} {n b : ℕ}, Reached mt L names r m n b →
    Ends (mt.getDirectoryEntryLoop r names) m fun r m' => Reached mt L [] r m' (n - b) 0 := by
  intro names
  induction names with
  | nil =>
    intro r m n b h
    rw [FatMount.getDirectoryEntryLoop]
    exact ends_pure ⟨h.owned, h.holds.mono (Nat.sub_le n b), fun _ _ _ _ _ => trivial,
      Nat.zero_le _⟩
  | cons name rest ih =>
    intro r m n b h
    rcases r with _ | ⟨p, q, item⟩ | ⟨p, _ | _ | ⟨dp, ip, d⟩⟩
    · exact ends_stuck
    · refine ends_pure ⟨trivial, ?_, fun _ _ _ _ _ => trivial, Nat.zero_le _⟩
      exact h.holds.drop.mono (Nat.sub_le n b)
    · exact ends_stuck
    · exact ends_stuck
    · rw [FatMount.getDirectoryEntryLoop]
      refine (h.holds.findFatItem (h.fits p dp ip d rfl) h.le).bind fun tmp m₁ htmp => ?_
      obtain ⟨u, hu, htmp⟩ := htmp
      -- the directory that has been searched is freed, the item that was found is not
      have hperm : (itemExtents tmp ++ ((HeapItem.directory p (.loaded dp ip d)).extents ++ L)).Perm
          ((HeapItem.directory p (.loaded dp ip d)).extents ++ (itemExtents tmp ++ L)) := by
        rw [← List.append_assoc, ← List.append_assoc]
        exact List.perm_append_comm.append_right L
      refine (holds_ledger.fatItemFree h.owned (htmp.holds.perm hperm)).bind fun _ m₂ hm₂ => ?_
      refine (ih ⟨htmp.owned, hm₂, htmp.fits, htmp.le⟩).mono fun r m₃ hr => ?_
      rw [show n - u - (b - u) = n - b by omega] at hr
      exact hr

/-- What a search from the root directory finds is held, and nothing else that it has taken
and not given back is referred to. -/
lemma Holds.getDirectoryEntry (h : Holds m L n) (hfit : mt.SearchFits names mt.root b)
    (hb : b ≤ n) : Ends (mt.getDirectoryEntry names) m fun r m' =>
      ItemOwned r ∧ Holds m' (itemExtents r ++ L) (n - b) := by
  cases names with
  | nil => exact ends_stuck
  | cons name rest =>
    refine (h.findFatItem hfit hb).bind fun r m₁ hr => ?_
    obtain ⟨u, hu, hr⟩ := hr
    cases r with
    | none => exact ends_pure ⟨trivial, hr.holds.mono (by omega)⟩
    | some r =>
      refine hr.getDirectoryEntryLoop.mono fun r m₂ hr₂ => ⟨hr₂.owned, hr₂.holds.mono (by omega)⟩

/-- The search for the file that is to be opened. -/
lemma Holds.openItem (h : Holds m L n) (hfit : mt.SearchFits names mt.root b)
    (hb : 2 * b ≤ n) : Ends (mt.openItem names) m fun r m' =>
      ItemOwned r ∧ Holds m' (itemExtents r ++ L) (n - 2 * b) := by
  refine (h.getDirectoryEntry hfit (by omega)).bind fun r m₁ hr => ?_
  cases r with
  | none =>
    refine Ends.ite (fun _ => ?_) fun _ => ends_pure ⟨trivial, hr.2.mono (by omega)⟩
    refine (Holds.getDirectoryEntry hr.2 hfit (by omega)).mono fun r m₂ hr₂ => ?_
    exact ⟨hr₂.1, hr₂.2.mono (by omega)⟩
  | some r => exact ends_pure ⟨hr.1, hr.2.mono (by omega)⟩

/-! ## Opening a file -/

/-- Below the root directory `write_directory_entry` frees only what it has taken. -/
lemma Holds.writeDirectoryEntry (h : Holds m L n) (hfit : mt.SearchFits names mt.root b)
    (hlen : 2 ≤ names.length) (hb : b ≤ n) (newItem : FatDirectoryItem) :
    Ends (mt.writeDirectoryEntry names newItem) m fun _ m' => Holds m' L (n - b) := by
  have hparent : Ends (mt.getParentDir names) m fun r m' =>
      ItemOwned r ∧ Holds m' (itemExtents r ++ L) (n - b) := by
    match names, hlen with
    | name :: name' :: rest, _ => exact h.getDirectoryEntry hfit.dropLast hb
  refine hparent.bind fun r m₁ hr => ?_
  rcases r with _ | ⟨p, ip, item⟩ | ⟨p, _ | _ | ⟨dp, ip, d⟩⟩
  · exact ends_stuck
  · exact ends_stuck
  · exact ends_pure hr.2.drop
  · exact ends_stuck
  simp only
  rcases hi : FatKind.entryIndex d (names.getLastD []) with _ | i
  · exact ends_pure hr.2.drop
  · refine (holds_ledger.fatItemFree hr.1 hr.2).bind fun _ m₂ hm₂ => ?_
    exact ends_pure hm₂

/-- An open that fails gives back the descriptor, and one that succeeds holds the blocks of the
file; the disk is as before, or the date of access has been written. -/
lemma Holds.fatOpen {path : List PathPart} {mode now : ℕ} (h : Holds m L n)
    (hnames : path.map PathPart.part = names) (hfit : mt.SearchFits names mt.root b)
    (hroot : ∀ item b, FileAt mt mt.root names item b → 2 ≤ names.length) (hn : 3 * b + 1 ≤ n) :
    Ends (mt.fatOpen path mode now) m fun r m' => mt.Dated names r.2 ∧
      ((∃ e, r.1 = .error e ∧ -8 ≤ e ∧ e < 0 ∧ Holds m' L (n - (3 * b + 1))) ∨
        ∃ f, r.1 = .ok f ∧ f.path = path ∧ f.Owned ∧
          Holds m' (f.extents ++ L) (n - (3 * b + 1))) := by
  subst hnames
  have hblocks : blocksFor fatFileDescriptorSize = 1 := by decide
  refine (h.allocate fatFileDescriptorSize (by decide) (by omega)).ends.bind
    fun ptr m₁ hptr => ?_
  rw [hblocks] at hptr
  rw [if_neg hptr.1.ne_zero]
  have hfail : ∀ {e : ℤ} {F : List Extent} {m₂ : KMemory}, -8 ≤ e → e < 0 →
      Holds m₂ (F ++ extentAt ptr 1 :: L) (n - 1 - 2 * b) →
      Ends (do
        SerpaeOS.release ptr
        return (.error e, mt.disk) : KProg (Except ℤ FatOpenFile × Disk)) m₂ fun r m' =>
        mt.Dated (path.map PathPart.part) r.2 ∧
          ((∃ e, r.1 = .error e ∧ -8 ≤ e ∧ e < 0 ∧ Holds m' L (n - (3 * b + 1))) ∨
            ∃ f, r.1 = .ok f ∧ f.path = path ∧ f.Owned ∧
              Holds m' (f.extents ++ L) (n - (3 * b + 1))) := by
    intro e F m₂ he he' hm₂
    refine (hm₂.drop.release hptr.1 Nat.one_pos).ends.bind fun _ m₃ hm₃ => ?_
    exact ends_pure ⟨Or.inl rfl, Or.inl ⟨e, rfl, he, he', hm₃.mono (by omega)⟩⟩
  -- the search, with the file that it leads to
  have hitem : Ends (mt.openItem (path.map PathPart.part)) m₁ fun r m' =>
      (ItemOwned r ∧ Holds m' (itemExtents r ++ extentAt ptr 1 :: L) (n - 1 - 2 * b)) ∧
        ∀ p q item, r = some (.file p q item) →
          ∃ c, FileAt mt mt.root (path.map PathPart.part) item c := by
    intro r m₂ hrun
    refine ⟨hptr.2.openItem hfit (by omega) r m₂ hrun, ?_⟩
    rintro p q item rfl
    exact FatMount.fileAt_of_openItem hrun
  refine hitem.bind fun r m₂ hr => ?_
  obtain ⟨⟨hown, hm₂⟩, hfile⟩ := hr
  rcases r with _ | ⟨p, q, item⟩ | ⟨p, handle⟩
  · exact hfail (e := -eio) (by decide) (by decide) hm₂
  · obtain ⟨c, hfile⟩ := hfile p q item rfl
    simp only [if_neg hown.2.ne_zero]
    refine Ends.ite (fun _ => hfail (e := -erdonly) (by decide) (by decide) hm₂) fun _ => ?_
    have hwrite : Ends (mt.writeDirectoryEntry (path.map PathPart.part)
        ⟨store item.raw 18 (numberBytes 2 now)⟩) m₂ fun r m' =>
        mt.Dated (path.map PathPart.part) r.2 ∧
          Holds m' (itemExtents (some (.file p q item)) ++ extentAt ptr 1 :: L)
            (n - (3 * b + 1)) := by
      intro r m₃ hrun
      refine ⟨?_, (hm₂.writeDirectoryEntry hfit (hroot _ _ hfile) (by omega) _ r m₃ hrun).mono
        (by omega)⟩
      rcases FatMount.writeDirectoryEntry_disk hrun with hsame | hwritten
      · exact Or.inl hsame
      · exact Or.inr ⟨item, c, now, r, hfile, hwritten, rfl⟩
    refine hwrite.bind fun written m₃ hwritten => ends_pure ⟨hwritten.1, Or.inr ?_⟩
    exact ⟨_, rfl, rfl, ⟨hptr.1, hown.1, hown.2⟩, hwritten.2⟩
  · exact hfail (e := -einvarg) (by decide) (by decide) hm₂

end SerpaeOS
