import SerpaeOS.Fs.Descriptors

/-!
# Files of user processes

Each process has a table `iob` of twenty indices of the kernel's file descriptors; a `FILE *`
of the process points to one of them, and `0` marks an unused one.  `process_fopen` takes
every result of the kernel's `fopen` other than `0` for an index, the error codes included.
-/

namespace SerpaeOS

open BlockTable Bytes Word Prog StepRun

/-- `NFILE`. -/
def nfile : ℕ := 20

/-- `process_fopen`: the entry of `iob` that is returned, `none` for `NULL`, and the table. -/
def processFopen (iob : ℕ → ℤ) (filename mode : List UInt8) (now : ℕ) :
    KernelProg (Option ℕ × (ℕ → ℤ)) :=
  match (List.range nfile).find? fun fp => iob fp = 0 with
  | none => return (none, iob)
  | some fp => do
    let fd ← fopen filename mode now
    if fd = 0 then return (none, iob)
    else return (some fp, Function.update iob fp fd)

/-- `process_fclose` of an entry of `iob`. -/
def processFclose (iob : ℕ → ℤ) (fp : ℕ) : KernelProg (ℤ × (ℕ → ℤ)) := do
  let _ ← fclose (iob fp)
  return (0, Function.update iob fp 0)

/-! ## Runs of the file calls of several processes -/

/-- A call of `process_fopen` that has returned: the process and its table before the call,
the entry returned, and the result of the kernel's `fopen` if that was called. -/
structure FopenAnswer where
  pid : ℕ
  before : ℕ → ℤ
  returned : Option ℕ
  kernel : Option ℤ

/-- The kernel, the tables of the processes by their number, and the last answer of
`process_fopen`. -/
structure FilesRun where
  kernel : Kernel
  iob : ℕ → ℕ → ℤ
  answer : Option FopenAnswer

inductive FilesOp
  | fopen (pid : ℕ) (filename mode : List UInt8) (now : ℕ)
  | fclose (pid fp : ℕ)

/-- The result of the kernel's `fopen`, when there is an unused entry and it is called. -/
def kernelAnswer (r : FilesRun) (pid : ℕ) (filename mode : List UInt8) (now : ℕ) : Option ℤ :=
  if ∃ fp < nfile, r.iob pid fp = 0 then (fopen filename mode now r.kernel).map Prod.fst
  else none

def filesCall (r : FilesRun) : FilesOp → Option FilesRun
  | .fopen pid filename mode now =>
    (processFopen (r.iob pid) filename mode now r.kernel).map fun ((fp, iob), k) =>
      ⟨k, Function.update r.iob pid iob,
        some ⟨pid, r.iob pid, fp, kernelAnswer r pid filename mode now⟩⟩
  | .fclose pid fp =>
    (processFclose (r.iob pid) fp r.kernel).map fun ((_, iob), k) =>
      ⟨k, Function.update r.iob pid iob, none⟩

/-- The calls, as long as the structures of the file layer are intact. -/
abbrev filesStep (lost : FilesRun → FilesOp → Option FilesRun) :
    FilesRun → FilesOp → Option FilesRun :=
  intactStep FilesRun.kernel lost filesCall

/-- `process_fclose` is called with an entry of the table. -/
def FilesLegal (_ : FilesRun) : FilesOp → Prop
  | .fopen _ _ _ _ => True
  | .fclose _ fp => fp < nfile

/-- The index of a descriptor that is open. -/
def Kernel.IsOpen (k : Kernel) (fd : ℤ) : Prop :=
  ∃ i < maxFileDescriptors, fd = ((i + 1 : ℕ) : ℤ) ∧ k.fileDescriptors i ≠ none

/-- Every used entry is the index of an open descriptor, no two entries are the same, and
`process_fopen` has returned an entry exactly if the kernel's `fopen` succeeded, and left the
table as it was otherwise. -/
structure FilesOk (r : FilesRun) : Prop where
  is_open : ∀ pid, ∀ fp < nfile, r.iob pid fp ≠ 0 → r.kernel.IsOpen (r.iob pid fp)
  distinct : ∀ p q, ∀ i < nfile, ∀ j < nfile, r.iob p i ≠ 0 → r.iob p i = r.iob q j →
    p = q ∧ i = j
  answer_ok : ∀ a, r.answer = some a →
    (a.returned ≠ none ↔ ∃ fd, a.kernel = some fd ∧ 0 < fd) ∧
      ((¬ ∃ fd, a.kernel = some fd ∧ 0 < fd) → r.iob a.pid = a.before)

/-- The kernel's `fopen` opens the file. -/
def Opens (k : Kernel) (filename mode : List UInt8) (now : ℕ) : Prop :=
  ∃ fd k', fopen filename mode now k = some (fd, k') ∧ 0 < fd

/-- When there is an unused entry, `process_fopen` is called for a file that the kernel
opens; a block of the heap is free when an open file is closed. -/
def FilesRoom (r : FilesRun) : FilesOp → Prop
  | .fopen pid filename mode now =>
    (∃ fp < nfile, r.iob pid fp = 0) → Opens r.kernel filename mode now
  | .fclose pid fp =>
    fileGetDescriptor r.kernel (r.iob pid fp) ≠ none → HasFreeBlock r.kernel.memory.heap

/-! ## One call -/

variable {k k' : Kernel} {m₀ : KMemory} {iob : ℕ → ℤ} {filename mode : List UInt8} {now : ℕ}

/-- Without an unused entry the kernel is not asked. -/
lemma processFopen_full (h : ¬ ∃ fp < nfile, iob fp = 0) :
    processFopen iob filename mode now k = some ((none, iob), k) := by
  have hfind : (List.range nfile).find? (fun fp => iob fp = 0) = none := by
    rw [List.find?_eq_none]
    intro fp hfp hzero
    exact h ⟨fp, List.mem_range.mp hfp, of_decide_eq_true hzero⟩
  rw [processFopen, hfind]
  rfl

/-- With an unused entry the result of the kernel's `fopen` is stored in it. -/
lemma processFopen_unused {fd : ℤ} (h : ∃ fp < nfile, iob fp = 0)
    (hopen : fopen filename mode now k = some (fd, k')) (hfd : fd ≠ 0) :
    ∃ fp < nfile, iob fp = 0 ∧
      processFopen iob filename mode now k = some ((some fp, Function.update iob fp fd), k') := by
  rcases hfind : (List.range nfile).find? fun fp => iob fp = 0 with _ | fp
  · obtain ⟨fp, hfp, hzero⟩ := h
    exact absurd (decide_eq_true hzero) (List.find?_eq_none.mp hfind fp (List.mem_range.mpr hfp))
  · obtain ⟨hzero, hfp, -⟩ := List.find?_range_eq_some.mp hfind
    refine ⟨fp, List.mem_range.mp hfp, of_decide_eq_true hzero, ?_⟩
    rw [processFopen, hfind]
    change (fopen filename mode now k).bind _ = _
    rw [hopen]
    simp only [Option.bind_some, if_neg hfd]
    rfl

/-- If the kernel's `fopen` does not return, `process_fopen` does not. -/
lemma processFopen_stuck (h : ∃ fp < nfile, iob fp = 0)
    (hopen : fopen filename mode now k = none) :
    processFopen iob filename mode now k = none := by
  rcases hfind : (List.range nfile).find? fun fp => iob fp = 0 with _ | fp
  · obtain ⟨fp, hfp, hzero⟩ := h
    exact absurd (decide_eq_true hzero) (List.find?_eq_none.mp hfind fp (List.mem_range.mpr hfp))
  · rw [processFopen, hfind]
    change (fopen filename mode now k).bind _ = _
    rw [hopen]
    rfl

lemma processFclose_eq {fp : ℕ} {res : ℤ} (h : fclose (iob fp) k = some (res, k')) :
    processFclose iob fp k = some ((0, Function.update iob fp 0), k') := by
  change (fclose (iob fp) k).bind _ = _
  rw [h]
  rfl

lemma processFclose_stuck {fp : ℕ} (h : fclose (iob fp) k = none) :
    processFclose iob fp k = none := by
  change (fclose (iob fp) k).bind _ = _
  rw [h]
  rfl

/-! ## The invariant -/

/-- What holds along a run: moreover every descriptor of a used entry knows its index. -/
structure FilesInv (m₀ : KMemory) (r : FilesRun) : Prop extends FilesOk r where
  recorded : Recorded m₀ r.kernel.memory
  index_eq : ∀ pid, ∀ fp < nfile, ∀ (i : ℕ) (desc : FileDescriptor),
    r.iob pid fp = ((i + 1 : ℕ) : ℤ) → r.kernel.fileDescriptors i = some desc →
    desc.index = i + 1

variable {r : FilesRun}

/-- The tables with one entry changed. -/
def FilesRun.setEntry (r : FilesRun) (pid fp : ℕ) (fd : ℤ) : ℕ → ℕ → ℤ :=
  Function.update r.iob pid (Function.update (r.iob pid) fp fd)

lemma FilesRun.setEntry_self (pid fp : ℕ) (fd : ℤ) : r.setEntry pid fp fd pid fp = fd := by
  rw [setEntry, Function.update_self, Function.update_self]

lemma FilesRun.setEntry_of_ne {pid fp q j : ℕ} (fd : ℤ) (h : ¬ (q = pid ∧ j = fp)) :
    r.setEntry pid fp fd q j = r.iob q j := by
  rw [setEntry]
  by_cases hq : q = pid
  · subst hq
    rw [Function.update_self, Function.update_of_ne fun hj => h ⟨rfl, hj⟩]
  · rw [Function.update_of_ne hq]

/-- A new descriptor in an unused entry. -/
lemma FilesInv.entered (h : FilesInv m₀ r) (hrec : Recorded m₀ k.memory) {pid fp i : ℕ}
    {desc : FileDescriptor} (hent : Entered r.kernel k i desc) {a : FopenAnswer}
    (ha : a.returned ≠ none) (hak : a.kernel = some ((i + 1 : ℕ) : ℤ)) :
    FilesInv m₀ ⟨k, r.setEntry pid fp ((i + 1 : ℕ) : ℤ), some a⟩ := by
  have hself : k.fileDescriptors i = some desc := by
    rw [hent.table_eq, Function.update_self]
  -- a descriptor that was open is in another slot
  have hother : ∀ j, r.kernel.fileDescriptors j ≠ none →
      j ≠ i ∧ k.fileDescriptors j = r.kernel.fileDescriptors j := by
    intro j hj
    have hne : j ≠ i := by
      rintro rfl
      exact hj hent.free
    exact ⟨hne, by rw [hent.table_eq, Function.update_of_ne hne]⟩
  have hused : ∀ q, ∀ l < nfile, r.iob q l ≠ 0 → r.iob q l ≠ ((i + 1 : ℕ) : ℤ) := by
    intro q l hl hne heq
    obtain ⟨j, -, hfd, hj⟩ := h.is_open q l hl hne
    exact (hother j hj).1 (by omega)
  refine ⟨⟨?_, ?_, ?_⟩, hrec, ?_⟩
  · intro q l hl hne
    by_cases hql : q = pid ∧ l = fp
    · obtain ⟨rfl, rfl⟩ := hql
      simp only [FilesRun.setEntry_self]
      exact ⟨i, hent.lt, rfl, by rw [hself]; exact Option.some_ne_none _⟩
    · simp only [FilesRun.setEntry_of_ne _ hql] at hne ⊢
      obtain ⟨j, hj, hfd, hopen⟩ := h.is_open q l hl hne
      exact ⟨j, hj, hfd, by rw [(hother j hopen).2]; exact hopen⟩
  · intro p q l hl l' hl' hne heq
    by_cases hpl : p = pid ∧ l = fp
    · by_cases hql : q = pid ∧ l' = fp
      · exact ⟨hpl.1.trans hql.1.symm, hpl.2.trans hql.2.symm⟩
      · obtain ⟨rfl, rfl⟩ := hpl
        simp only [FilesRun.setEntry_self, FilesRun.setEntry_of_ne _ hql] at hne heq
        exact absurd heq.symm (hused q l' hl' (by omega))
    · by_cases hql : q = pid ∧ l' = fp
      · obtain ⟨rfl, rfl⟩ := hql
        simp only [FilesRun.setEntry_self, FilesRun.setEntry_of_ne _ hpl] at hne heq
        exact absurd heq (hused p l hl hne)
      · simp only [FilesRun.setEntry_of_ne _ hpl, FilesRun.setEntry_of_ne _ hql] at hne heq
        exact h.distinct p q l hl l' hl' hne heq
  · intro b hb
    cases hb
    have hsucceeded : ∃ fd, a.kernel = some fd ∧ 0 < fd := ⟨_, hak, by omega⟩
    exact ⟨iff_of_true ha hsucceeded, fun hno => absurd hsucceeded hno⟩
  · intro q l hl j desc' hfd htable
    by_cases hql : q = pid ∧ l = fp
    · obtain ⟨rfl, rfl⟩ := hql
      simp only [FilesRun.setEntry_self] at hfd
      obtain rfl : j = i := by omega
      cases hself.symm.trans htable
      exact hent.index_eq
    · simp only [FilesRun.setEntry_of_ne _ hql] at hfd
      obtain ⟨j', -, hfd', hopen⟩ := h.is_open q l hl (by omega)
      obtain rfl : j' = j := by omega
      simp only [(hother j' hopen).2] at htable
      exact h.index_eq q l hl j' desc' hfd htable

/-- An entry that is given back, with at most its own descriptor closed. -/
lemma FilesInv.closed (h : FilesInv m₀ r) (hrec : Recorded m₀ k.memory) {pid fp : ℕ}
    (hfp : fp < nfile) (htable : ∀ j, r.iob pid fp ≠ ((j + 1 : ℕ) : ℤ) →
      k.fileDescriptors j = r.kernel.fileDescriptors j) :
    FilesInv m₀ ⟨k, r.setEntry pid fp 0, none⟩ := by
  -- the descriptors of the other used entries have stayed
  have hother : ∀ q, ∀ l < nfile, ¬ (q = pid ∧ l = fp) → ∀ j,
      r.iob q l = ((j + 1 : ℕ) : ℤ) → k.fileDescriptors j = r.kernel.fileDescriptors j := by
    intro q l hl hql j hfd
    refine htable j fun heq => hql ?_
    exact h.distinct q pid l hl fp hfp (by omega) (hfd.trans heq.symm)
  refine ⟨⟨?_, ?_, ?_⟩, hrec, ?_⟩
  · intro q l hl hne
    by_cases hql : q = pid ∧ l = fp
    · obtain ⟨rfl, rfl⟩ := hql
      exact absurd (FilesRun.setEntry_self _ _ _) hne
    · simp only [FilesRun.setEntry_of_ne _ hql] at hne ⊢
      obtain ⟨j, hj, hfd, hopen⟩ := h.is_open q l hl hne
      exact ⟨j, hj, hfd, by rw [hother q l hl hql j hfd]; exact hopen⟩
  · intro p q l hl l' hl' hne heq
    by_cases hpl : p = pid ∧ l = fp
    · obtain ⟨rfl, rfl⟩ := hpl
      exact absurd (FilesRun.setEntry_self _ _ _) hne
    · by_cases hql : q = pid ∧ l' = fp
      · obtain ⟨rfl, rfl⟩ := hql
        simp only [FilesRun.setEntry_self] at heq
        exact absurd heq hne
      · simp only [FilesRun.setEntry_of_ne _ hpl, FilesRun.setEntry_of_ne _ hql] at hne heq
        exact h.distinct p q l hl l' hl' hne heq
  · intro a ha
    cases ha
  · intro q l hl j desc hfd hdesc
    by_cases hql : q = pid ∧ l = fp
    · obtain ⟨rfl, rfl⟩ := hql
      simp only [FilesRun.setEntry_self] at hfd
      omega
    · simp only [FilesRun.setEntry_of_ne _ hql] at hfd
      simp only [hother q l hl hql j hfd] at hdesc
      exact h.index_eq q l hl j desc hfd hdesc

/-- The kernel's `fclose` for an entry closes no descriptor but its own. -/
lemma FilesInv.fclose (h : FilesInv m₀ r) {pid fp : ℕ} (hfp : fp < nfile)
    (hroom : FilesRoom r (.fclose pid fp)) :
    ∃ res k, SerpaeOS.fclose (r.iob pid fp) r.kernel = some (res, k) ∧
      ∀ j, r.iob pid fp ≠ ((j + 1 : ℕ) : ℤ) →
        k.fileDescriptors j = r.kernel.fileDescriptors j := by
  rcases hget : fileGetDescriptor r.kernel (r.iob pid fp) with _ | desc
  · exact ⟨-eio, r.kernel, fclose_none hget, fun _ _ => rfl⟩
  · have hfree : HasFreeBlock r.kernel.memory.heap :=
      hroom (by rw [hget]; exact Option.some_ne_none _)
    have hmem := (kzalloc_ne_zero_iff h.recorded.saddr_eq h.recorded.total_eq
      (by decide : 0 < pathRootSize) (by decide)).mpr hfree
    obtain ⟨k, hclose, htable⟩ := fclose_open hget hmem
    refine ⟨0, k, hclose, fun j hj => ?_⟩
    -- the entry is the index of the descriptor's slot
    have hne : r.iob pid fp ≠ 0 := by
      intro hzero
      rw [hzero, fileGetDescriptor, if_pos (Or.inl le_rfl)] at hget
      cases hget
    obtain ⟨i, hi, hfd, -⟩ := h.is_open pid fp hfp hne
    have hlt : i + 1 < maxFileDescriptors := by
      by_contra hlast
      rw [hfd, fileGetDescriptor, if_pos (by omega)] at hget
      cases hget
    rw [hfd, fileGetDescriptor_succ hlt] at hget
    rw [htable, h.index_eq pid fp hfp i desc hfd hget, Nat.add_sub_cancel,
      Function.update_of_ne (by rintro rfl; exact hj hfd)]

/-- A call that meets the condition. -/
lemma FilesInv.step (h : FilesInv m₀ r) {op : FilesOp} (hl : FilesLegal r op)
    (hroom : FilesRoom r op) : ∃ r', filesCall r op = some r' ∧ FilesInv m₀ r' := by
  cases op with
  | fopen pid filename mode now =>
    by_cases hunused : ∃ fp < nfile, r.iob pid fp = 0
    · obtain ⟨fd, k, hopen, hfd⟩ := hroom hunused
      obtain ⟨fp, -, -, hproc⟩ := processFopen_unused hunused hopen (by omega)
      have hrec := keeps_fopen _ _ _ _ _ _ h.recorded hopen
      refine ⟨_, by rw [filesCall, hproc, Option.map_some], ?_⟩
      rcases fopen_descriptors hopen with ⟨hres, -⟩ | ⟨i, desc, rfl, hent⟩
      · omega
      · refine h.entered hrec hent (Option.some_ne_none _) ?_
        simp only [kernelAnswer, if_pos hunused, hopen, Option.map_some]
    · refine ⟨_, by rw [filesCall, processFopen_full hunused, Option.map_some], ?_⟩
      simp only [Function.update_eq_self]
      refine ⟨⟨h.is_open, h.distinct, ?_⟩, h.recorded, h.index_eq⟩
      intro a ha
      cases ha
      have hno : ¬ ∃ fd, kernelAnswer r pid filename mode now = some fd ∧ 0 < fd := by
        rintro ⟨fd, hfd, -⟩
        rw [kernelAnswer, if_neg hunused] at hfd
        cases hfd
      exact ⟨iff_of_false (fun hne => hne rfl) hno, fun _ => rfl⟩
  | fclose pid fp =>
    obtain ⟨res, k, hclose, htable⟩ := h.fclose hl hroom
    have hrec := keeps_fclose _ _ _ _ h.recorded hclose
    refine ⟨_, by rw [filesCall, processFclose_eq hclose, Option.map_some], ?_⟩
    exact h.closed hrec hl htable

/-- A call that misses the condition and returns. -/
lemma FilesInv.step_bad (h : FilesInv m₀ r) {op : FilesOp} {r' : FilesRun}
    (hroom : ¬ FilesRoom r op) (hstep : filesCall r op = some r') : ¬ FilesOk r' := by
  intro hok
  cases op with
  | fopen pid filename mode now =>
    simp only [FilesRoom, Classical.not_imp] at hroom
    obtain ⟨hunused, hclosed⟩ := hroom
    rcases hopen : fopen filename mode now r.kernel with _ | ⟨fd, k⟩
    · rw [filesCall, processFopen_stuck hunused hopen] at hstep
      cases hstep
    · rcases fopen_descriptors hopen with ⟨hres, -⟩ | ⟨i, desc, rfl, -⟩
      · -- the error code is stored in the entry
        obtain ⟨fp, hfp, -, hproc⟩ := processFopen_unused hunused hopen (by omega)
        rw [filesCall, hproc, Option.map_some] at hstep
        cases hstep
        have hentry : r.setEntry pid fp fd pid fp = fd := FilesRun.setEntry_self pid fp fd
        obtain ⟨i, -, hfd, -⟩ := hok.is_open pid fp hfp (by
          change r.setEntry pid fp fd pid fp ≠ 0
          omega)
        change r.setEntry pid fp fd pid fp = _ at hfd
        omega
      · exact hclosed ⟨_, k, hopen, by omega⟩
  | fclose pid fp =>
    simp only [FilesRoom, Classical.not_imp] at hroom
    obtain ⟨hget, hfree⟩ := hroom
    obtain ⟨desc, hdesc⟩ := Option.ne_none_iff_exists'.mp hget
    have hmem := kzalloc_ne_zero_iff h.recorded.saddr_eq h.recorded.total_eq
      (by decide : 0 < pathRootSize) (by decide)
    have hstuck := fclose_stuck hdesc (not_not.mp fun hne => hfree (hmem.mp hne))
    rw [filesCall, processFclose_stuck hstuck] at hstep
    cases hstep

/-- The state before the first call: no process has a file open. -/
def FilesRun.start (k : Kernel) : FilesRun := ⟨k, fun _ _ => 0, none⟩

lemma KernelMemory.filesInv {L : List Extent} (h : KernelMemory k.memory L) :
    FilesInv k.memory (FilesRun.start k) := by
  refine ⟨⟨fun _ _ _ hne => absurd rfl hne, fun _ _ _ _ _ _ hne => absurd rfl hne, ?_⟩,
    h.recorded, ?_⟩
  · intro a ha
    cases ha
  · intro pid fp _ i desc hfd
    change (0 : ℤ) = _ at hfd
    omega

variable {lost : FilesRun → FilesOp → Option FilesRun}

/-- As long as the structures are intact before every call, the tables of the processes and the
kernel's descriptors agree in every state of a run exactly if `process_fopen` is only called for
files that the kernel opens, or without an unused entry, and every `process_fclose` of an open file
finds a free block. -/
theorem iob_indices_open_iff {L : List Extent} (hmem : KernelMemory k.memory L)
    {ops : List FilesOp}
    (hintact : Guarded (filesStep lost) (fun r _ => r.kernel.Intact) (FilesRun.start k) ops)
    (hl : Guarded (filesStep lost) FilesLegal (FilesRun.start k) ops) :
    Always (filesStep lost) FilesOk (FilesRun.start k) ops ↔
      Guarded (filesStep lost) FilesRoom (FilesRun.start k) ops := by
  refine always_iff_guarded (fun _ h => h.toFilesOk) (fun r op h hl hc => ?_)
    (fun r op r' h hl hc hstep => ?_) hmem.filesInv (hintact.and hl)
  · rw [filesStep, intactStep_eq hl.1]
    exact h.step hl.2 hc
  · rw [filesStep, intactStep_eq hl.1] at hstep
    exact h.step_bad hc hstep

/-- A process opens a file that exists. -/
theorem iob_indices_open_iff_one_file :
    Always (filesStep fun _ _ => none) FilesOk (FilesRun.start (mountedKernel 1))
      [.fopen 1 pathA modeR 0] := by
  have hintact : Guarded (filesStep fun _ _ => none) (fun r _ => r.kernel.Intact)
      (FilesRun.start (mountedKernel 1)) [.fopen 1 pathA modeR 0] :=
    ⟨intact_mountedKernel 1, fun _ _ => trivial⟩
  have hlegal : Guarded (filesStep fun _ _ => none) FilesLegal
      (FilesRun.start (mountedKernel 1)) [.fopen 1 pathA modeR 0] := ⟨trivial, fun _ _ => trivial⟩
  refine (iob_indices_open_iff mountedMemory_kernelMemory hintact hlegal).mpr
    ⟨?_, fun _ _ => trivial⟩
  rintro -
  obtain ⟨fd, k, hopen, hfd⟩ := mountedKernel_opens
  refine ⟨fd, k, hopen, ?_⟩
  rcases fopen_descriptors hopen with ⟨hres, -⟩ | ⟨i, desc, rfl, -⟩
  · omega
  · omega

/-- A process opens a file that does not exist: whatever is done with structures that are not
intact, it gets an entry with the error code. -/
theorem not_iob_indices_open_missing : (mountedKernel 0).Intact ∧
    ∀ lost : FilesRun → FilesOp → Option FilesRun,
      Guarded (filesStep lost) (fun r _ => r.kernel.Intact) (FilesRun.start (mountedKernel 0))
          [.fopen 1 pathA modeR 0] ∧
        Guarded (filesStep lost) FilesLegal (FilesRun.start (mountedKernel 0))
          [.fopen 1 pathA modeR 0] ∧
        ¬ Always (filesStep lost) FilesOk (FilesRun.start (mountedKernel 0))
          [.fopen 1 pathA modeR 0] := by
  refine ⟨intact_mountedKernel 0, fun lost => ?_⟩
  refine ⟨⟨intact_mountedKernel 0, fun _ _ => trivial⟩, ⟨trivial, fun _ _ => trivial⟩, ?_⟩
  rintro ⟨-, r, hstep, hok⟩
  have hcall : filesStep lost (FilesRun.start (mountedKernel 0)) (.fopen 1 pathA modeR 0) =
      filesCall (FilesRun.start (mountedKernel 0)) (.fopen 1 pathA modeR 0) :=
    if_pos (intact_mountedKernel 0)
  rw [hcall] at hstep
  have hinv : FilesInv (mountedKernel 0).memory (FilesRun.start (mountedKernel 0)) :=
    KernelMemory.filesInv mountedMemory_kernelMemory
  refine hinv.step_bad ?_ hstep hok
  intro hroom
  obtain ⟨fd, k, hopen, hfd⟩ := hroom ⟨0, by decide, rfl⟩
  have hmissing := mountedKernel_misses.of_eq hopen
  omega

end SerpaeOS
