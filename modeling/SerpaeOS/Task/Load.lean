import SerpaeOS.Fs.ReadCodes
import SerpaeOS.Task.Terminate

/-!
# Loading a program

What `process_load` does to the table of processes and to the structures of the processes.
While a program is loaded only the structure of the new process changes, and with it, at the
end, the flag of its host.  The result of a failed load is one of the status codes of the
kernel, or a negative cluster number that the driver of the volume has returned.
-/

namespace SerpaeOS

open BlockTable Prog TaskList

variable {s s' t : System} {p : Ptr} {filename : List UInt8} {now : ℕ}

/-! ## Result codes -/

lemma pagingSet_code (c : PagingChunk) (virt val : ℕ) :
    (pagingSet c virt val).1 = 0 ∨ (pagingSet c virt val).1 = -einvarg := by
  rw [pagingSet]
  split_ifs with halign
  · exact Or.inr rfl
  · simp only [pagingGetIndexes, if_neg halign]
    exact Or.inl rfl

lemma pagingMapRange_code (flags count : ℕ) : ∀ (c : PagingChunk) (virt phys : ℕ),
    (pagingMapRange c virt phys flags count).1 = 0 ∨
      (pagingMapRange c virt phys flags count).1 = -einvarg := by
  induction count with
  | zero => exact fun c virt phys => Or.inl rfl
  | succ count ih =>
    intro c virt phys
    have hmap : (pagingMap c virt phys flags).1 = 0 ∨
        (pagingMap c virt phys flags).1 = -einvarg := by
      rw [pagingMap]
      split_ifs
      · exact Or.inr rfl
      · exact pagingSet_code _ _ _
    rw [pagingMapRange]
    generalize pagingMap c virt phys flags = r at hmap
    simp only
    split_ifs
    · exact hmap
    · exact ih _ _ _

lemma pagingMapTo_code (c : PagingChunk) (virt phys physEnd flags : ℕ) :
    (pagingMapTo c virt phys physEnd flags).1 = 0 ∨
      (pagingMapTo c virt phys physEnd flags).1 = -einvarg := by
  rw [pagingMapTo]
  split_ifs
  · exact Or.inr rfl
  · exact Or.inr rfl
  · exact Or.inr rfl
  · exact Or.inr rfl
  · exact pagingMapRange_code _ _ _ _ _

lemma processMapElfLoop_code (mem : Memory) (file : ElfFile) (k : ℕ) : ∀ (i : ℕ) (c : PagingChunk),
    (processMapElfLoop mem file k i c).1 = 0 ∨
      (processMapElfLoop mem file k i c).1 = -einvarg := by
  induction k with
  | zero => exact fun i c => Or.inl rfl
  | succ k ih =>
    intro i c
    have hmap : (processMapPhdr file (elfProgramHeader mem file i) c).1 = 0 ∨
        (processMapPhdr file (elfProgramHeader mem file i) c).1 = -einvarg :=
      pagingMapTo_code _ _ _ _ _
    rw [processMapElfLoop]
    generalize processMapPhdr file (elfProgramHeader mem file i) c = r at hmap
    simp only
    split_ifs
    · exact hmap
    · exact ih _ _

lemma elfProcessPheadersLoop_code (mem : Memory) (k : ℕ) : ∀ (i : ℕ) (file : ElfFile),
    (elfProcessPheadersLoop mem k i file).1 = 0 := by
  induction k with
  | zero => exact fun i file => rfl
  | succ k ih =>
    intro i file
    have hphdr : (elfProcessPheader file (elfProgramHeader mem file i)).1 = 0 := by
      rw [elfProcessPheader]
      split_ifs
      · rfl
      · rfl
    rw [elfProcessPheadersLoop]
    generalize elfProcessPheader file (elfProgramHeader mem file i) = r at hphdr
    simp only
    rw [if_neg (by omega)]
    exact ih _ _

lemma elfProcessLoaded_code (mem : Memory) (file : ElfFile) :
    (elfProcessLoaded mem file).1 = 0 ∨ (elfProcessLoaded mem file).1 = -einformat := by
  rw [elfProcessLoaded]
  generalize hvalid : elfValidateLoaded (elfHeader mem file) = r
  split_ifs with hneg
  · rw [elfValidateLoaded] at hvalid
    split_ifs at hvalid
    · rw [← hvalid] at hneg
      exact absurd hneg (by decide)
    · exact Or.inr hvalid.symm
  · exact Or.inl (elfProcessPheadersLoop_code _ _ _ _)

/-! ## What stays while a program is loaded -/

/-- The table of processes, the current process, what is shown and the structures other than that
of `p` are as before. -/
structure Apart (p : Ptr) (s t : System) : Prop where
  processes_eq : t.processes = s.processes
  current_eq : t.currentProcess = s.currentProcess
  process_eq : ∀ q, q ≠ p → t.process q = s.process q
  display_eq : t.terminal = s.terminal ∧ t.screenStores = s.screenStores

/-- Moreover the tasks are as before, and of the structure of `p` at most the fields of the
program data have changed. -/
structure Loading (p : Ptr) (s t : System) : Prop extends Apart p s t where
  sched_eq : t.sched = s.sched
  fields : ∃ filetype data size, filetype ≠ .driver ∧
    t.process p = { s.process p with filetype := filetype, data := data, size := size }

lemma Apart.refl (p : Ptr) (s : System) : Apart p s s :=
  ⟨rfl, rfl, fun _ _ => rfl, rfl, rfl⟩

lemma Apart.setProcess (h : Apart p s t) (f : Process → Process) :
    Apart p s (t.setProcess p f) := by
  refine ⟨h.processes_eq, h.current_eq, fun q hq => ?_, h.display_eq⟩
  rw [System.setProcess_process, Function.update_of_ne hq]
  exact h.process_eq q hq

lemma Loading.refl (hp : (s.process p).filetype ≠ .driver) : Loading p s s :=
  ⟨Apart.refl p s, rfl, _, _, _, hp, rfl⟩

/-- An assignment to the fields of the program data. -/
lemma Loading.setData (h : Loading p s t) {filetype : ProcessFiletype} {d n : ℕ → ℕ}
    (hne : filetype ≠ .driver) : Loading p s (t.setProcess p fun q =>
      { q with filetype := filetype, data := d q.data, size := n q.size }) := by
  obtain ⟨ft, data, size, -, heq⟩ := h.fields
  refine ⟨h.toApart.setProcess _, h.sched_eq, filetype, d data, n size, hne, ?_⟩
  rw [System.setProcess_process, Function.update_self, heq]

section Keeps

variable {α : Type} {I : System → Prop}

lemma keeps_getSystem : Keeps I getSystem := by
  intro t a t' ht h
  cases h
  exact ht

lemma keeps_updateSystem {f : System → System} (hf : ∀ t, I t → I (f t)) :
    Keeps I (updateSystem f) := by
  intro t a t' ht h
  cases h
  exact hf t ht

lemma onKernel_eq_some {q : KernelProg α} {a : α} (h : onKernel q s = some (a, s')) :
    ∃ k, q s.kernel = some (a, k) ∧ s' = { s with kernel := k } := by
  obtain ⟨⟨b, k⟩, hq, heq⟩ := Option.map_eq_some_iff.mp h
  cases heq
  exact ⟨k, hq, rfl⟩

lemma Apart.keeps_onKernel (q : KernelProg α) : Keeps (Apart p s) (onKernel q) := by
  intro t a t' ht h
  obtain ⟨k, -, rfl⟩ := onKernel_eq_some h
  exact ⟨ht.processes_eq, ht.current_eq, ht.process_eq, ht.display_eq⟩

lemma Loading.keeps_onKernel (q : KernelProg α) : Keeps (Loading p s) (onKernel q) := by
  intro t a t' ht h
  have hapart := Apart.keeps_onKernel q t a t' ht.toApart h
  obtain ⟨k, -, rfl⟩ := onKernel_eq_some h
  exact ⟨hapart, ht.sched_eq, ht.fields⟩

end Keeps

/-- An assignment to the memory of the images or to an `elf_file`. -/
lemma Loading.keeps_update {f : System → System} (hprocess : ∀ t, (f t).process = t.process)
    (hprocesses : ∀ t, (f t).processes = t.processes)
    (hcurrent : ∀ t, (f t).currentProcess = t.currentProcess)
    (hsched : ∀ t, (f t).sched = t.sched)
    (hdisplay : ∀ t, (f t).terminal = t.terminal ∧ (f t).screenStores = t.screenStores) :
    Keeps (Loading p s) (updateSystem f) := by
  refine keeps_updateSystem fun t ht => ?_
  refine ⟨⟨(hprocesses t).trans ht.processes_eq, (hcurrent t).trans ht.current_eq, ?_,
    (hdisplay t).1.trans ht.display_eq.1, (hdisplay t).2.trans ht.display_eq.2⟩,
    (hsched t).trans ht.sched_eq, ?_⟩
  · intro q hq
    rw [hprocess]
    exact ht.process_eq q hq
  · rw [hprocess]
    exact ht.fields

lemma keeps_elfLoadFrom (elfFile : Ptr) (fd : ℤ) :
    Keeps (Loading p s) (elfLoadFrom elfFile fd) := by
  refine (Loading.keeps_onKernel _).bind fun stat => ?_
  rcases stat.2 with _ | st
  · exact keeps_pure _
  refine Keeps.ite keeps_stuck ((Loading.keeps_onKernel _).bind fun mem => ?_)
  refine (Loading.keeps_onKernel _).bind fun read => Keeps.ite keeps_stuck ?_
  refine Keeps.bind ?_ fun _ => ?_
  · exact Loading.keeps_update (fun _ => rfl) (fun _ => rfl) (fun _ => rfl) (fun _ => rfl)
      fun _ => ⟨rfl, rfl⟩
  refine Keeps.ite (keeps_pure _) (keeps_getSystem.bind fun t => ?_)
  refine Keeps.bind ?_ fun _ => ?_
  · exact Loading.keeps_update (fun _ => rfl) (fun _ => rfl) (fun _ => rfl) (fun _ => rfl)
      fun _ => ⟨rfl, rfl⟩
  exact Keeps.ite (keeps_pure _) (keeps_pure _)

lemma keeps_elfLoad : Keeps (Loading p s) (elfLoad filename now) := by
  refine (Loading.keeps_onKernel _).bind fun elfFile => ?_
  refine (Loading.keeps_onKernel _).bind fun fd => Keeps.ite ?_ ?_
  · exact (Loading.keeps_onKernel _).bind fun _ => keeps_pure _
  · refine (keeps_elfLoadFrom _ _).bind fun res => ?_
    exact (Loading.keeps_onKernel _).bind fun _ => keeps_pure _

lemma keeps_processLoadBinary : Keeps (Loading p s) (processLoadBinary filename now p) := by
  refine (Loading.keeps_onKernel _).bind fun fd => Keeps.ite ?_ ?_
  · exact (Loading.keeps_onKernel _).bind fun _ => keeps_pure _
  refine Keeps.bind ?_ fun res => (Loading.keeps_onKernel _).bind fun _ => keeps_pure _
  refine (Loading.keeps_onKernel _).bind fun stat => ?_
  rcases stat.2 with _ | st
  · exact keeps_pure _
  refine (Loading.keeps_onKernel _).bind fun mem => Keeps.ite (keeps_pure _) ?_
  refine (Loading.keeps_onKernel _).bind fun read => ?_
  refine Keeps.bind ?_ fun _ => Keeps.ite ?_ ?_
  · exact Loading.keeps_update (fun _ => rfl) (fun _ => rfl) (fun _ => rfl) (fun _ => rfl)
      fun _ => ⟨rfl, rfl⟩
  · exact (Loading.keeps_onKernel _).bind fun _ => keeps_pure _
  · refine (keeps_updateSystem fun t ht => ?_).bind fun _ => keeps_pure _
    exact ht.setData (d := fun _ => mem) (n := fun _ => st.filesize) (by decide)

lemma keeps_processLoadData : Keeps (Loading p s) (processLoadData filename now p) := by
  refine Keeps.bind ?_ fun res => Keeps.ite keeps_processLoadBinary (keeps_pure _)
  refine keeps_elfLoad.bind fun loaded => Keeps.ite (keeps_pure _) ?_
  refine (keeps_updateSystem fun t ht => ?_).bind fun _ => keeps_pure _
  exact ht.setData (d := fun _ => loaded.2) (n := id) (by decide)

/-! ## The result of loading the program data -/

lemma ReadableProgram.congr {k k' : Kernel} (h : ReadableProgram k filename)
    (hdisks : k'.disks = k.disks) : ReadableProgram k' filename := by
  intro mt hmt
  rw [diskGet, hdisks] at hmt
  exact h mt hmt

/-- A program over the memory leaves the disks and the open files as they are. -/
lemma ends_onSystemMemory {α : Type} (q : KProg α) :
    Ends (onKernel (onMemory q)) s fun _ s' => ∃ m, s' = s.withMemory m := by
  intro a s' h
  obtain ⟨k, hk, rfl⟩ := onKernel_eq_some h
  obtain ⟨m, -, rfl⟩ := onMemory_eq_some hk
  exact ⟨m, rfl⟩

lemma ends_fstatCall (fd : ℤ) : Ends (onKernel (fstat fd)) s fun r s' => s' = s ∧
    (r = (-eio, none) ∨ ∃ st, r = (0, some st)) := by
  have hstat : Ends (fstat fd) s.kernel fun r k => k = s.kernel ∧
      (r = (-eio, none) ∨ ∃ st, r = (0, some st)) := by
    refine Ends.bind (P := fun a k => a = s.kernel ∧ k = s.kernel) ?_ fun a k hk => ?_
    · intro a k hget
      cases hget
      exact ⟨rfl, rfl⟩
    rcases fileGetDescriptor a fd with _ | desc
    · exact ends_pure ⟨hk.2, Or.inl rfl⟩
    · exact ends_pure ⟨hk.2, Or.inr ⟨_, rfl⟩⟩
  intro r s' h
  obtain ⟨k, hk, rfl⟩ := onKernel_eq_some h
  obtain ⟨rfl, hr⟩ := hstat r k hk
  exact ⟨rfl, hr⟩

/-- If no read of the open file returns `-EISTKN`, loading from it does not. -/
lemma ReadsSafely.elfLoadFrom {fd : ℤ} (h : ReadsSafely s.kernel fd) (elfFile : Ptr) :
    Ends (SerpaeOS.elfLoadFrom elfFile fd) s fun r _ => r.1 ≠ -eistkn := by
  refine (ends_fstatCall fd).bind fun stat t ht => ?_
  obtain ⟨rfl, rfl | ⟨st, rfl⟩⟩ := ht
  · exact ends_pure (by decide)
  refine Ends.ite (fun _ => ends_stuck) fun _ => ?_
  refine (ends_onSystemMemory _).bind fun elfMemory t₁ ht₁ => ?_
  obtain ⟨m, rfl⟩ := ht₁
  have hread : Ends (onKernel (SerpaeOS.fread fd st.filesize)) (t.withMemory m) fun r _ =>
      r.1 ≠ -eistkn := by
    intro r s' hr
    obtain ⟨k, hk, rfl⟩ := onKernel_eq_some hr
    exact ReadsSafely.fread (k := (t.withMemory m).kernel) h r k hk
  refine hread.bind fun read t hne => Ends.ite (fun _ => ends_stuck) fun _ => ?_
  refine ends_updateSystem_bind (Ends.ite (fun _ => ends_pure hne) fun _ => ?_)
  refine ends_getSystem_bind (ends_updateSystem_bind ?_)
  generalize hloaded : elfProcessLoaded _ _ = loaded
  have hcode : loaded.1 ≠ -eistkn := by
    rw [← hloaded]
    rcases elfProcessLoaded_code _ _ with hcode | hcode
    · rw [hcode]
      decide
    · rw [hcode]
      decide
  exact Ends.ite (fun _ => ends_pure hcode) fun _ => ends_pure hcode

/-- Loading a readable program does not return `-EISTKN`. -/
lemma ReadableProgram.elfLoad (h : ReadableProgram s.kernel filename) :
    Ends (SerpaeOS.elfLoad filename now) s fun r _ => r.1 ≠ -eistkn := by
  refine (ends_onSystemMemory _).bind fun elfFile t ht => ?_
  obtain ⟨m, rfl⟩ := ht
  have hopen : Ends (onKernel (SerpaeOS.fopen filename readMode now)) (s.withMemory m) fun fd t =>
      0 < fd → ReadsSafely t.kernel fd := by
    intro fd t ht hfd
    obtain ⟨k, hk, rfl⟩ := onKernel_eq_some ht
    exact ReadableProgram.fopen (k := (s.withMemory m).kernel) (h.congr rfl) hfd hk
  refine hopen.bind fun fd t ht => Ends.ite (fun _ => ?_) fun hpos => ?_
  · refine Ends.bind (P := fun _ _ => True) (fun _ _ _ => trivial) fun _ _ _ => ?_
    exact ends_pure (by decide)
  · refine ((ht (by omega)).elfLoadFrom elfFile).bind fun r t' hr => ?_
    refine Ends.bind (P := fun _ _ => True) (fun _ _ _ => trivial) fun _ _ _ => ?_
    exact ends_pure hr

lemma ends_processLoadBinary_code :
    Ends (processLoadBinary filename now p) s fun r _ => r ≠ -eistkn := by
  refine Ends.bind (P := fun _ _ => True) (fun _ _ _ => trivial) fun fd t _ => ?_
  have hclose : ∀ {t : System} {r : ℤ}, r ≠ -eistkn → Ends (do
      let _ ← onKernel (fclose fd)
      return r : SystemProg ℤ) t fun r _ => r ≠ -eistkn := by
    intro t r hr
    refine Ends.bind (P := fun _ _ => True) (fun _ _ _ => trivial) fun _ _ _ => ?_
    exact ends_pure hr
  refine Ends.ite (fun _ => hclose (by decide)) fun _ => ?_
  refine Ends.bind (P := fun r _ => r ≠ -eistkn) ?_ fun r t hr => hclose hr
  refine (ends_fstatCall fd).bind fun stat t ht => ?_
  obtain ⟨rfl, rfl | ⟨st, rfl⟩⟩ := ht
  · exact ends_pure (by decide)
  refine Ends.bind (P := fun _ _ => True) (fun _ _ _ => trivial) fun data t _ => ?_
  refine Ends.ite (fun _ => ends_pure (by decide)) fun _ => ?_
  refine Ends.bind (P := fun _ _ => True) (fun _ _ _ => trivial) fun read t _ => ?_
  refine ends_updateSystem_bind (Ends.ite (fun _ => ?_) fun _ => ?_)
  · refine Ends.bind (P := fun _ _ => True) (fun _ _ _ => trivial) fun _ _ _ => ?_
    exact ends_pure (by decide)
  · exact ends_updateSystem_bind (ends_pure (by decide : (0 : ℤ) ≠ -eistkn))

lemma ReadableProgram.processLoadData (h : ReadableProgram s.kernel filename) :
    Ends (SerpaeOS.processLoadData filename now p) s fun r _ => r ≠ -eistkn := by
  refine Ends.bind (P := fun r _ => r ≠ -eistkn) ?_ fun r t hr => ?_
  · refine h.elfLoad.bind fun loaded t hloaded => Ends.ite (fun _ => ends_pure hloaded) fun _ => ?_
    exact ends_updateSystem_bind (ends_pure hloaded)
  · exact Ends.ite (fun _ => ends_processLoadBinary_code) fun _ => ends_pure hr

/-! ## Calls of the kernel -/

lemma runs_onKernel {α : Type} {q : KernelProg α} {Q : α → Kernel → Prop}
    (h : Runs q s.kernel Q) :
    Runs (onKernel q) s fun a s' => ∃ k, Q a k ∧ s' = { s with kernel := k } := by
  obtain ⟨a, k, hq, hQ⟩ := h
  refine ⟨a, { s with kernel := k }, ?_, k, hQ, rfl⟩
  rw [onKernel, hq, Option.map_some]

/-! ## The whole call -/

/-- The processes with the flag of a host set. -/
def hostedBy (process : Ptr → Process) (hosting : Ptr) : Ptr → Process :=
  if hosting ≠ 0 then
    Function.update process hosting { process hosting with currentlyHosting := true }
  else process

/-- What a successful load does. -/
structure ProcessLoaded (p : Ptr) (slot : ℕ) (hosting : Ptr) (s s' : System) : Prop where
  processes_eq : s'.processes = Function.update s.processes slot p
  current_eq : s'.currentProcess = s.currentProcess
  process_eq : ∃ f : Process, f.id = slot ∧ f.host = hosting ∧ f.currentlyHosting = false ∧
    f.filetype ≠ .driver ∧ (s'.sched.mem f.task).process = p ∧
    s'.process = hostedBy (Function.update s.process p f) hosting
  screen_eq : hosting ≠ 0 → hosting ≠ p → (s'.process p).screen = (s.process hosting).screen
  display_eq : s'.terminal = s.terminal ∧ s'.screenStores = s.screenStores

lemma keeps_processLoadFailed (res : ℤ) : Keeps (Apart p s) (processLoadFailed p res) := by
  have hsched : ∀ task, Keeps (Apart p s) (taskFreeCall task) := by
    intro task
    refine keeps_getSystem.bind fun t => (Apart.keeps_onKernel _).bind fun _ => ?_
    refine keeps_updateSystem fun t ht => ?_
    exact ⟨ht.processes_eq, ht.current_eq, ht.process_eq, ht.display_eq⟩
  have hdata : Keeps (Apart p s) (processFreeProgramData p) := by
    intro t r t' ht h
    obtain ⟨⟨m, rfl⟩, -⟩ := runs_processFreeProgramData.ends r t' h
    exact ⟨ht.processes_eq, ht.current_eq, ht.process_eq, ht.display_eq⟩
  refine (keeps_getSystem.bind fun t => ?_).bind fun _ => hdata.bind fun _ => keeps_pure _
  exact Keeps.ite (hsched _) (keeps_pure _)

/-- A failed load changes no other process. -/
lemma ends_processLoadFailed {res : ℤ} (h : Apart p s t) :
    Ends (processLoadFailed p res) t fun r s' => r = (res, 0) ∧ Apart p s s' := by
  intro r s' hrun
  refine ⟨?_, keeps_processLoadFailed res t r s' h hrun⟩
  obtain ⟨_, t₁, -, hrun⟩ := bind_eq_some hrun
  obtain ⟨_, t₂, -, hrun⟩ := bind_eq_some hrun
  cases pure_eq_some hrun
  rfl

/-- The new task belongs to the process, and has the page directory. -/
lemma taskNew_mem (sched : Sched) (info : ProcessInfo) {task chunk : Ptr} (htask : task ≠ 0)
    (hchunk : chunk ≠ 0) : ((taskNew sched info task chunk).1.mem task).process = info.ptr ∧
      ((taskNew sched info task chunk).1.mem task).pageDirectory = chunk := by
  have hinit : ∀ t : Sched, (taskAppend t task).mem task =
      { t.mem task with
        next := ((taskAppend t task).mem task).next
        prev := ((taskAppend t task).mem task).prev } := by
    intro t
    rw [taskAppend]
    split_ifs
    · rfl
    · by_cases htail : task = t.taskTail
      · simp [Sched.setNext, Sched.setPrev, Sched.store, ← htail]
      · simp [Sched.setNext, Sched.setPrev, Sched.store, Function.update_of_ne htail]
  simp only [taskNew, if_neg htask, taskInit, if_neg hchunk, allOk, ne_eq, not_true, if_false]
  rw [hinit]
  simp [Sched.store]

/-- The new task is appended to the list. -/
lemma ends_taskNewCall : Ends (taskNewCall p) s fun task s' => ∃ m info chunk directories,
    (task ≠ 0 ∧ chunk ≠ 0 ∧ info.ptr = p) ∧ s' = { s.withMemory m with
      sched := (taskNew s.sched info task chunk).1, pageDirectory := directories } := by
  refine (ends_onSystemMemory _).bind fun task t ht => ?_
  obtain ⟨m₁, rfl⟩ := ht
  refine Ends.ite (fun _ => ends_stuck) fun htask => ?_
  have hblocks : Ends (onKernel (onMemory pagingNewBlocks)) (s.withMemory m₁) fun r s' =>
      r.1 ≠ 0 ∧ ∃ m, s' = s.withMemory m := by
    intro r s' h
    obtain ⟨m, rfl⟩ := ends_onSystemMemory _ r s' h
    refine ⟨?_, m, rfl⟩
    obtain ⟨k, hk, -⟩ := onKernel_eq_some h
    obtain ⟨m₂, hm₂, -⟩ := onMemory_eq_some hk
    have hnew : Ends pagingNewBlocks (s.withMemory m₁).kernel.memory fun r _ => r.1 ≠ 0 := by
      refine Ends.bind (P := fun _ _ => True) (fun _ _ _ => trivial) fun d _ _ => ?_
      refine Ends.ite (fun _ => ends_stuck) fun _ => ?_
      refine Ends.bind (P := fun _ _ => True) (fun _ _ _ => trivial) fun tables _ _ => ?_
      refine Ends.bind (P := fun _ _ => True) (fun _ _ _ => trivial) fun chunk _ _ => ?_
      exact Ends.ite (fun _ => ends_stuck) fun hchunk => ends_pure hchunk
    exact hnew r m₂ hm₂
  refine hblocks.bind fun r t ht => ?_
  obtain ⟨hchunk, m₂, rfl⟩ := ht
  refine ends_updateSystem_bind (ends_pure ?_)
  exact ⟨m₂, _, _, _, ⟨htask, hchunk, rfl⟩, rfl⟩

lemma Apart.update_eq (h : Apart p s t) (f : Process) :
    Function.update t.process p f = Function.update s.process p f := by
  funext q
  by_cases hq : q = p
  · rw [hq, Function.update_self, Function.update_self]
  · rw [Function.update_of_ne hq, Function.update_of_ne hq, h.process_eq q hq]

lemma ends_processSetHost {hosting : Ptr} : Ends (processSetHost p hosting) s fun _ s' =>
    ∃ m screen, (hosting ≠ 0 → hosting ≠ p → screen = (s.process hosting).screen) ∧
      s' = { s.withMemory m with
        process := hostedBy (Function.update s.process p
          { s.process p with currentlyHosting := false, host := hosting, screen := screen })
          hosting } := by
  refine ends_updateSystem_bind (Ends.ite (fun hhost => ?_) fun hhost => ?_)
  · refine ends_updateSystem_bind ?_
    intro a s' h
    cases h
    refine ⟨s.kernel.memory, (Function.update s.process p
      { s.process p with currentlyHosting := false, host := hosting } hosting).screen, ?_, ?_⟩
    · intro _ hne
      rw [Function.update_of_ne hne]
    rw [hostedBy, if_pos hhost]
    simp only [System.setProcess, Function.update_self, Function.update_idem]
    rfl
  · refine (ends_onSystemMemory _).bind fun screen t ht => ?_
    obtain ⟨m, rfl⟩ := ht
    intro a s' h
    cases h
    refine ⟨m, screen, fun hne => absurd hne hhost, ?_⟩
    rw [hostedBy, if_neg hhost]
    simp only [System.setProcess, System.withMemory, Function.update_self, Function.update_idem]

lemma ends_processMapMemory : Ends (processMapMemory p) s fun res s' => s' = s ∧
    (res = 0 ∨ res = -einvarg) := by
  refine ends_getSystem_bind ?_
  rcases (s.process p).filetype with _ | _ | _
  · exact ends_pure ⟨rfl, processMapElfLoop_code _ _ _ _ _⟩
  · exact ends_pure ⟨rfl, Or.inl rfl⟩
  · exact ends_stuck

/-- The end of a call: it has failed and changed no other process, or the process is loaded. -/
def LoadResult (p : Ptr) (slot : ℕ) (hosting : Ptr) (s : System) (r : ℤ × Ptr) (s' : System) :
    Prop :=
  (r.1 < 0 ∧ Apart p s s') ∨ (r = (0, p) ∧ ProcessLoaded p slot hosting s s')

lemma ends_processStart {slot : ℕ} {hosting : Ptr} (h : Apart p s t)
    (htype : (t.process p).filetype ≠ .driver) :
    Ends (processStart p slot hosting) t fun r s' =>
      r.1 ≠ -eistkn ∧ LoadResult p slot hosting s r s' := by
  refine (ends_onSystemMemory _).bind fun stack t₁ ht₁ => ?_
  obtain ⟨m₁, rfl⟩ := ht₁
  have h₁ : Apart p s (t.withMemory m₁) :=
    ⟨h.processes_eq, h.current_eq, h.process_eq, h.display_eq⟩
  refine Ends.ite (fun _ => ?_) fun _ => ?_
  · refine (ends_processLoadFailed h₁).mono fun r s' hr => ?_
    rw [hr.1]
    exact ⟨by decide, Or.inl ⟨by decide, hr.2⟩⟩
  refine ends_updateSystem_bind (ends_taskNewCall.bind fun task t₂ ht₂ => ?_)
  obtain ⟨m₂, info, chunk, directories, ⟨hne, hchunk, hinfo⟩, rfl⟩ := ht₂
  refine ends_updateSystem_bind (ends_processMapMemory.bind fun res t₃ ht₃ => ?_)
  obtain ⟨rfl, hres⟩ := ht₃
  have h₂ := h₁.setProcess fun q => { q with stack := stack, id := slot }
  have htask := (taskNew_mem (t.withMemory m₁).sched info hne hchunk).1.trans hinfo
  rcases hres with rfl | rfl
  · rw [if_neg (by decide)]
    refine ends_processSetHost.bind fun _ t₄ ht₄ => ?_
    obtain ⟨m₃, screen, hscreen, rfl⟩ := ht₄
    refine ends_updateSystem_bind (ends_pure ⟨(by decide : (0 : ℤ) ≠ -eistkn), Or.inr ⟨rfl, ?_⟩⟩)
    refine ⟨?_, h.current_eq, ⟨{ t.process p with
      stack := stack, id := slot, task := task, currentlyHosting := false, host := hosting,
      screen := screen }, rfl, rfl, rfl, htype, htask, ?_⟩, fun hhost hne => ?_, h.display_eq⟩
    · rw [← h.processes_eq]
      rfl
    · rw [← h.update_eq]
      simp only [System.setProcess_process, System.withMemory_process, Function.update_self,
        Function.update_idem]
    · simp only [hostedBy, if_pos hhost, Function.update_of_ne hne.symm, Function.update_self]
      rw [hscreen hhost hne]
      simp only [System.setProcess_process, System.withMemory_process, Function.update_of_ne hne]
      rw [h.process_eq hosting hne]
  · rw [if_pos (by decide)]
    refine Ends.mono (ends_processLoadFailed (s := s) (Apart.setProcess ?_ _)) fun r s' hr => ?_
    · exact ⟨h₂.processes_eq, h₂.current_eq, h₂.process_eq, h₂.display_eq⟩
    · rw [hr.1]
      exact ⟨by decide, Or.inl ⟨by decide, hr.2⟩⟩

/-- Everything that a call of `process_load_for_slot` can do. -/
lemma ends_processLoadForSlot {slot : ℕ} {hosting : Ptr} :
    Ends (processLoadForSlot filename now slot hosting) s fun r s' =>
      (kzalloc s.kernel.memory.heap processSize).2 ≠ 0 ∧
      LoadResult (kzalloc s.kernel.memory.heap processSize).2 slot hosting s r s' ∧
      (ReadableProgram s.kernel filename → r.1 ≠ -eistkn) := by
  refine ends_getSystem_bind (Ends.ite (fun _ => ends_stuck) fun _ => ?_)
  have halloc : Ends (kzallocCall processSize) s fun p t =>
      p = (kzalloc s.kernel.memory.heap processSize).2 ∧ ∃ m, t = s.withMemory m := by
    intro p t ht
    obtain ⟨m, rfl⟩ := ends_onSystemMemory _ p t ht
    obtain ⟨k, hk, -⟩ := onKernel_eq_some ht
    obtain ⟨m₁, hm₁, -⟩ := onMemory_eq_some hk
    cases hm₁
    exact ⟨rfl, m, rfl⟩
  refine halloc.bind fun p t ht => ?_
  obtain ⟨hp, m, rfl⟩ := ht
  rw [← hp]
  refine Ends.ite (fun _ => ends_stuck) fun hne => ends_updateSystem_bind ?_
  have hmem : Apart p s (s.withMemory m) := ⟨rfl, rfl, fun _ _ => rfl, rfl, rfl⟩
  have hapart : Apart p s ((s.withMemory m).setProcess p fun _ => .zero) := hmem.setProcess _
  have hself : ((s.withMemory m).setProcess p fun _ => .zero).process p = .zero :=
    Function.update_self _ _ _
  have hdata : Ends (processLoadData filename now p)
      ((s.withMemory m).setProcess p fun _ => .zero) fun r t =>
        (Apart p s t ∧ (t.process p).filetype ≠ .driver) ∧
          (ReadableProgram s.kernel filename → r ≠ -eistkn) := by
    intro r t ht
    have hload := keeps_processLoadData _ r t (Loading.refl (by rw [hself]; decide)) ht
    obtain ⟨ft, d, n, hft, heq⟩ := hload.fields
    refine ⟨⟨⟨hload.processes_eq, hload.current_eq, fun q hq => ?_, hload.display_eq⟩, ?_⟩,
      fun hread => ?_⟩
    · exact (hload.process_eq q hq).trans (hapart.process_eq q hq)
    · rw [heq]
      exact hft
    · exact ReadableProgram.processLoadData (s := (s.withMemory m).setProcess p fun _ => .zero)
        (hread.congr rfl) r t ht
  refine hdata.bind fun r t ht => Ends.ite (fun hneg => ?_) fun _ => ?_
  · refine (ends_processLoadFailed ht.1.1).mono fun r' s' hr' => ?_
    rw [hr'.1]
    exact ⟨hne, Or.inl ⟨hneg, hr'.2⟩, ht.2⟩
  · refine (ends_processStart ht.1.1 ht.1.2).mono fun r' s' hr' => ?_
    exact ⟨hne, hr'.2, fun _ => hr'.1⟩

/-- All slots of `process_load` are taken. -/
def System.Full (s : System) : Prop := ∀ i < maxProcesses, s.processes i ≠ 0

/-- Everything that a call of `process_load` can do. -/
lemma ends_processLoad {hosting : Ptr} : Ends (processLoad filename now hosting) s fun r s' =>
    (s.Full ∧ r = (-eistkn, 0) ∧ s' = s) ∨
    ∃ slot < maxProcesses, s.processes slot = 0 ∧
      (kzalloc s.kernel.memory.heap processSize).2 ≠ 0 ∧
      LoadResult (kzalloc s.kernel.memory.heap processSize).2 slot hosting s r s' ∧
      (ReadableProgram s.kernel filename → r.1 ≠ -eistkn) := by
  refine ends_getSystem_bind ?_
  rcases hfind : processGetFreeSlot s with _ | slot
  · refine ends_pure (Or.inl ⟨fun i hi hzero => ?_, rfl, rfl⟩)
    exact List.find?_eq_none.mp hfind i (List.mem_range.mpr hi) (decide_eq_true hzero)
  · obtain ⟨hzero, hslot, -⟩ := List.find?_range_eq_some.mp hfind
    refine ends_processLoadForSlot.mono fun r s' hr => Or.inr ?_
    exact ⟨slot, List.mem_range.mp hslot, of_decide_eq_true hzero, hr⟩

end SerpaeOS
