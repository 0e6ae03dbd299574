import SerpaeOS.Task.ListInvariant
import SerpaeOS.Task.Switch

/-!
# Terminating a process

`process_terminate` gives back the blocks of a process, takes its tasks off the list, wakes its
host and removes it from the table, and shows another process if it was shown.
`ends_processTerminate` says everything a call can do to the system.  The files of the process
stay open: the loop over its table of files passes over the entries that are used.
-/

namespace SerpaeOS

open Prog TaskList

variable {α : Type} {s s' : System} {p : Ptr} {res : ℤ}

/-- The system with other memory. -/
def System.withMemory (s : System) (m : KMemory) : System :=
  { s with kernel := { s.kernel with memory := m } }

@[simp] lemma System.withMemory_process (m : KMemory) : (s.withMemory m).process = s.process := rfl
@[simp] lemma System.withMemory_processes (m : KMemory) :
    (s.withMemory m).processes = s.processes := rfl

lemma runs_getSystem_bind {f : System → SystemProg α} {Q : α → System → Prop}
    (h : Runs (f s) s Q) : Runs (getSystem >>= f) s Q := h

lemma runs_updateSystem_bind {g : System → System} {f : Unit → SystemProg α}
    {Q : α → System → Prop} (h : Runs (f ()) (g s) Q) : Runs (updateSystem g >>= f) s Q := h

lemma ends_getSystem_bind {f : System → SystemProg α} {Q : α → System → Prop}
    (h : Ends (f s) s Q) : Ends (getSystem >>= f) s Q := h

lemma ends_updateSystem_bind {g : System → System} {f : Unit → SystemProg α}
    {Q : α → System → Prop} (h : Ends (f ()) (g s) Q) : Ends (updateSystem g >>= f) s Q := h

lemma runs_processSwitch_bind {f : Unit → SystemProg α} {Q : α → System → Prop} {p : Ptr}
    (h : Runs (f ()) (s.switchTo p) Q) : Runs (processSwitch p >>= f) s Q := h

/-- A switch to a process with a function key, whose main task is resumed. -/
lemma runs_processFlip {id : ℤ} (hid : ¬ (id < 0 ∨ id > maxProcesses ∨ s.processes id.toNat = 0)) :
    Runs (processFlip id) s fun r s' => ∃ t, t = s.switchTo (s.processes id.toNat) ∧
      r = some (t.process (s.processes id.toNat)).task ∧
      s' = { t with sched := { t.sched with
        currentTask := (t.process (s.processes id.toNat)).task } } := by
  refine runs_getSystem_bind ?_
  rw [if_neg hid]
  refine runs_processSwitch_bind ?_
  have hcurrent : (s.switchTo (s.processes id.toNat)).currentProcess = s.processes id.toNat := rfl
  generalize s.switchTo (s.processes id.toNat) = t at hcurrent
  have htask : (t.process t.currentProcess).task = (t.process (s.processes id.toNat)).task := by
    rw [hcurrent]
  refine runs_getSystem_bind (runs_updateSystem_bind (runs_getSystem_bind (runs_pure ?_)))
  rw [htask]
  exact ⟨t, rfl, rfl, rfl⟩

/-- Everything that a call of `process_flip` can do. -/
lemma ends_processFlip {id : ℤ} : Ends (processFlip id) s fun r s' => (r = none ∧ s' = s) ∨
    (s.processes id.toNat ≠ 0 ∧ ¬ (id < 0 ∨ id > maxProcesses ∨ s.processes id.toNat = 0) ∧
      ∃ t, t = s.switchTo (s.processes id.toNat) ∧
        r = some (t.process (s.processes id.toNat)).task ∧
        s' = { t with sched := { t.sched with
          currentTask := (t.process (s.processes id.toNat)).task } }) := by
  by_cases hid : id < 0 ∨ id > maxProcesses ∨ s.processes id.toNat = 0
  · refine ends_getSystem_bind ?_
    rw [if_pos hid]
    exact ends_pure (Or.inl ⟨rfl, rfl⟩)
  · exact (runs_processFlip hid).ends.mono fun r s' hr =>
      Or.inr ⟨fun hzero => hid (Or.inr (Or.inr hzero)), hid, hr⟩

/-! ## Giving back blocks -/

/-- A program over the memory that is never stuck changes nothing else. -/
lemma runs_onSystemMemory {q : KProg α} (h : ∀ m, ∃ a m', q m = some (a, m')) :
    Runs (onKernel (onMemory q)) s fun _ s' => ∃ m, s' = s.withMemory m := by
  obtain ⟨a, m, hq⟩ := h s.kernel.memory
  refine ⟨a, s.withMemory m, ?_, m, rfl⟩
  rw [onKernel, onMemory, hq]
  rfl

lemma release_total (q : Ptr) (m : KMemory) : ∃ a m', release q m = some (a, m') :=
  ⟨_, _, rfl⟩

lemma bind_total {β : Type} {q : KProg α} {f : α → KProg β}
    (hq : ∀ m, ∃ a m', q m = some (a, m')) (hf : ∀ a m, ∃ b m', f a m = some (b, m'))
    (m : KMemory) : ∃ b m', (q >>= f) m = some (b, m') := by
  obtain ⟨a, m₁, hm₁⟩ := hq m
  obtain ⟨b, m₂, hm₂⟩ := hf a m₁
  refine ⟨b, m₂, ?_⟩
  change (q m).bind (fun r => f r.1 r.2) = _
  rw [hm₁]
  exact hm₂

lemma releaseAll_total (l : List Ptr) : ∀ m, ∃ a m', releaseAll l m = some (a, m') := by
  induction l with
  | nil => exact fun m => ⟨(), m, rfl⟩
  | cons q l ih => exact bind_total (release_total q) fun _ => ih

lemma pagingFree4gb_total (chunk : Ptr) (d : PageDirectory) :
    ∀ m, ∃ a m', pagingFree4gb chunk d m = some (a, m') :=
  bind_total (releaseAll_total _) fun _ => bind_total (release_total _) fun _ => release_total _

lemma releaseTask_total (t : System) (task : Ptr) :
    ∀ m, ∃ a m', releaseTask t task m = some (a, m') := by
  rw [releaseTask]
  by_cases hmain : (t.sched.mem task).mainTask
  · simp only [hmain, if_true]
    exact bind_total (pagingFree4gb_total _ _) fun _ => release_total _
  · simp only [hmain, Bool.false_eq_true, if_false]
    exact release_total _

lemma releaseTasks_total (t : System) (tasks : List Ptr) :
    ∀ m, ∃ a m', releaseTasks t tasks m = some (a, m') := by
  induction tasks with
  | nil => exact fun m => ⟨(), m, rfl⟩
  | cons task tasks ih => exact bind_total (releaseTask_total t task) fun _ => ih

lemma runs_kfreeCall (q : Ptr) : Runs (kfreeCall q) s fun _ s' => ∃ m, s' = s.withMemory m :=
  runs_onSystemMemory (release_total q)

lemma runs_processTerminateAllocs :
    Runs (processTerminateAllocs p) s fun _ s' => ∃ m, s' = s.withMemory m := by
  refine runs_getSystem_bind ?_
  exact runs_onSystemMemory (releaseAll_total _)

lemma runs_elfClose (file : Ptr) :
    Runs (elfClose file) s fun _ s' => ∃ m, s' = s.withMemory m := by
  rw [elfClose]
  by_cases hfile : file = 0
  · rw [if_pos hfile]
    exact runs_pure ⟨s.kernel.memory, rfl⟩
  · rw [if_neg hfile]
    refine runs_getSystem_bind ?_
    refine (runs_kfreeCall _).bind fun _ t ht => ?_
    obtain ⟨m, rfl⟩ := ht
    refine (runs_kfreeCall _).mono fun _ t ht => ?_
    obtain ⟨m', rfl⟩ := ht
    exact ⟨m', rfl⟩

/-- Only for a driver there is no program data to free. -/
lemma runs_processFreeProgramData :
    Runs (processFreeProgramData p) s fun r s' => (∃ m, s' = s.withMemory m) ∧
      ((s.process p).filetype = .driver ∧ r = -einvarg ∨
        (s.process p).filetype ≠ .driver ∧ r = 0) := by
  refine runs_getSystem_bind ?_
  rcases htype : (s.process p).filetype with _ | _ | _
  · refine (runs_elfClose _).bind fun _ t ht => ?_
    exact runs_pure ⟨ht, Or.inr ⟨by decide, rfl⟩⟩
  · refine (runs_kfreeCall _).bind fun _ t ht => ?_
    exact runs_pure ⟨ht, Or.inr ⟨by decide, rfl⟩⟩
  · exact runs_pure ⟨⟨s.kernel.memory, rfl⟩, Or.inl ⟨rfl, rfl⟩⟩

/-! ## The files -/

lemma fclose_zero (k : Kernel) : fclose 0 k = some (-eio, k) :=
  fclose_none (if_pos (Or.inl le_rfl))

/-- The loop over the files only closes entries that are not used. -/
lemma processTerminateFilesLoop_eq (l : List ℕ) :
    processTerminateFilesLoop p l s = some ((), s) := by
  have hrun : Runs (processTerminateFilesLoop p l) s fun _ s' => s' = s := by
    induction l with
    | nil => exact runs_pure rfl
    | cons i l ih =>
      refine runs_getSystem_bind ?_
      by_cases hi : (s.process p).iob i = 0
      · have hiob : Function.update (s.process p).iob i 0 = (s.process p).iob := by
          rw [← hi, Function.update_eq_self]
        have hclose : processFclose (s.process p).iob i s.kernel =
            some ((0, (s.process p).iob), s.kernel) := by
          have hzero : fclose ((s.process p).iob i) s.kernel = some (-eio, s.kernel) := by
            rw [hi]
            exact fclose_zero s.kernel
          rw [processFclose_eq hzero, hiob]
        have hkernel : Runs (onKernel (processFclose (s.process p).iob i)) s fun c t =>
            c.2 = (s.process p).iob ∧ t = s := by
          refine ⟨(0, (s.process p).iob), s, ?_, rfl, rfl⟩
          rw [onKernel, hclose]
          rfl
        rw [if_pos hi]
        refine hkernel.bind fun c t ht => ?_
        obtain ⟨hc, rfl⟩ := ht
        refine runs_updateSystem_bind ?_
        rw [hc, System.setProcess, Function.update_eq_self]
        exact ih
      · rw [if_neg hi]
        exact ih
  obtain ⟨u, t, ht, rfl⟩ := hrun
  exact ht

lemma runs_processTerminateFiles : Runs (processTerminateFiles p) s fun _ s' => s' = s :=
  ⟨(), s, processTerminateFilesLoop_eq _, rfl⟩

/-! ## Removal from the table -/

lemma runs_processSwitchToAny (h : ∃ i < maxProcesses, s.processes i ≠ 0) :
    Runs processSwitchToAny s fun _ s' => ∃ i < maxProcesses, s.processes i ≠ 0 ∧
      (∀ j < i, s.processes j = 0) ∧ s' = s.switchTo (s.processes i) := by
  refine runs_getSystem_bind ?_
  rcases hfind : (List.range maxProcesses).find? fun i => s.processes i ≠ 0 with _ | i
  · obtain ⟨i, hi, hne⟩ := h
    exact absurd (decide_eq_true hne) (List.find?_eq_none.mp hfind i (List.mem_range.mpr hi))
  · obtain ⟨hne, hi, hfirst⟩ := List.find?_range_eq_some.mp hfind
    refine ⟨(), _, rfl, i, List.mem_range.mp hi, of_decide_eq_true hne, fun j hj => ?_, rfl⟩
    simpa using hfirst j hj

lemma ends_processSwitchToAny :
    Ends processSwitchToAny s fun _ s' => ∃ i < maxProcesses, s.processes i ≠ 0 ∧
      (∀ j < i, s.processes j = 0) ∧ s' = s.switchTo (s.processes i) := by
  by_cases h : ∃ i < maxProcesses, s.processes i ≠ 0
  · exact (runs_processSwitchToAny h).ends
  · have hfind : (List.range maxProcesses).find? (fun i => s.processes i ≠ 0) = none := by
      rw [List.find?_eq_none]
      intro i hi hne
      exact h ⟨i, List.mem_range.mp hi, of_decide_eq_true hne⟩
    intro a s' hany
    rw [processSwitchToAny, getSystem_bind, hfind] at hany
    cases hany

/-- The current process after a process has been taken out of the table. -/
def Succeeds (p : Ptr) (s s' : System) : Prop :=
  (s.currentProcess ≠ p ∧ s'.currentProcess = s.currentProcess) ∨
    (s.currentProcess = p ∧ ∃ i < maxProcesses, s'.processes i ≠ 0 ∧
      (∀ j < i, s'.processes j = 0) ∧ s'.currentProcess = s'.processes i)

/-- What `process_unlink` does, apart from the screens. -/
structure Unlinked (p : Ptr) (s s' : System) : Prop where
  eq : ∃ m c, s' = { s.withMemory m with
    processes := Function.update s.processes (s.process p).id 0, currentProcess := c }
  succeeds : Succeeds p s s'

/-- If the process was shown, its screen is saved, and that of the current process is shown. -/
def Reshown (p : Ptr) (s t s' : System) : Prop :=
  (s.currentProcess ≠ p ∧ s' = t) ∨
    (s.currentProcess = p ∧
      s' = System.switchTo { t with currentProcess := p } t.currentProcess)

/-- Another process becomes the current one. -/
lemma unlinked_switch (m : KMemory) (hcur : s.currentProcess = p) {i : ℕ} (hi : i < maxProcesses)
    (hne : Function.update s.processes (s.process p).id 0 i ≠ 0)
    (hfirst : ∀ j < i, Function.update s.processes (s.process p).id 0 j = 0) :
    ∃ t, Unlinked p s t ∧ Reshown p s t (System.switchTo { s.withMemory m with
      processes := Function.update s.processes (s.process p).id 0 }
        (Function.update s.processes (s.process p).id 0 i)) := by
  refine ⟨{ s.withMemory m with
    processes := Function.update s.processes (s.process p).id 0
    currentProcess := Function.update s.processes (s.process p).id 0 i },
    ⟨⟨m, _, rfl⟩, Or.inr ⟨hcur, i, hi, hne, hfirst, rfl⟩⟩, Or.inr ⟨hcur, ?_⟩⟩
  rw [← hcur]
  rfl

lemma runs_processUnlink
    (h : ∃ i < maxProcesses, Function.update s.processes (s.process p).id 0 i ≠ 0) :
    Runs (processUnlink p) s fun _ s' => ∃ t, Unlinked p s t ∧ Reshown p s t s' := by
  refine runs_updateSystem_bind ((runs_kfreeCall p).bind fun _ t ht => runs_getSystem_bind ?_)
  obtain ⟨m, rfl⟩ := ht
  refine Runs.ite (fun hcur => ?_) fun hcur => ?_
  · refine (runs_processSwitchToAny h).mono fun _ s' hs' => ?_
    obtain ⟨i, hi, hne, hfirst, rfl⟩ := hs'
    exact @unlinked_switch s p m hcur i hi hne hfirst
  · exact runs_pure ⟨_, ⟨⟨m, s.currentProcess, rfl⟩, Or.inl ⟨hcur, rfl⟩⟩, Or.inl ⟨hcur, rfl⟩⟩

lemma ends_processUnlink :
    Ends (processUnlink p) s fun _ s' => ∃ t, Unlinked p s t ∧ Reshown p s t s' := by
  refine ends_updateSystem_bind ((runs_kfreeCall p).ends.bind fun _ t ht => ends_getSystem_bind ?_)
  obtain ⟨m, rfl⟩ := ht
  refine Ends.ite (fun hcur => ?_) fun hcur => ?_
  · refine ends_processSwitchToAny.mono fun _ s' hs' => ?_
    obtain ⟨i, hi, hne, hfirst, rfl⟩ := hs'
    exact @unlinked_switch s p m hcur i hi hne hfirst
  · exact ends_pure ⟨_, ⟨⟨m, s.currentProcess, rfl⟩, Or.inl ⟨hcur, rfl⟩⟩, Or.inl ⟨hcur, rfl⟩⟩

/-! ## The whole call -/

/-- The processes after the host of a process has been woken. -/
def System.wakeHost (s : System) (p : Ptr) : Ptr → Process :=
  if (s.process p).host ≠ 0 then
    Function.update s.process (s.process p).host
      { s.process (s.process p).host with currentlyHosting := false }
  else s.process

lemma System.wakeHost_id (q : Ptr) : (s.wakeHost p q).id = (s.process q).id := by
  rw [System.wakeHost]
  split_ifs
  · by_cases hq : q = (s.process p).host
    · rw [hq, Function.update_self]
    · rw [Function.update_of_ne hq]
  · rfl

/-- The screens stay those of the processes. -/
lemma System.wakeHost_screen (q : Ptr) : (s.wakeHost p q).screen = (s.process q).screen := by
  rw [System.wakeHost]
  split_ifs
  · by_cases hq : q = (s.process p).host
    · rw [hq, Function.update_self]
    · rw [Function.update_of_ne hq]
  · rfl

/-- What a termination does, apart from the screens. -/
structure ProcessTerminated (p : Ptr) (s s' : System) : Prop where
  kernel_eq : ∃ m, s'.kernel = { s.kernel with memory := m }
  sched_eq : taskFreeAllForProcess s.sched p = some s'.sched
  process_eq : s'.process = s.wakeHost p
  processes_eq : s'.processes = Function.update s.processes (s.process p).id 0
  succeeds : Succeeds p s s'

lemma runs_processWakeHost :
    Runs (processWakeHost p) s fun _ s' => s' = { s with process := s.wakeHost p } := by
  refine runs_getSystem_bind (Runs.ite (fun hhost => ?_) fun hhost => ?_)
  · refine ⟨(), _, rfl, ?_⟩
    rw [System.wakeHost, if_pos hhost]
    rfl
  · refine runs_pure ?_
    rw [System.wakeHost, if_neg hhost]

lemma runs_taskFreeAllCall {sched : Sched} (h : taskFreeAllForProcess s.sched p = some sched) :
    Runs (taskFreeAllCall p) s fun _ s' => ∃ m, s' = { s.withMemory m with sched := sched } := by
  refine runs_getSystem_bind ?_
  rw [h]
  refine (runs_onSystemMemory (releaseTasks_total _ _)).bind fun _ t ht => ?_
  obtain ⟨m, rfl⟩ := ht
  exact ⟨(), _, rfl, m, rfl⟩

lemma ends_taskFreeAllCall : Ends (taskFreeAllCall p) s fun _ s' => ∃ m sched,
    taskFreeAllForProcess s.sched p = some sched ∧ s' = { s.withMemory m with sched := sched } := by
  rcases h : taskFreeAllForProcess s.sched p with _ | sched
  · refine ends_getSystem_bind ?_
    rw [h]
    exact ends_stuck
  · refine (runs_taskFreeAllCall h).ends.mono fun _ s' hs' => ?_
    obtain ⟨m, rfl⟩ := hs'
    exact ⟨m, sched, rfl, rfl⟩

/-- The tasks are freed and the host is woken before the process is taken out of the table. -/
lemma Unlinked.terminated {m : KMemory} {sched : Sched}
    (hsched : taskFreeAllForProcess s.sched p = some sched)
    (h : Unlinked p ({ s.withMemory m with
      sched := sched, process := s.wakeHost p } : System) s') : ProcessTerminated p s s' := by
  obtain ⟨⟨m₁, c, rfl⟩, hsucc⟩ := h
  refine ⟨⟨m₁, rfl⟩, hsched, rfl, ?_, hsucc⟩
  simp only [System.wakeHost_id]
  rfl

lemma ends_processTerminateRest : Ends (processTerminateRest p) s fun r s' =>
    r = 0 ∧ ∃ t, ProcessTerminated p s t ∧ Reshown p s t s' := by
  refine ends_getSystem_bind ((runs_kfreeCall _).ends.bind fun _ t ht => ?_)
  obtain ⟨m₁, rfl⟩ := ht
  refine ends_taskFreeAllCall.bind fun _ t ht => ?_
  obtain ⟨m₂, sched, hsched, rfl⟩ := ht
  refine runs_processWakeHost.ends.bind fun _ t ht => ?_
  subst ht
  refine ends_getSystem_bind ((runs_kfreeCall _).ends.bind fun _ t ht => ?_)
  obtain ⟨m₃, rfl⟩ := ht
  refine ends_processUnlink.bind fun _ s' hs' => ends_pure ⟨rfl, ?_⟩
  obtain ⟨t, ht, hshown⟩ := hs'
  exact ⟨t, Unlinked.terminated (m := m₃) hsched ht, hshown⟩

/-- Everything that a call of `process_terminate` can do. -/
lemma ends_processTerminate : Ends (processTerminate p) s fun res s' =>
    (res = -einvarg ∧ (p = 0 ∨ (s.process p).id = 0 ∨ (s.process p).filetype = .driver) ∧
      ∃ m, s' = s.withMemory m) ∨
    (res = 0 ∧ p ≠ 0 ∧ (s.process p).id ≠ 0 ∧
      ∃ t, ProcessTerminated p s t ∧ Reshown p s t s') := by
  refine ends_getSystem_bind (Ends.ite (fun hp => ?_) fun hp => ?_)
  · exact ends_pure (Or.inl ⟨rfl, Or.inl hp, s.kernel.memory, rfl⟩)
  refine Ends.ite (fun hid => ?_) fun hid => ?_
  · exact ends_pure (Or.inl ⟨rfl, Or.inr (Or.inl hid), s.kernel.memory, rfl⟩)
  refine runs_processTerminateAllocs.ends.bind fun _ t ht => ?_
  obtain ⟨m₁, rfl⟩ := ht
  refine runs_processTerminateFiles.ends.bind fun _ t ht => ?_
  subst ht
  refine runs_processFreeProgramData.ends.bind fun r t ht => ?_
  obtain ⟨⟨m₂, rfl⟩, ⟨htype, rfl⟩ | ⟨-, rfl⟩⟩ := ht
  · rw [if_pos (by decide)]
    exact ends_pure (Or.inl ⟨rfl, Or.inr (Or.inr htype), m₂, rfl⟩)
  · rw [if_neg (by decide)]
    refine ends_processTerminateRest.mono fun r s' hs' => ?_
    obtain ⟨hr, t, ⟨hkernel, hsched, hproc, htable, hsucc⟩, hshown⟩ := hs'
    exact Or.inr ⟨hr, hp, hid, t, ⟨hkernel, hsched, hproc, htable, hsucc⟩, hshown⟩

/-- A call returns if the walk along the tasks ends and another process is left. -/
lemma runs_processTerminate {sched : Sched} (hp : p ≠ 0) (hid : (s.process p).id ≠ 0)
    (htype : (s.process p).filetype ≠ .driver)
    (hsched : taskFreeAllForProcess s.sched p = some sched)
    (hleft : ∃ i < maxProcesses, Function.update s.processes (s.process p).id 0 i ≠ 0) :
    Runs (processTerminate p) s fun r _ => r = 0 := by
  refine runs_getSystem_bind ?_
  rw [if_neg hp, if_neg hid]
  refine runs_processTerminateAllocs.bind fun _ t ht => ?_
  obtain ⟨m₁, rfl⟩ := ht
  refine runs_processTerminateFiles.bind fun _ t ht => ?_
  subst ht
  refine runs_processFreeProgramData.bind fun r t ht => ?_
  obtain ⟨⟨m₂, rfl⟩, ⟨htype', -⟩ | ⟨-, rfl⟩⟩ := ht
  · exact absurd htype' htype
  rw [if_neg (by decide)]
  refine runs_getSystem_bind ((runs_kfreeCall _).bind fun _ t ht => ?_)
  obtain ⟨m₃, rfl⟩ := ht
  refine (runs_taskFreeAllCall (s := s.withMemory m₃) hsched).bind fun _ t ht => ?_
  obtain ⟨m₄, rfl⟩ := ht
  refine runs_processWakeHost.bind fun _ t ht => ?_
  subst ht
  refine runs_getSystem_bind ((runs_kfreeCall _).bind fun _ t ht => ?_)
  obtain ⟨m₅, rfl⟩ := ht
  refine (runs_processUnlink ?_).bind fun _ t _ => runs_pure rfl
  simp only [System.withMemory_process, System.withMemory_processes, System.wakeHost_id]
  exact hleft

/-! ## Files of a terminated process -/

/-- The descriptors that the process held open are closed, and the others are still open. -/
structure ClosesFiles (p : Ptr) (s s' : System) : Prop where
  closed : ∀ fp < nfile, s.kernel.IsOpen ((s.process p).iob fp) →
    s'.kernel.slot ((s.process p).iob fp) = none
  others : ∀ i < maxFileDescriptors, s.kernel.fileDescriptors i ≠ none →
    (∀ fp < nfile, (s.process p).iob fp ≠ ((i + 1 : ℕ) : ℤ)) → s'.kernel.fileDescriptors i ≠ none

/-- Whatever the screens lie over, the tables and the heap stay. -/
lemma Reshown.painted {t : System} (h : Reshown p s t s') : Painted (fun _ _ => False) t s' := by
  rcases h with ⟨-, rfl⟩ | ⟨-, rfl⟩
  · exact Painted.refl _ _
  · exact System.painted_switchTo { t with currentProcess := p } t.currentProcess

/-- Structures that lie off the screens stay. -/
lemma ProcessTerminated.painted {P T : Ptr → Prop} {t : System} (h : ProcessTerminated p s t)
    (hshown : Reshown p s t s') (hscreens : s.currentProcess = p → ScreensApart P T s) (hp : P p)
    (hcurrent : P t.currentProcess) : Painted (InUse P T) t s' := by
  rcases hshown with ⟨-, rfl⟩ | ⟨heq, rfl⟩
  · exact Painted.refl _ _
  · have hscreens' : ScreensApart P T { t with currentProcess := p } := by
      refine (hscreens heq).congr fun q _ => ?_
      rw [← s.wakeHost_screen q (p := p), ← h.process_eq]
    exact hscreens'.painted_switchTo hp hcurrent

/-- The same descriptors are open as before. -/
lemma ProcessTerminated.open_iff {t : System} (h : ProcessTerminated p s t)
    (hshown : Reshown p s t s') (i : ℕ) :
    s'.kernel.fileDescriptors i = none ↔ s.kernel.fileDescriptors i = none := by
  obtain ⟨m, hm⟩ := h.kernel_eq
  rw [hshown.painted.open_iff, hm]

/-- `process_terminate` closes the files of the process, and only these, exactly if the process
has no file open. -/
theorem process_terminate_closes_iff (h : processTerminate p s = some (0, s')) :
    ClosesFiles p s s' ↔ ∀ fp < nfile, ¬ s.kernel.IsOpen ((s.process p).iob fp) := by
  obtain ⟨t, hterm, hshown⟩ : ∃ t, ProcessTerminated p s t ∧ Reshown p s t s' := by
    rcases ends_processTerminate _ _ h with ⟨hres, -⟩ | ⟨-, -, -, hterm⟩
    · exact absurd hres (by decide)
    · exact hterm
  have htable := hterm.open_iff hshown
  constructor
  · rintro hcloses fp hfp ⟨i, hi, hfd, hopen⟩
    have hclosed := hcloses.closed fp hfp ⟨i, hi, hfd, hopen⟩
    rw [hfd, Kernel.slot_succ] at hclosed
    exact hopen ((htable i).mp hclosed)
  · intro hnone
    refine ⟨fun fp hfp hopen => absurd hopen (hnone fp hfp), fun i _ hopen _ hnone' => ?_⟩
    exact hopen ((htable i).mp hnone')

/-! ## A small system -/

/-- Where the structures of the process in a slot, of its task and of its screen are. -/
def slotProcess (i : ℕ) : Ptr := 0x1010000 + 0x10000 * i
def slotTask (i : ℕ) : Ptr := 0x1018000 + 0x10000 * i
def slotScreen (i : ℕ) : Ptr := 0x101C000 + 0x10000 * i

/-- A process in a slot without host and without files. -/
def slotFields (i : ℕ) : Process :=
  { Process.zero with id := i, task := slotTask i, screen := slotScreen i }

/-- An empty terminal, and structures that nothing is stored over. -/
def emptyTerminal : Terminal := ⟨⟨fun _ => 0x0F20, []⟩, 0, 0⟩

def noOverlay : Overlay where
  process _ _ _ := id
  elfFile _ _ _ := id
  pageDirectory _ _ _ := id
  task _ _ _ := id
  descriptor _ _ := id
  mount _ _ := id

/-- The list of the tasks of the processes `0`, `1` and `2`. -/
def smallSched : Sched where
  mem t :=
    if t = slotTask 0 then
      { process := slotProcess 0, mainTask := true, next := slotTask 1 }
    else if t = slotTask 1 then
      { process := slotProcess 1, mainTask := true, next := slotTask 2, prev := slotTask 0 }
    else if t = slotTask 2 then
      { process := slotProcess 2, mainTask := true, prev := slotTask 1 }
    else {}
  taskHead := slotTask 0
  taskTail := slotTask 2
  currentTask := slotTask 0
  chunksFreed := []
  kfreed := []

/-- A system with the processes `0`, `1` and `2`. -/
def smallSystem (k : Kernel) (fields : ℕ → Process) : System where
  kernel := k
  memory := ⟨fun _ => 0⟩
  process q :=
    if q = slotProcess 0 then fields 0
    else if q = slotProcess 1 then fields 1
    else if q = slotProcess 2 then fields 2
    else .zero
  elfFile _ := ⟨0, 0, 0, 0, 0⟩
  pageDirectory _ := ⟨0, []⟩
  sched := smallSched
  processes i := if i < 3 then slotProcess i else 0
  currentProcess := slotProcess 0
  terminal := emptyTerminal
  overlay := noOverlay
  screenStores := []

lemma smallSched_taskFreeAll (q : Ptr) :
    ∃ sched, taskFreeAllForProcess smallSched q = some sched := by
  have hseg : Links.Seg smallSched.next (slotTask 0) [slotTask 0, slotTask 1, slotTask 2] 0 :=
    ⟨rfl, rfl, rfl, rfl⟩
  have hback : Links.BackLinked smallSched.prev 0 [slotTask 0, slotTask 1, slotTask 2] :=
    ⟨rfl, rfl, rfl, trivial⟩
  obtain ⟨sched, hloop, -⟩ := @taskFreeAllLoop_spec q _ _ _ _ hseg (by decide) hback (by decide)
  exact ⟨sched, hloop⟩

/-- Process `1` of the small system can be terminated. -/
lemma runs_processTerminate_small {k : Kernel} {fields : ℕ → Process}
    (hid : (fields 1).id = 1) (htype : (fields 1).filetype ≠ .driver) :
    Runs (processTerminate (slotProcess 1)) (smallSystem k fields) fun r _ => r = 0 := by
  obtain ⟨sched, hsched⟩ := smallSched_taskFreeAll (slotProcess 1)
  have hfields : (smallSystem k fields).process (slotProcess 1) = fields 1 := by
    simp only [smallSystem]
    rfl
  refine runs_processTerminate (by decide) ?_ ?_ hsched ?_
  · rw [hfields, hid]
    decide
  · rw [hfields]
    exact htype
  · refine ⟨0, by decide, ?_⟩
    rw [hfields, hid, Function.update_of_ne (by decide)]
    exact (by decide : slotProcess 0 ≠ 0)

/-- A process without files. -/
theorem process_terminate_closes_iff_no_files : ∃ s', ClosesFiles (slotProcess 1)
    (smallSystem (filledKernel 1) slotFields) s' := by
  obtain ⟨r, s', hterm, rfl⟩ :=
    @runs_processTerminate_small (filledKernel 1) slotFields rfl (by decide)
  refine ⟨s', (process_terminate_closes_iff hterm).mpr fun fp _ => ?_⟩
  rintro ⟨i, -, hfd, -⟩
  change (0 : ℤ) = _ at hfd
  omega

/-- Process `1` has the first descriptor open. -/
def oneFile (i : ℕ) : Process :=
  { slotFields i with iob := fun fp => if i = 1 ∧ fp = 0 then 1 else 0 }

/-- The file stays open when its process is terminated. -/
theorem not_process_terminate_closes : ∃ s',
    processTerminate (slotProcess 1) (smallSystem (filledKernel 1) oneFile) = some (0, s') ∧
      ¬ ClosesFiles (slotProcess 1) (smallSystem (filledKernel 1) oneFile) s' := by
  obtain ⟨r, s', hterm, rfl⟩ :=
    @runs_processTerminate_small (filledKernel 1) oneFile rfl (by decide)
  refine ⟨s', hterm, fun hcloses => ?_⟩
  have hopen : (filledKernel 1).fileDescriptors 0 ≠ none := Option.some_ne_none _
  have hclosed := hcloses.closed 0 (by decide) ⟨0, by decide, rfl, hopen⟩
  rcases ends_processTerminate _ _ hterm with ⟨hres, -⟩ | ⟨-, -, -, t, hdone, hshown⟩
  · exact absurd hres (by decide)
  · exact hopen ((hdone.open_iff hshown 0).mp hclosed)

end SerpaeOS
