import SerpaeOS.Task.Commands
import SerpaeOS.Task.Hosting

/-!
# Sleeping processes are not resumed

The clock interrupt looks for a task whose process is awake, and a command that has loaded a
program resumes the new process.  `process_flip` resumes whatever process has the function key:
it does not look whether it sleeps.
-/

namespace SerpaeOS

open Prog StepRun TaskList

/-- The system, and the task that the last step has resumed. -/
structure WakeRun where
  system : System
  resumed : Option Ptr

inductive WakeOp
  | tick
  | flip (id : ℤ)
  | loadStart (filename : List UInt8) (now : ℕ)
  | invoke (atNull : List UInt8) (arguments : List (List UInt8)) (now : ℕ)
  | exit
  | exception
  | terminate (process : Ptr)

def wakeStep (r : WakeRun) : WakeOp → Option WakeRun
  | .tick => (taskNext r.system).map fun (task, s) => ⟨s, some task⟩
  | .flip id => (processFlip id r.system).map fun (task, s) => ⟨s, task⟩
  | .loadStart filename now =>
    (isr80hCommand6ProcessLoadStart filename now r.system).map fun (res, s) => ⟨s, res.toOption⟩
  | .invoke atNull arguments now =>
    (isr80hCommand7InvokeSystemCommand atNull arguments now r.system).map fun (res, s) =>
      ⟨s, res.toOption⟩
  | .exit => (isr80hCommand0Exit r.system).map fun (task, s) => ⟨s, some task⟩
  | .exception => (idtHandleExceptionGeneric r.system).map fun (task, s) => ⟨s, some task⟩
  | .terminate process => (processTerminate process r.system).map fun (_, s) => ⟨s, none⟩

/-- The process of the task hosts another one. -/
def System.Asleep (s : System) (task : Ptr) : Prop :=
  (s.process (s.sched.mem task).process).currentlyHosting = true

/-- The task that is resumed is not one of a sleeping process. -/
def WakeOk (r : WakeRun) : Prop := ∀ task, r.resumed = some task → ¬ r.system.Asleep task

/-- The process is awake, and its main task is one of its own. -/
structure System.Awake (s : System) (p : Ptr) : Prop where
  main_task : (s.sched.mem (s.process p).task).process = p
  awake : (s.process p).currentlyHosting = false

/-- `process_flip` is called for a process that is awake, or does nothing; the structures of the
processes that it switches between and the task that it resumes lie off their screens.  When a
command loads a program, the structure of the process that is shown and its screen are kept and
apart, and so are those of the host. -/
def WakeSound (r : WakeRun) : WakeOp → Prop
  | .flip id => id < 0 ∨ id > maxProcesses ∨ r.system.processes id.toNat = 0 ∨
    (r.system.Awake (r.system.processes id.toNat) ∧
      ScreensApart (fun q => q = r.system.currentProcess ∨ q = r.system.processes id.toNat)
        (fun t => t = (r.system.process (r.system.processes id.toNat)).task) r.system)
  | .loadStart filename _ => LoadsSafe (fun q => q = r.system.currentProcess) (fun _ => False)
    [rootLocation ++ filename] r.system
  | .invoke atNull arguments _ => LoadsSafe
    (fun q => q = r.system.currentProcess ∨ AsksHost arguments ∧ q = r.system.callingProcess)
    (fun _ => False) (candidatePaths atNull arguments) r.system
  | _ => True

/-! ## The next task -/

variable {P T : Ptr → Prop} {s s' t : System} {p host : Ptr} {program : List UInt8} {now : ℕ}
  {l : List (List UInt8)}

lemma taskNextLoop_awake {task nextTask : Ptr} (h : taskNextLoop s task = some nextTask) :
    (s.process (s.sched.mem nextTask).process).currentlyHosting = false := by
  refine Loop.run_induction (P := fun _ r =>
    (s.process (s.sched.mem r).process).currentlyHosting = false) ?_ (fun _ _ _ _ ih => ih) h
  intro task r hr
  dsimp only at hr
  split_ifs at hr with hnull hawake
  · obtain rfl : task = r := Sum.inr.inj (Option.some.inj hr)
    exact hawake
  · cases hr

lemma ends_taskNext : Ends taskNext s fun task s' => ¬ s'.Asleep task := by
  refine ends_getSystem_bind ?_
  rcases hloop : taskNextLoop s (taskGetNext s.sched) with _ | task
  · exact ends_stuck
  · refine ends_updateSystem_bind (ends_pure ?_)
    rw [System.Asleep, Bool.not_eq_true]
    exact taskNextLoop_awake (s := s) hloop

/-! ## A loaded program -/

/-- The main task of an awake process is not one of a sleeping process. -/
lemma System.Awake.not_asleep (h : s.Awake p) : ¬ s.Asleep (s.process p).task := by
  rw [System.Asleep, h.main_task, h.awake]
  exact Bool.false_ne_true

/-- The structures of the process and of its task lie off what is stored over. -/
lemma System.Awake.painted {c : Ptr} (h : t.Awake p)
    (hpaint : Painted (InUse P T) { t with currentProcess := c } s') (hp : P p)
    (htask : T (t.process p).task) : s'.Awake p := by
  have hprocess : s'.process p = t.process p := hpaint.process_eq p (Or.inl ⟨rfl, hp⟩)
  refine ⟨?_, ?_⟩
  · rw [hprocess, hpaint.task_eq _ (Or.inr ⟨rfl, htask⟩)]
    exact h.main_task
  · rw [hprocess]
    exact h.awake

/-- The process that a successful load has made is awake, unless its structure is that of the
host. -/
lemma ProcessLoaded.awake {slot : ℕ} (h : ProcessLoaded p slot host s t)
    (hfresh : host = 0 ∨ host ≠ p) : t.Awake p := by
  obtain ⟨f, -, -, hflag, -, htask, hprocess⟩ := h.process_eq
  have hself : t.process p = f := by
    rw [hprocess, hostedBy]
    split_ifs with hnull
    · rw [Function.update_of_ne (hfresh.resolve_left hnull).symm, Function.update_self]
    · rw [Function.update_self]
  refine ⟨?_, ?_⟩
  · rw [hself]
    exact htask
  · rw [hself]
    exact hflag

/-- A load that switches to the process fails and leaves what the next one rests on, or the
process is awake. -/
lemma LoadsSafe.awake {filename : List UInt8} (h : LoadsSafe P T l s) (hmem : filename ∈ l)
    (hhost : host = 0 ∨ P host) (hcurrent : P s.currentProcess) :
    Ends (SerpaeOS.processLoadSwitch filename now host) s fun r s' =>
      (r.1 < 0 ∧ LoadsSafe P T l s' ∧ P s'.currentProcess) ∨ (r.1 = 0 ∧ s'.Awake r.2) := by
  intro r s' hrun
  obtain ⟨t, hload, ⟨hneg, rfl⟩ | ⟨hzero, hpaint, -⟩⟩ :=
    h.ends_processLoadSwitch hmem hhost hcurrent r s' hrun
  · have hundone := h.failed hmem r s' hload hneg
    exact Or.inl ⟨hneg, hundone.safe, hundone.current_eq ▸ hcurrent⟩
  · obtain ⟨-, -, hnew, slot, -, -, hloaded⟩ :=
      (ends_processLoad_loaded r t hload).resolve_left (by omega)
    refine Or.inr ⟨hzero, (hloaded.awake (hhost.imp_right fun hP => ?_)).painted hpaint
      (Or.inl rfl) (Or.inl rfl)⟩
    rw [hnew]
    exact (h.process_kept host hP).kept.ne_kzalloc _

/-- A command that has loaded a program resumes its main task. -/
lemma ends_resumeProcess (h : s.Awake p) : Ends (resumeProcess p) s fun res s' =>
    ∀ task, res.toOption = some task → ¬ s'.Asleep task := by
  refine ends_getSystem_bind (ends_updateSystem_bind (ends_pure fun task htask => ?_))
  cases htask
  exact h.not_asleep

lemma keeps_processMallocCall (size : ℕ) :
    Keeps (fun s => System.Awake s p) (processMallocCall p size) := by
  refine keeps_processMallocCall_of size fun t m allocations ht => ⟨?_, ?_⟩
  · rw [System.setProcess_process, Function.update_self]
    exact ht.main_task
  · rw [System.setProcess_process, Function.update_self]
    exact ht.awake

lemma keeps_processInjectArguments (root : List (List UInt8)) :
    Keeps (fun s => System.Awake s p) (processInjectArguments p root) := by
  have hloop : ∀ root, Keeps (fun s => System.Awake s p) (processInjectArgumentsLoop p root) := by
    intro root
    induction root with
    | nil => exact keeps_pure _
    | cons argument root ih =>
      exact (keeps_processMallocCall _).bind fun _ => Keeps.ite (keeps_pure _) ih
  refine Keeps.ite (keeps_pure _) ((keeps_processMallocCall _).bind fun _ => ?_)
  exact Keeps.ite (keeps_pure _) (hloop root)

lemma ends_startCommand (h : s.Awake p) (root : List (List UInt8)) :
    Ends (startCommand p root) s fun res s' =>
      ∀ task, res.toOption = some task → ¬ s'.Asleep task := by
  refine Ends.bind (P := fun _ s' => s'.Awake p)
    (fun r s' hr => keeps_processInjectArguments root s r s' h hr) fun res t ht => ?_
  refine Ends.ite (fun _ => ends_pure fun task htask => ?_) fun _ => ends_resumeProcess ht
  cases htask

/-- The process that one of the attempts has loaded is awake. -/
lemma ends_runLocations (locations : List (List UInt8)) : ∀ {s : System}, LoadsSafe P T l s →
    (∀ location ∈ locations, commandPath program location ∈ l) → (host = 0 ∨ P host) →
    P s.currentProcess → Ends (runLocations program now host locations) s fun r s' =>
      ∀ p, r = some p → s'.Awake p := by
  induction locations with
  | nil => exact fun _ _ _ _ => ends_pure fun p hp => by cases hp
  | cons location rest ih =>
    intro s h hmem hhost hcurrent
    obtain ⟨hhead, hrest⟩ := List.forall_mem_cons.mp hmem
    have hrun : Ends (run program location now host) s _ := h.awake hhead hhost hcurrent
    refine hrun.bind fun r t ht => Ends.ite (fun hne => ?_) fun hzero => ?_
    · obtain ⟨-, hsafe, hcurrent'⟩ := ht.resolve_right fun hr => hne hr.1
      exact ih hsafe hrest hhost hcurrent'
    · refine ends_pure fun p hp => ?_
      cases hp
      exact (ht.resolve_left fun hr => by omega).2

lemma System.setProcess_screen {f : Process → Process} (hf : ∀ g, (f g).screen = g.screen) :
    ((s.setProcess p f).process q).screen = (s.process q).screen := by
  rw [System.setProcess_process]
  by_cases hq : q = p
  · rw [hq, Function.update_self, hf]
  · rw [Function.update_of_ne hq]

/-- Of the structure of a process the loads only rest on the screen. -/
lemma LoadsSafe.setProcess (h : LoadsSafe P T l s) {f : Process → Process}
    (hf : ∀ g, (f g).screen = g.screen) : LoadsSafe P T l (s.setProcess p f) := by
  have hscreen : ∀ q, P q → ((s.setProcess p f).process q).screen = (s.process q).screen :=
    fun q _ => System.setProcess_screen hf
  exact ⟨h.toSystemKept.congr (fun _ hG => hG) hscreen, h.toScreensApart.congr hscreen,
    fun f hf => ⟨(h.safe f hf).plain, (h.safe f hf).roots, (h.safe f hf).nested⟩⟩

lemma LoadsSafe.invokeProgram {hosted : Bool} (root : List (List UInt8))
    (h : LoadsSafe P T (commandLocations.map (commandPath program)) s)
    (hhost : hosted = true → P s.callingProcess) (hcurrent : P s.currentProcess) :
    Ends (SerpaeOS.invokeProgram hosted program root now) s fun res s' =>
      ∀ task, res.toOption = some task → ¬ s'.Asleep task := by
  have hsleep : Ends (sleepHost hosted) s fun host s' => (host = 0 ∨ P host) ∧
      LoadsSafe P T (commandLocations.map (commandPath program)) s' ∧ P s'.currentProcess := by
    cases hosted with
    | false => exact ends_pure ⟨Or.inl rfl, h, hcurrent⟩
    | true => exact ends_getSystem_bind (ends_updateSystem_bind
        (ends_pure ⟨Or.inr (hhost rfl), h.setProcess fun _ => rfl, hcurrent⟩))
  refine hsleep.bind fun host t ht => ?_
  refine (ends_runLocations commandLocations ht.2.1 (fun _ => List.mem_map_of_mem) ht.1
    ht.2.2).bind fun loaded t ht => ?_
  rcases loaded with _ | process
  · exact ends_pure fun task htask => by cases htask
  · exact ends_startCommand (ht process rfl) root

/-! ## One step -/

lemma wakeOk_step {r r' : WakeRun} {op : WakeOp} (hc : WakeSound r op)
    (hstep : wakeStep r op = some r') : WakeOk r' := by
  cases op with
  | tick =>
    obtain ⟨⟨task, s⟩, hrun, rfl⟩ := Option.map_eq_some_iff.mp hstep
    intro t ht
    cases ht
    exact ends_taskNext _ _ hrun
  | flip id =>
    obtain ⟨⟨task, s⟩, hrun, rfl⟩ := Option.map_eq_some_iff.mp hstep
    have hflip : Ends (processFlip id) r.system fun task s =>
        ∀ t, task = some t → ¬ s.Asleep t := by
      refine ends_processFlip.mono fun r' s' hr t ht => ?_
      rcases hr with ⟨rfl, -⟩ | ⟨-, hid, u, hu, rfl, rfl⟩
      · cases ht
      obtain ⟨hawake, hscreens⟩ := ((hc.resolve_left fun h => hid (Or.inl h)).resolve_left
        fun h => hid (Or.inr (Or.inl h))).resolve_left fun h => hid (Or.inr (Or.inr h))
      have hshown := hawake.painted (hscreens.painted_switchTo (Or.inl rfl) (Or.inr rfl))
        (Or.inr rfl) rfl
      rw [← hu] at hshown
      cases ht
      exact hshown.not_asleep
    exact hflip task s hrun
  | loadStart filename now =>
    obtain ⟨⟨res, s⟩, hrun, rfl⟩ := Option.map_eq_some_iff.mp hstep
    have hload : Ends (isr80hCommand6ProcessLoadStart filename now) r.system fun res s =>
        ∀ task, res.toOption = some task → ¬ s.Asleep task := by
      have hsafe : LoadsSafe _ _ [rootLocation ++ filename] r.system := hc
      refine (hsafe.awake List.mem_cons_self (Or.inl rfl) rfl).bind fun loaded t ht => ?_
      refine Ends.ite (fun _ => ends_pure fun task htask => by cases htask) fun hneg => ?_
      exact ends_resumeProcess (ht.resolve_left fun h => hneg h.1).2
    exact hload res s hrun
  | invoke atNull arguments now =>
    obtain ⟨⟨res, s⟩, hrun, rfl⟩ := Option.map_eq_some_iff.mp hstep
    have hinvoke : Ends (isr80hCommand7InvokeSystemCommand atNull arguments now) r.system
        fun res s => ∀ task, res.toOption = some task → ¬ s.Asleep task := by
      rcases arguments with _ | ⟨argument, next⟩
      · exact ends_pure fun task htask => by cases htask
      refine Ends.ite (fun _ => ends_pure fun task htask => by cases htask) fun _ => ?_
      have hsafe : LoadsSafe _ _ (candidatePaths atNull (argument :: next)) r.system := hc
      by_cases hhost : AsksHost (argument :: next)
      · rw [candidatePaths, if_pos hhost] at hsafe
        rw [if_pos (by exact hhost)]
        exact hsafe.invokeProgram _ (fun _ => Or.inr ⟨hhost, rfl⟩) (Or.inl rfl)
      · rw [candidatePaths, if_neg hhost] at hsafe
        rw [if_neg (by exact hhost)]
        exact hsafe.invokeProgram _ (fun h => absurd h Bool.false_ne_true) (Or.inl rfl)
    exact hinvoke res s hrun
  | exit =>
    obtain ⟨⟨task, s⟩, hrun, rfl⟩ := Option.map_eq_some_iff.mp hstep
    have hexit : Ends isr80hCommand0Exit r.system fun task s => ¬ s.Asleep task := by
      refine ends_getSystem_bind (Ends.ite (fun _ => ends_stuck) fun _ => ?_)
      exact Ends.bind (P := fun _ _ => True) (fun _ _ _ => trivial) fun _ _ _ => ends_taskNext
    intro t ht
    cases ht
    exact hexit _ _ hrun
  | exception =>
    obtain ⟨⟨task, s⟩, hrun, rfl⟩ := Option.map_eq_some_iff.mp hstep
    have hexception : Ends idtHandleExceptionGeneric r.system fun task s => ¬ s.Asleep task := by
      refine ends_getSystem_bind (Ends.ite (fun _ => ?_) fun _ => ?_)
      · exact Ends.bind (P := fun _ _ => True) (fun _ _ _ => trivial) fun _ _ _ => ends_taskNext
      · exact Ends.bind (P := fun _ _ => True) (fun _ _ _ => trivial) fun _ _ _ => ends_taskNext
    intro t ht
    cases ht
    exact hexception _ _ hrun
  | terminate process =>
    obtain ⟨⟨res, s⟩, hrun, rfl⟩ := Option.map_eq_some_iff.mp hstep
    intro t ht
    cases ht

/-- In every run in which `process_flip` is only called for processes that are awake, and the
structures of the processes that are switched between and of the host stay taken and off the
screens, no task of a sleeping process is resumed. -/
theorem sleeping_not_resumed {r : WakeRun} {ops : List WakeOp} (h : WakeOk r)
    (hc : Guarded wakeStep WakeSound r ops) : Throughout wakeStep WakeOk r ops :=
  throughout_of_guarded (L := WakeSound) (fun _ h => h)
    (fun _ _ _ _ hc _ hstep => wakeOk_step hc hstep) h hc hc

/-- Process `0` is resumed, then the clock ticks. -/
theorem sleeping_not_resumed_flip : Throughout wakeStep WakeOk
    ⟨smallSystem (mountedKernel 1) (hostedFields 1 2), none⟩ [.flip 0, .tick] := by
  refine sleeping_not_resumed (fun task h => by cases h)
    ⟨?_, fun _ _ => ⟨trivial, fun _ _ => trivial⟩⟩
  have hprocess : (smallSystem (mountedKernel 1) (hostedFields 1 2)).process (slotProcess 0) =
      hostedFields 1 2 0 := smallSystem_process (by decide)
  refine Or.inr (Or.inr (Or.inr ⟨⟨?_, ?_⟩, ?_⟩))
  · change (smallSched.mem ((smallSystem (mountedKernel 1) (hostedFields 1 2)).process
      (slotProcess 0)).task).process = _
    rw [hprocess]
    rfl
  · change ((smallSystem (mountedKernel 1) (hostedFields 1 2)).process
      (slotProcess 0)).currentlyHosting = _
    rw [hprocess]
    rfl
  · refine (hostedFields_screensApart 1 2).mono (fun q hq => ?_) fun t ht => ⟨0, ?_⟩
    · rw [hq.elim id id]
      exact smallSystem_live.mpr ⟨0, by decide, rfl⟩
    · rw [ht]
      exact congrArg Process.task hprocess

/-- The function key of a sleeping host resumes its main task. -/
theorem not_sleeping_not_resumed_flip :
    HostingInv (smallSystem (mountedKernel 1) (hostedFields 1 2)) ∧
    WakeOk ⟨smallSystem (mountedKernel 1) (hostedFields 1 2), none⟩ ∧
    ¬ Throughout wakeStep WakeOk ⟨smallSystem (mountedKernel 1) (hostedFields 1 2), none⟩
      [.flip 1] := by
  refine ⟨hostedFields_hostingInv (by decide) (by decide), (fun task h => by cases h), ?_⟩
  rintro ⟨-, hall⟩
  have hprocess : (smallSystem (mountedKernel 1) (hostedFields 1 2)).process (slotProcess 1) =
      hostedFields 1 2 1 := smallSystem_process (by decide)
  have hlive : ∀ i < 3, (smallSystem (mountedKernel 1) (hostedFields 1 2)).Live (slotProcess i) :=
    fun i hi => smallSystem_live.mpr ⟨i, hi, rfl⟩
  have hpaint := (hostedFields_screensApart (k := mountedKernel 1) 1 2).painted_switchTo
    (hlive 0 (by decide)) (hlive 1 (by decide))
  obtain ⟨task, s', hrun, t, ht, rfl, rfl⟩ :=
    @runs_processFlip (smallSystem (mountedKernel 1) (hostedFields 1 2)) 1 (by decide)
  have hself : t.process (slotProcess 1) = hostedFields 1 2 1 :=
    (ht ▸ hpaint.process_eq _ (Or.inl ⟨rfl, hlive 1 (by decide)⟩)).trans hprocess
  have htask : t.sched.mem (slotTask 1) = smallSched.mem (slotTask 1) :=
    ht ▸ hpaint.task_eq _ (Or.inr ⟨rfl, 1, rfl⟩)
  have hok : WakeOk ⟨_, some (t.process (slotProcess 1)).task⟩ :=
    hall _ (by rw [wakeStep, hrun, Option.map_some]; rfl)
  refine hok _ rfl ?_
  change (t.process (t.sched.mem (t.process (slotProcess 1)).task).process).currentlyHosting = true
  rw [hself]
  change (t.process (t.sched.mem (slotTask 1)).process).currentlyHosting = true
  rw [htask]
  exact congrArg Process.currentlyHosting hself

end SerpaeOS
