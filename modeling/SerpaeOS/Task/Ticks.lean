import SerpaeOS.Lib.RoundRobin
import SerpaeOS.Task.Next

/-!
# Ticks of the clock

Each tick of the clock calls `task_next`.  While the programs only compute, the ticks take turns
with the tasks that are awake, in the order of the list, for as long as the last task of the list is
one of them; otherwise the kernel panics after the last task that is awake.
-/

namespace SerpaeOS

open Links Prog TaskList RoundRobin

/-- `task_next` at so many ticks of the clock, with the tasks that are resumed. -/
def clockTicks : ℕ → SystemProg (List Ptr)
  | 0 => return []
  | n + 1 => do
    let task ← taskNext
    let tasks ← clockTicks n
    return task :: tasks

/-- The task does not belong to a process that sleeps. -/
def System.awake (s : System) (task : Ptr) : Bool :=
  !(s.process (s.sched.mem task).process).currentlyHosting

/-- The tasks of the list that are awake. -/
def System.awakeTasks (s : System) (live : List Ptr) : List Ptr := live.filter s.awake

variable {s : System} {live : List Ptr}

lemma System.awake_iff {task : Ptr} : s.awake task = true ↔ ¬ s.Asleep task := by
  rw [System.awake, System.Asleep, Bool.not_eq_true', Bool.not_eq_true]

/-- The loop of `task_next` finds the first task that is awake. -/
lemma taskNextLoop_find? {l : List Ptr} {task : Ptr} (hseg : Seg s.sched.next task l 0)
    (hne : ∀ t ∈ l, t ≠ 0) : taskNextLoop s task = l.find? s.awake := by
  induction l generalizing task with
  | nil =>
    have hnull : task = 0 := hseg
    rw [hnull, taskNextLoop_null]
    rfl
  | cons a l ih =>
    obtain ⟨rfl, hrest⟩ := hseg
    have hnull := hne task List.mem_cons_self
    by_cases hawake : s.awake task = true
    · rw [taskNextLoop_found hnull (System.awake_iff.mp hawake), List.find?_cons_of_pos hawake]
    · rw [taskNextLoop_asleep hnull (not_not.mp fun hc => hawake (System.awake_iff.mpr hc)),
        ih hrest fun t ht => hne t (List.mem_cons_of_mem _ ht), List.find?_cons_of_neg hawake]

lemma taskNext_turn (h : InOrder s.sched live) (hne : live ≠ []) :
    taskNext s = (turn s.awake live s.sched.currentTask).map fun task =>
      (task, { s with sched := { s.sched with currentTask := task } }) := by
  have hsub : ∀ t ∈ (if tasksBehind live s.sched.currentTask = [] then live
      else tasksBehind live s.sched.currentTask), t ∈ live := by
    intro t ht
    split_ifs at ht with hbehind
    · exact ht
    · exact mem_of_mem_tasksBehind ht
  rw [taskNext_eq, taskNextLoop_find? (h.taskGetNext_seg hne) fun t ht => h.ne_null t (hsub t ht),
    turn, tasksBehind]
  split_ifs
  · rfl
  · rfl

lemma mem_of_turn {p : Ptr → Bool} {a b : Ptr} (h : turn p live a = some b) : b ∈ live := by
  rw [turn] at h
  split_ifs at h with hafter
  · exact List.mem_of_find?_eq_some h
  · exact (List.dropWhile_sublist _).subset (List.mem_of_mem_tail (List.mem_of_find?_eq_some h))

/-- The ticks are the turns of the tasks that are awake. -/
lemma clockTicks_turns : ∀ (n : ℕ) {s : System}, InOrder s.sched live → live ≠ [] →
    clockTicks n s = (turns s.awake live n s.sched.currentTask).map fun tasks =>
      (tasks, { s with sched :=
        { s.sched with currentTask := tasks.getLastD s.sched.currentTask } }) := by
  intro n
  induction n with
  | zero => exact fun _ _ => rfl
  | succ n ih =>
    intro s h hne
    have hbind : clockTicks (n + 1) s = (taskNext s).bind fun r =>
        ((clockTicks n r.2).map fun r' => (r.1 :: r'.1, r'.2)) := by
      rw [clockTicks]
      change (taskNext s).bind (fun r => (clockTicks n r.2).bind fun r' =>
        some (r.1 :: r'.1, r'.2)) = _
      simp only [Option.map_eq_bind]
      rfl
    rw [hbind, taskNext_turn h hne, turns]
    cases hturn : turn s.awake live s.sched.currentTask with
    | none => rfl
    | some task =>
      have h' : InOrder { s.sched with currentTask := task } live :=
        ⟨h.ne_null, h.seg, fun _ => mem_of_turn hturn⟩
      rw [Option.map_some, Option.bind_some, Option.bind_some,
        ih (s := { s with sched := { s.sched with currentTask := task } }) h' hne]
      simp only [Option.map_map]
      refine congrFun (congrArg _ (funext fun tasks => ?_)) _
      simp only [Function.comp, List.getLastD_cons]

lemma runs_clockTicks_iff (h : InOrder s.sched live) (hne : live ≠ []) (n : ℕ) :
    Runs (clockTicks n) s (fun _ _ => True) ↔ turns s.awake live n s.sched.currentTask ≠ none := by
  rw [Runs, clockTicks_turns n h hne]
  cases turns s.awake live n s.sched.currentTask with
  | none =>
    refine iff_of_false ?_ fun hc => hc rfl
    rintro ⟨tasks, s', hrun, -⟩
    cases hrun
  | some tasks => exact iff_of_true ⟨tasks, _, rfl, trivial⟩ (Option.some_ne_none tasks)

/-- The kernel goes on for ever if and only if the last task of the list is awake. -/
theorem clockTicks_forever_iff (h : InOrder s.sched live) (hne : live ≠ []) :
    (∀ n, Runs (clockTicks n) s fun _ _ => True) ↔ ¬ s.Asleep (live.getLast hne) := by
  rw [← System.awake_iff, ← turns_forever_iff h.nodup hne (h.current_mem hne)]
  exact forall_congr' fun n => runs_clockTicks_iff h hne n

lemma guest_awake : ¬ (smallSystem (mountedKernel 1) (hostedFields 1 2)).Asleep
    (smallTasks.getLast (List.cons_ne_nil _ _)) := by
  have hlast : smallTasks.getLast (List.cons_ne_nil _ _) = slotTask 2 := rfl
  rw [hlast, small_asleep_iff (by decide)]
  decide

/-- Process `1` sleeps, and process `2` is the last one of the list. -/
theorem clockTicks_forever_guest :
    (smallSystem (mountedKernel 1) (hostedFields 1 2)).Asleep (slotTask 1) ∧ ∀ n,
      Runs (clockTicks n) (smallSystem (mountedKernel 1) (hostedFields 1 2)) fun _ _ => True :=
  ⟨(small_asleep_iff (by decide)).mpr (by decide),
    (clockTicks_forever_iff (inOrder_of_wellFormed smallTasks_wellFormed)
      (List.cons_ne_nil _ _)).mpr guest_awake⟩

/-- As many ticks in a row as there are tasks awake resume each of them once, in the order of the
list. -/
theorem clockTicks_fair (h : InOrder s.sched live) (hne : live ≠ [])
    (hlast : ¬ s.Asleep (live.getLast hne)) (n : ℕ) : Runs (clockTicks n) s fun tasks s' =>
      tasks.length = n ∧ (∀ i, i + (s.awakeTasks live).length ≤ n →
        (tasks.drop i).take (s.awakeTasks live).length =
          (s.awakeTasks live).rotate (passed s.awake live s.sched.currentTask + i)) ∧
      s' = { s with sched :=
        { s.sched with currentTask := tasks.getLastD s.sched.currentTask } } := by
  have hnodup := h.nodup
  obtain ⟨tasks, htasks, hlen, hwindow⟩ := turns_rotate hnodup hne (System.awake_iff.mpr hlast)
    (h.current_mem hne) n
  refine ⟨tasks, _, ?_, hlen, hwindow, rfl⟩
  rw [clockTicks_turns n h hne, htasks]
  rfl

/-- The tasks of the processes `0` and `2` take turns at five ticks. -/
theorem clockTicks_fair_guest :
    Runs (clockTicks 5) (smallSystem (mountedKernel 1) (hostedFields 1 2)) fun tasks _ =>
      tasks = [slotTask 2, slotTask 0, slotTask 2, slotTask 0, slotTask 2] := by
  obtain ⟨tasks, s', hrun, hlen, hwindow, -⟩ := clockTicks_fair
    (inOrder_of_wellFormed smallTasks_wellFormed) (List.cons_ne_nil _ _) guest_awake 5
  refine ⟨tasks, s', hrun, ?_⟩
  have hawake : (smallSystem (mountedKernel 1) (hostedFields 1 2)).awakeTasks
      [slotTask 0, slotTask 1, slotTask 2] = [slotTask 0, slotTask 2] := by decide
  have hpassed : passed (smallSystem (mountedKernel 1) (hostedFields 1 2)).awake
      [slotTask 0, slotTask 1, slotTask 2]
      (smallSystem (mountedKernel 1) (hostedFields 1 2)).sched.currentTask = 1 := by decide
  rw [hawake, hpassed] at hwindow
  match tasks, hlen with
  | [a, b, c, d, e], _ =>
    have hfirst : [a, b] = [slotTask 2, slotTask 0] := hwindow 0 (by decide)
    have hthird : [c, d] = [slotTask 2, slotTask 0] := hwindow 2 (by decide)
    have hlast : [d, e] = [slotTask 0, slotTask 2] := hwindow 3 (by decide)
    simp only [List.cons.injEq, and_true] at hfirst hthird hlast
    rw [hfirst.1, hfirst.2, hthird.1, hthird.2, hlast.2]

end SerpaeOS
