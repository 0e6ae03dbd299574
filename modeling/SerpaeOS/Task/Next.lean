import SerpaeOS.Task.Wake

/-!
# The choice of the next task

`task_next` starts behind the current task, or at the head of the list if there is nothing behind
it, and goes on to the end of the list.  It does not go back to the head when it has started
further on, so it panics when only tasks in front of the current one, or this task itself, are
awake.
-/

namespace SerpaeOS

open Links Prog TaskList

/-- The tasks behind a task of the list. -/
def tasksBehind (live : List Ptr) (task : Ptr) : List Ptr := (live.dropWhile (· ≠ task)).tail

/-- If a task of the list is awake, then `task_next` switches to one that is. -/
def FindsAwake (s : System) (live : List Ptr) : Prop :=
  (∃ t ∈ live, ¬ s.Asleep t) → Runs taskNext s fun task s' => task ∈ live ∧ ¬ s.Asleep task ∧
    s' = { s with sched := { s.sched with currentTask := task } }

variable {s : System} {live : List Ptr}

/-! ## The loop -/

lemma taskNextLoop_null (s : System) : taskNextLoop s 0 = none := by
  rw [taskNextLoop, Loop.run]
  rfl

lemma taskNextLoop_found {task : Ptr} (hne : task ≠ 0) (hawake : ¬ s.Asleep task) :
    taskNextLoop s task = some task := by
  refine Loop.run_leave ?_
  dsimp only
  rw [if_neg hne, if_pos (Bool.eq_false_of_not_eq_true hawake)]

lemma taskNextLoop_asleep {task : Ptr} (hne : task ≠ 0) (hasleep : s.Asleep task) :
    taskNextLoop s task = taskNextLoop s (s.sched.next task) := by
  have hnot : ¬ (s.process (s.sched.mem task).process).currentlyHosting = false := by
    rw [Bool.not_eq_false]
    exact hasleep
  refine Loop.run_next ?_
  dsimp only
  rw [if_neg hne, if_neg hnot]

/-- The loop finds a task that is awake if there is one from where it starts to the end. -/
lemma taskNextLoop_seg {l : List Ptr} {task : Ptr} (hseg : Seg s.sched.next task l 0)
    (hne : ∀ t ∈ l, t ≠ 0) :
    (taskNextLoop s task = none ∧ ∀ t ∈ l, s.Asleep t) ∨
      ∃ t ∈ l, taskNextLoop s task = some t ∧ ¬ s.Asleep t := by
  induction l generalizing task with
  | nil =>
    have hnull : task = 0 := hseg
    exact Or.inl ⟨hnull ▸ taskNextLoop_null s, fun t ht => absurd ht List.not_mem_nil⟩
  | cons a l ih =>
    obtain ⟨rfl, hrest⟩ := hseg
    have hnull := hne task List.mem_cons_self
    by_cases hasleep : s.Asleep task
    · rw [taskNextLoop_asleep hnull hasleep]
      rcases ih hrest fun t ht => hne t (List.mem_cons_of_mem _ ht) with
        ⟨hnone, hall⟩ | ⟨t, ht, hsome, hawake⟩
      · exact Or.inl ⟨hnone, List.forall_mem_cons.mpr ⟨hasleep, hall⟩⟩
      · exact Or.inr ⟨t, List.mem_cons_of_mem _ ht, hsome, hawake⟩
    · exact Or.inr ⟨task, List.mem_cons_self, taskNextLoop_found hnull hasleep, hasleep⟩

/-! ## The start of the loop -/

lemma tasksBehind_append {before after : List Ptr} {task : Ptr} (hnotin : task ∉ before) :
    tasksBehind (before ++ task :: after) task = after := by
  rw [tasksBehind, List.dropWhile_append_of_pos fun t ht => by
    simpa using fun heq : t = task => hnotin (heq ▸ ht)]
  simp

/-- The list as `task_next` reads it: the tail and the links back do not matter. -/
structure InOrder (s : Sched) (live : List Ptr) : Prop where
  ne_null : ∀ t ∈ live, t ≠ 0
  seg : Seg s.next s.taskHead live 0
  current_mem : live ≠ [] → s.currentTask ∈ live

lemma inOrder_of_wellFormed (h : WellFormed ⟨s.sched, live⟩) : InOrder s.sched live :=
  ⟨h.ne_null, h.seg, h.current_mem⟩

lemma InOrder.nodup (h : InOrder s.sched live) : live.Nodup :=
  h.seg.nodup fun hnull => h.ne_null 0 hnull rfl

/-- The loop starts at the tasks behind the current one, or at the whole list. -/
lemma InOrder.taskGetNext_seg (h : InOrder s.sched live) (hne : live ≠ []) :
    Seg s.sched.next (taskGetNext s.sched)
      (if tasksBehind live s.sched.currentTask = [] then live
        else tasksBehind live s.sched.currentTask) 0 := by
  have hcurrent : s.sched.currentTask ∈ live := h.current_mem hne
  have hseg : Seg s.sched.next s.sched.taskHead live 0 := h.seg
  have hnodup : live.Nodup := h.nodup
  obtain ⟨before, after, hlive⟩ := List.append_of_mem hcurrent
  have hnotin : s.sched.currentTask ∉ before := by
    rw [hlive] at hnodup
    exact fun hmem => (List.nodup_append.mp hnodup).2.2 _ hmem _ List.mem_cons_self rfl
  have hbehind : tasksBehind live s.sched.currentTask = after := by
    rw [hlive]
    exact tasksBehind_append hnotin
  have hafter : Seg s.sched.next (s.sched.next s.sched.currentTask) after 0 := by
    rw [hlive, seg_append] at hseg
    obtain ⟨m, -, -, hafter⟩ := hseg
    exact hafter
  rw [hbehind, taskGetNext]
  cases after with
  | nil =>
    have hnull : s.sched.next s.sched.currentTask = 0 := hafter
    rwa [if_pos rfl, if_pos hnull]
  | cons a after =>
    have hnull : s.sched.next s.sched.currentTask ≠ 0 := by
      rw [hafter.1]
      exact h.ne_null a (by simp [hlive])
    rwa [if_neg (List.cons_ne_nil _ _), if_neg hnull]

lemma taskGetNext_seg (h : WellFormed ⟨s.sched, live⟩) (hne : live ≠ []) :
    Seg s.sched.next (taskGetNext s.sched)
      (if tasksBehind live s.sched.currentTask = [] then live
        else tasksBehind live s.sched.currentTask) 0 :=
  (inOrder_of_wellFormed h).taskGetNext_seg hne

lemma mem_of_mem_tasksBehind {t task : Ptr} (h : t ∈ tasksBehind live task) : t ∈ live :=
  (List.dropWhile_sublist _).subset (List.mem_of_mem_tail h)

/-! ## The call -/

lemma taskNext_eq (s : System) : taskNext s = (taskNextLoop s (taskGetNext s.sched)).map fun task =>
    (task, { s with sched := { s.sched with currentTask := task } }) := by
  rw [taskNext, getSystem_bind]
  cases taskNextLoop s (taskGetNext s.sched) with
  | none => rfl
  | some task => rfl

/-- **The next task.**  For every well-formed list, `task_next` switches to a task that is awake
whenever there is one if and only if no task is awake, or the current task is the last one, or
some task behind it is awake. -/
theorem task_next_iff (h : WellFormed ⟨s.sched, live⟩) :
    FindsAwake s live ↔ (∀ t ∈ live, s.Asleep t) ∨ tasksBehind live s.sched.currentTask = [] ∨
      ∃ t ∈ tasksBehind live s.sched.currentTask, ¬ s.Asleep t := by
  by_cases hall : ∀ t ∈ live, s.Asleep t
  · refine iff_of_true ?_ (Or.inl hall)
    rintro ⟨t, ht, hawake⟩
    exact absurd (hall t ht) hawake
  push Not at hall
  obtain ⟨t₀, ht₀, hawake₀⟩ := hall
  have hseg := taskGetNext_seg h (List.ne_nil_of_mem ht₀)
  generalize hl : (if tasksBehind live s.sched.currentTask = [] then live
    else tasksBehind live s.sched.currentTask) = l at hseg
  have hsub : ∀ t ∈ l, t ∈ live := by
    intro t ht
    rw [← hl] at ht
    split_ifs at ht with hbehind
    · exact ht
    · exact mem_of_mem_tasksBehind ht
  rcases taskNextLoop_seg hseg fun t ht => h.ne_null t (hsub t ht) with
    ⟨hnone, hasleep⟩ | ⟨t, ht, hsome, hawake⟩
  · -- the loop comes to the end of the list
    refine iff_of_false (fun hfinds => ?_) ?_
    · obtain ⟨task, s', hrun, -⟩ := hfinds ⟨t₀, ht₀, hawake₀⟩
      rw [taskNext_eq, hnone] at hrun
      cases hrun
    · rintro (hall | hbehind | ⟨t, ht, hawake⟩)
      · exact hawake₀ (hall t₀ ht₀)
      · rw [if_pos hbehind] at hl
        exact hawake₀ (hasleep t₀ (hl ▸ ht₀))
      · rw [if_neg (List.ne_nil_of_mem ht)] at hl
        exact hawake (hasleep t (hl ▸ ht))
  · -- the loop has found a task
    refine iff_of_true (fun _ => ⟨t, _, ?_, hsub t ht, hawake, rfl⟩) (Or.inr ?_)
    · rw [taskNext_eq, hsome, Option.map_some]
    · by_cases hbehind : tasksBehind live s.sched.currentTask = []
      · exact Or.inl hbehind
      · rw [if_neg hbehind] at hl
        exact Or.inr ⟨t, hl ▸ ht, hawake⟩

/-! ## Three tasks -/

/-- The tasks of `smallSched`. -/
def smallTasks : List Ptr := [slotTask 0, slotTask 1, slotTask 2]

lemma smallTasks_wellFormed : WellFormed ⟨smallSched, smallTasks⟩ where
  ne_null t ht := by
    obtain ⟨i, rfl⟩ : ∃ i, t = slotTask i := by
      simp only [smallTasks, List.mem_cons, List.not_mem_nil, or_false] at ht
      rcases ht with rfl | rfl | rfl
      · exact ⟨0, rfl⟩
      · exact ⟨1, rfl⟩
      · exact ⟨2, rfl⟩
    exact Nat.ne_of_gt (Nat.add_pos_left (by decide) _)
  seg := ⟨rfl, rfl, rfl, rfl⟩
  tail_eq := rfl
  back := ⟨rfl, rfl, rfl, trivial⟩
  current_mem _ := List.mem_cons_self

/-- The process of the task `i` is asleep if `asleep i` says so. -/
lemma small_asleep_iff {fields : ℕ → Process} {k : Kernel} {i : ℕ} (hi : i < 3) :
    (smallSystem k fields).Asleep (slotTask i) ↔ (fields i).currentlyHosting = true := by
  have hprocess : (smallSched.mem (slotTask i)).process = slotProcess i := by
    rcases (by omega : i = 0 ∨ i = 1 ∨ i = 2) with rfl | rfl | rfl
    · rfl
    · rfl
    · rfl
  have hfields : (smallSystem k fields).process (slotProcess i) = fields i :=
    smallSystem_process hi
  rw [System.Asleep, ← hfields, ← hprocess]
  rfl

/-- Process `1` sleeps, and process `2` is behind it. -/
theorem task_next_iff_guest :
    FindsAwake (smallSystem (mountedKernel 1) (hostedFields 1 2)) smallTasks := by
  refine (task_next_iff smallTasks_wellFormed).mpr (Or.inr (Or.inr ⟨slotTask 2, by decide, ?_⟩))
  rw [small_asleep_iff (by decide)]
  decide

/-- The processes `1` and `2` are asleep. -/
def sleepingFields (i : ℕ) : Process := { slotFields i with currentlyHosting := decide (i ≠ 0) }

/-- Only the task of process `0` is awake, and it is the current one: the kernel panics. -/
lemma taskNext_sleepers : taskNext (smallSystem (mountedKernel 1) sleepingFields) = none := by
  have hasleep : ∀ i < 3, i ≠ 0 →
      (smallSystem (mountedKernel 1) sleepingFields).Asleep (slotTask i) := fun i hi hne =>
    (small_asleep_iff hi).mpr (decide_eq_true hne)
  have hstart : taskGetNext (smallSystem (mountedKernel 1) sleepingFields).sched = slotTask 1 := rfl
  have hnext : (smallSystem (mountedKernel 1) sleepingFields).sched.next (slotTask 1) =
    slotTask 2 := rfl
  have hend : (smallSystem (mountedKernel 1) sleepingFields).sched.next (slotTask 2) = 0 := rfl
  rw [taskNext_eq, hstart, taskNextLoop_asleep (by decide) (hasleep 1 (by decide) (by decide)),
    hnext, taskNextLoop_asleep (by decide) (hasleep 2 (by decide) (by decide)), hend,
    taskNextLoop_null]
  rfl

/-- With the current task in front of two that sleep, none is found. -/
theorem not_task_next_sleepers :
    WellFormed ⟨(smallSystem (mountedKernel 1) sleepingFields).sched, smallTasks⟩ ∧
      ¬ FindsAwake (smallSystem (mountedKernel 1) sleepingFields) smallTasks := by
  refine ⟨smallTasks_wellFormed, fun hfinds => ?_⟩
  have hawake : ¬ (smallSystem (mountedKernel 1) sleepingFields).Asleep (slotTask 0) := by
    rw [small_asleep_iff (by decide)]
    decide
  obtain ⟨task, s', hrun, -⟩ := hfinds ⟨slotTask 0, by decide, hawake⟩
  rw [taskNext_sleepers] at hrun
  cases hrun

end SerpaeOS
