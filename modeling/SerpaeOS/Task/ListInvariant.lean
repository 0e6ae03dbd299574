import SerpaeOS.Task.List

/-!
# The invariant of the task list

Creating a task keeps the list well formed, and so does taking off its last task.
Taking off any other task leaves a stale back link in its successor, so along a
run the list is well formed exactly as long as only the last task is removed.
-/

namespace SerpaeOS.TaskList

open Links StepRun

variable {s : Sched} {r : ListRun} {t p : Ptr}

/-! ## Field lemmas -/

@[simp] lemma next_store (s : Sched) (t : Ptr) (v : Task) :
    (s.store t v).next = Function.update s.next t v.next := by
  funext x
  by_cases hx : x = t
  · subst hx
    simp [Sched.next, Sched.store]
  · simp [Sched.next, Sched.store, hx]

@[simp] lemma prev_store (s : Sched) (t : Ptr) (v : Task) :
    (s.store t v).prev = Function.update s.prev t v.prev := by
  funext x
  by_cases hx : x = t
  · subst hx
    simp [Sched.prev, Sched.store]
  · simp [Sched.prev, Sched.store, hx]

@[simp] lemma mem_store_self (s : Sched) (t : Ptr) (v : Task) : (s.store t v).mem t = v := by
  simp [Sched.store]

@[simp] lemma store_store (s : Sched) (t : Ptr) (v w : Task) :
    (s.store t v).store t w = s.store t w := by
  simp [Sched.store]

lemma mem_store_of_ne (s : Sched) {t x : Ptr} (v : Task) (hx : x ≠ t) :
    (s.store t v).mem x = s.mem x := by
  simp [Sched.store, hx]

@[simp] lemma next_setNext (s : Sched) (t v : Ptr) :
    (s.setNext t v).next = Function.update s.next t v := by
  simp [Sched.setNext]

@[simp] lemma prev_setNext (s : Sched) (t v : Ptr) : (s.setNext t v).prev = s.prev := by
  simp [Sched.setNext, Sched.prev]

@[simp] lemma next_setPrev (s : Sched) (t v : Ptr) : (s.setPrev t v).next = s.next := by
  simp [Sched.setPrev, Sched.next]

@[simp] lemma prev_setPrev (s : Sched) (t v : Ptr) :
    (s.setPrev t v).prev = Function.update s.prev t v := by
  simp [Sched.setPrev]

lemma process_setNext (s : Sched) (t v x : Ptr) :
    ((s.setNext t v).mem x).process = (s.mem x).process := by
  by_cases hx : x = t
  · subst hx
    simp [Sched.setNext]
  · simp [Sched.setNext, mem_store_of_ne _ _ hx]

/-! ## Removing a task -/

lemma linkPast_of_ne (h : s.prev t ≠ 0) :
    linkPast s t = s.setNext (s.prev t) (s.next t) := by
  rw [linkPast, if_pos h]
  rfl

lemma linkPast_of_eq (h : s.prev t = 0) : linkPast s t = s := by
  rw [linkPast, if_neg (not_not.mpr h)]

@[simp] lemma linkPast_prev (s : Sched) (t : Ptr) : (linkPast s t).prev = s.prev := by
  by_cases h : s.prev t = 0
  · rw [linkPast_of_eq h]
  · rw [linkPast_of_ne h, prev_setNext]

lemma linkPast_process (s : Sched) (t x : Ptr) :
    ((linkPast s t).mem x).process = (s.mem x).process := by
  by_cases h : s.prev t = 0
  · rw [linkPast_of_eq h]
  · rw [linkPast_of_ne h, process_setNext]

/-- Only the forward link of the predecessor changes. -/
lemma linkPast_next_of_ne (s : Sched) {t x : Ptr} (hx : x ≠ s.prev t) :
    (linkPast s t).next x = s.next x := by
  by_cases h : s.prev t = 0
  · rw [linkPast_of_eq h]
  · rw [linkPast_of_ne h, next_setNext, Function.update_of_ne hx]

lemma linkPast_next_prev (s : Sched) {t : Ptr} (h : s.prev t ≠ 0) :
    (linkPast s t).next (s.prev t) = s.next t := by
  rw [linkPast_of_ne h, next_setNext, Function.update_self]

@[simp] lemma taskFree_prev (s : Sched) (t : Ptr) : (taskFree s t).prev = s.prev :=
  linkPast_prev s t

lemma taskFree_next (s : Sched) (t : Ptr) : (taskFree s t).next = (linkPast s t).next := rfl

lemma taskFree_process (s : Sched) (t x : Ptr) :
    ((taskFree s t).mem x).process = (s.mem x).process := linkPast_process s t x

lemma taskFree_taskHead (s : Sched) (t : Ptr) :
    (taskFree s t).taskHead = if t = s.taskHead then (linkPast s t).next t else s.taskHead :=
  rfl

lemma taskFree_taskTail (s : Sched) (t : Ptr) :
    (taskFree s t).taskTail = if t = s.taskTail then s.prev t else s.taskTail := by
  rw [← linkPast_prev s t]
  rfl

lemma taskFree_currentTask (s : Sched) (t : Ptr) :
    (taskFree s t).currentTask =
      if t = s.currentTask then
        (if (linkPast s t).next t = 0 then (taskFree s t).taskHead else (linkPast s t).next t)
      else s.currentTask := by
  by_cases h : t = s.currentTask
  · subst h
    rfl
  · rw [if_neg h]
    exact if_neg h

/-! ## One call -/

lemma WellFormed.null_notMem (h : WellFormed r) : (0 : Ptr) ∉ r.live :=
  fun h0 => h.ne_null 0 h0 rfl

lemma WellFormed.nodup (h : WellFormed r) : r.live.Nodup := h.seg.nodup h.null_notMem

/-- The tasks before and after a live task are other tasks. -/
lemma WellFormed.notMem_middle {l₁ l₂ : List Ptr} (h : WellFormed ⟨s, l₁ ++ t :: l₂⟩) :
    t ∉ l₁ ++ l₂ := (List.nodup_middle.mp h.nodup).notMem

lemma WellFormed.taskHead_eq_zero_iff (h : WellFormed r) :
    r.sched.taskHead = 0 ↔ r.live = [] := by
  cases hl : r.live with
  | nil =>
    have hs := h.seg
    rw [hl] at hs
    exact iff_of_true hs rfl
  | cons a l =>
    have hs := h.seg
    rw [hl] at hs
    have ha : a ≠ 0 := h.ne_null a (by rw [hl]; simp)
    simp [hs.1, ha]

/-- Appending a task with empty links whose block no live task occupies. -/
lemma WellFormed.append (h : WellFormed r) (ht0 : t ≠ 0) (ht : t ∉ r.live)
    (hnext : r.sched.next t = 0) (hprev : r.sched.prev t = 0) :
    WellFormed ⟨taskAppend r.sched t, r.live ++ [t]⟩ := by
  obtain ⟨s, live⟩ := r
  rcases List.eq_nil_or_concat live with rfl | ⟨l, z, hlz⟩
  · -- the first task of the list
    have hhead : s.taskHead = 0 := h.taskHead_eq_zero_iff.mpr rfl
    have happ : taskAppend s t = { s with taskHead := t, taskTail := t, currentTask := t } := by
      rw [taskAppend, if_pos hhead]
    rw [happ]
    refine ⟨?_, ⟨rfl, hnext⟩, rfl, ⟨hprev, trivial⟩, ?_⟩
    · intro x hx
      rw [List.nil_append, List.mem_singleton] at hx
      rw [hx]
      exact ht0
    · intro _
      simp
  · -- the task is linked behind the last one
    rw [List.concat_eq_append] at hlz
    subst hlz
    have hhead : s.taskHead ≠ 0 := by
      rw [Ne, h.taskHead_eq_zero_iff]
      simp
    have htail : s.taskTail = z := by
      have := h.tail_eq
      rwa [List.getLastD_concat] at this
    have hzt : z ≠ t := by
      rintro rfl
      exact ht (by simp)
    have happ : taskAppend s t = { (s.setNext z t).setPrev t z with taskTail := t } := by
      rw [taskAppend, if_neg hhead, htail]
      simp only [show (s.setNext z t).taskTail = z from htail]
    have hnx : (taskAppend s t).next = Function.update s.next z t := by
      rw [happ]
      exact (next_setPrev _ _ _).trans (next_setNext _ _ _)
    have hpv : (taskAppend s t).prev = Function.update s.prev t z := by
      rw [happ]
      exact (prev_setPrev _ _ _).trans (by rw [prev_setNext])
    have hzl : z ∉ l := by simpa using h.notMem_middle
    obtain ⟨m, hseg, hm⟩ := seg_append.mp h.seg
    obtain ⟨rfl, -⟩ := hm
    refine ⟨?_, ?_, ?_, ?_, ?_⟩
    · intro x hx
      rcases List.mem_append.mp hx with hx | hx
      · exact h.ne_null x hx
      · rw [List.mem_singleton.mp hx]
        exact ht0
    · rw [List.append_assoc]
      refine seg_append.mpr ⟨m, ?_, ?_⟩
      · rw [show (taskAppend s t).taskHead = s.taskHead by rw [happ]; rfl]
        refine hseg.congr fun x hx => ?_
        have hxm : x ≠ m := fun hxm => hzl (hxm ▸ hx)
        rw [hnx, Function.update_of_ne hxm]
      · refine ⟨rfl, ?_, ?_⟩
        · rw [hnx, Function.update_self]
        · rw [hnx, Function.update_of_ne hzt.symm]
          exact hnext
    · rw [happ, List.getLastD_concat]
    · rw [hpv]
      refine backLinked_append.mpr ⟨h.back.congr fun x hx => ?_, ?_, trivial⟩
      · rw [Function.update_of_ne]
        rintro rfl
        exact ht hx
      · rw [Function.update_self, List.getLastD_concat]
    · intro _
      rw [happ]
      exact List.mem_append_left _ (h.current_mem (by simp))

/-- Writing a block that no live task occupies does not touch the list. -/
lemma WellFormed.store (h : WellFormed r) (ht : t ∉ r.live) (v : Task) :
    WellFormed ⟨r.sched.store t v, r.live⟩ := by
  have hne : ∀ x ∈ r.live, x ≠ t := by
    rintro x hx rfl
    exact ht hx
  refine ⟨h.ne_null, ?_, h.tail_eq, ?_, h.current_mem⟩
  · refine h.seg.congr fun x hx => ?_
    rw [next_store, Function.update_of_ne (hne x hx)]
  · refine h.back.congr fun x hx => ?_
    rw [prev_store, Function.update_of_ne (hne x hx)]

/-- Freeing a block that is not on the list, the error exit of the two constructors. -/
lemma WellFormed.taskFree_of_notMem (h : WellFormed r) (ht0 : t ≠ 0) (ht : t ∉ r.live)
    (hnext : r.sched.next t = 0) (hprev : r.sched.prev t = 0) :
    WellFormed ⟨taskFree r.sched t, r.live⟩ := by
  have hlink : linkPast r.sched t = r.sched := linkPast_of_eq hprev
  have hhead : t ≠ r.sched.taskHead := by
    rintro rfl
    cases hl : r.live with
    | nil => exact ht0 (h.taskHead_eq_zero_iff.mpr hl)
    | cons a l =>
      have hs := h.seg
      rw [hl] at hs
      exact ht (by rw [hl, hs.1]; simp)
  have htail : t ≠ r.sched.taskTail := by
    rintro rfl
    have hmem : r.live.getLastD 0 ∈ 0 :: r.live := List.getLastD_mem_cons
    rw [← h.tail_eq] at hmem
    rcases List.mem_cons.mp hmem with h0 | hmem
    · exact ht0 h0
    · exact ht hmem
  have hhead' : (taskFree r.sched t).taskHead = r.sched.taskHead := by
    rw [taskFree_taskHead, if_neg hhead]
  refine ⟨h.ne_null, ?_, ?_, ?_, ?_⟩
  · show Seg (taskFree r.sched t).next (taskFree r.sched t).taskHead r.live 0
    rw [taskFree_next, hlink, hhead']
    exact h.seg
  · show (taskFree r.sched t).taskTail = r.live.getLastD 0
    rw [taskFree_taskTail, if_neg htail]
    exact h.tail_eq
  · show BackLinked (taskFree r.sched t).prev 0 r.live
    rw [taskFree_prev]
    exact h.back
  · intro hl
    show (taskFree r.sched t).currentTask ∈ r.live
    have hcur : t ≠ r.sched.currentTask := by
      rintro rfl
      exact ht (h.current_mem hl)
    rw [taskFree_currentTask, if_neg hcur]
    exact h.current_mem hl

/-- `task_new` appends a task with empty links. -/
lemma taskNew_eq (s : Sched) (process : ProcessInfo) {pd : Ptr} (ht0 : t ≠ 0) (hpd : pd ≠ 0) :
    ∃ v : Task, v.next = 0 ∧ v.prev = 0 ∧
      taskNew s process t pd = (taskAppend (s.store t v) t, .ok t) := by
  set v : Task :=
    { pageDirectory := pd, process := process.ptr, mainTask := true
      registers := initialRegisters
        (if process.filetype = .elf then process.entry else programVirtualAddress) } with hv
  have hinit : taskInit s t process pd = (s.store t v, 0) := by
    simp only [taskInit, if_neg hpd, mem_store_self, store_store, hv]
  refine ⟨v, rfl, rfl, ?_⟩
  rw [taskNew, if_neg ht0, hinit]
  simp [allOk]

lemma WellFormed.taskNew (h : WellFormed r) (process : ProcessInfo) {pd : Ptr} (ht0 : t ≠ 0)
    (ht : t ∉ r.live) (hpd : pd ≠ 0) :
    WellFormed (r.created (taskNew r.sched process t pd)) := by
  obtain ⟨v, hnext, hprev, hnew⟩ := taskNew_eq r.sched process ht0 hpd
  rw [hnew]
  refine (h.store ht v).append ht0 ht ?_ ?_
  · simp [hnext]
  · simp [hprev]

lemma WellFormed.taskAddToProcess (h : WellFormed r) (process : ProcessInfo) (addr : ℕ)
    (ht0 : t ≠ 0) (ht : t ∉ r.live) :
    WellFormed (r.created (taskAddToProcess r.sched process addr t)) := by
  set pd := ((r.sched.store t {}).mem process.task).pageDirectory with hpd
  by_cases hpd0 : pd = 0
  · have hadd : TaskList.taskAddToProcess r.sched process addr t =
        (taskFree (r.sched.store t {}) t, .error (-eio)) := by
      rw [TaskList.taskAddToProcess, if_neg ht0]
      simp only [mem_store_self, store_store, ← hpd, hpd0, if_true]
    rw [hadd]
    refine (h.store ht {}).taskFree_of_notMem ht0 ht ?_ ?_
    · simp
    · simp
  · set v : Task :=
      { pageDirectory := pd, process := process.ptr, registers := initialRegisters addr } with hv
    have hadd : TaskList.taskAddToProcess r.sched process addr t =
        (taskAppend (r.sched.store t v) t, .ok t) := by
      rw [TaskList.taskAddToProcess, if_neg ht0]
      simp only [mem_store_self, store_store, ← hpd, hpd0, if_false, hv]
    rw [hadd]
    refine (h.store ht v).append ht0 ht ?_ ?_
    · simp [hv]
    · simp [hv]

/-- Taking the last task off the list. -/
lemma WellFormed.taskFree_last {s : Sched} {l : List Ptr} (h : WellFormed ⟨s, l ++ [t]⟩) :
    WellFormed ⟨taskFree s t, l⟩ := by
  have htl : t ∉ l := by simpa using h.notMem_middle
  have ht0 : t ≠ 0 := h.ne_null t (by simp)
  have htail : s.taskTail = t := by
    have := h.tail_eq
    rwa [List.getLastD_concat] at this
  obtain ⟨m, hseg, hm⟩ := seg_append.mp h.seg
  obtain ⟨rfl, hnext⟩ := hm
  obtain ⟨hback, hprev, -⟩ := backLinked_append.mp h.back
  have hl0 : ∀ x ∈ l, x ≠ 0 := fun x hx => h.ne_null x (by simp [hx])
  rcases List.eq_nil_or_concat l with rfl | ⟨k, y, hky⟩
  · -- the list becomes empty
    have hhead : s.taskHead = m := hseg
    have hlink : linkPast s m = s := linkPast_of_eq hprev
    refine ⟨by simp, ?_, ?_, trivial, fun hne => absurd rfl hne⟩
    · show (taskFree s m).taskHead = 0
      rw [taskFree_taskHead, if_pos hhead.symm, hlink]
      exact hnext
    · show (taskFree s m).taskTail = 0
      rw [taskFree_taskTail, if_pos htail.symm]
      exact hprev
  · -- the predecessor becomes the last task
    rw [List.concat_eq_append] at hky
    subst hky
    rw [List.getLastD_concat] at hprev
    have hy0 : y ≠ 0 := hl0 y (by simp)
    have hym : m ≠ y := by
      rintro rfl
      exact htl (by simp)
    have hky : y ∉ k := by
      have hnd := h.nodup
      simp only [List.append_assoc, List.singleton_append] at hnd
      exact fun hmem => (List.nodup_middle.mp hnd).notMem (by simp [hmem])
    have hnx : ∀ x, x ≠ y → (taskFree s m).next x = s.next x := by
      intro x hx
      rw [taskFree_next, linkPast_next_of_ne s (by rw [hprev]; exact hx)]
    have hny : (taskFree s m).next y = 0 := by
      rw [taskFree_next, ← hprev, linkPast_next_prev s (by rw [hprev]; exact hy0)]
      exact hnext
    have hhead : m ≠ s.taskHead := by
      intro hmh
      cases k with
      | nil => exact hym (hmh.trans hseg.1)
      | cons a k => exact htl (by rw [hmh, hseg.1]; simp)
    have hhead' : (taskFree s m).taskHead = s.taskHead := by
      rw [taskFree_taskHead, if_neg hhead]
    obtain ⟨y', hsegk, hy'⟩ := seg_append.mp hseg
    obtain ⟨rfl, -⟩ := hy'
    refine ⟨hl0, ?_, ?_, ?_, ?_⟩
    · refine seg_append.mpr ⟨y', ?_, rfl, hny⟩
      show Seg (taskFree s m).next (taskFree s m).taskHead k y'
      rw [hhead']
      refine hsegk.congr fun x hx => hnx x ?_
      rintro rfl
      exact hky hx
    · show (taskFree s m).taskTail = _
      rw [taskFree_taskTail, if_pos htail.symm, hprev, List.getLastD_concat]
    · show BackLinked (taskFree s m).prev 0 _
      rw [taskFree_prev]
      exact hback
    · intro _
      show (taskFree s m).currentTask ∈ _
      rw [taskFree_currentTask]
      by_cases hcur : m = s.currentTask
      · -- the scheduler falls back to the head of the list
        have hnext0 : s.next m = 0 := hnext
        rw [if_pos hcur, ← taskFree_next, hnx m hym, if_pos hnext0, hhead']
        cases k with
        | nil => rw [hsegk]; simp
        | cons a k => rw [hsegk.1]; simp
      · rw [if_neg hcur]
        have hmem : s.currentTask ∈ (k ++ [y']) ++ [m] := h.current_mem (by simp)
        rcases List.mem_append.mp hmem with hmem | hmem
        · exact hmem
        · exact absurd (List.mem_singleton.mp hmem).symm hcur

/-- A task that keeps a back link to a task off the list spoils it. -/
lemma not_wellFormed_of_prev {u : Ptr} (hu : u ∈ r.live) (h0 : r.sched.prev u ≠ 0)
    (hp : r.sched.prev u ∉ r.live) : ¬ WellFormed r := by
  intro h
  rcases h.back.prev_mem hu with h' | h'
  · exact h0 h'
  · exact hp h'

/-- Taking off a task that has a successor leaves a stale back link. -/
lemma WellFormed.not_taskFree_mid {s : Sched} {l₁ l₂ : List Ptr} {u : Ptr}
    (h : WellFormed ⟨s, l₁ ++ t :: u :: l₂⟩) :
    ¬ WellFormed ⟨taskFree s t, l₁ ++ u :: l₂⟩ := by
  have hprev : s.prev u = t := h.back.mid
  have ht0 : t ≠ 0 := h.ne_null t (by simp)
  have htn : t ∉ l₁ ++ u :: l₂ := h.notMem_middle
  refine not_wellFormed_of_prev (u := u) (by simp) ?_ ?_
  · show (taskFree s t).prev u ≠ 0
    rw [taskFree_prev, hprev]
    exact ht0
  · show (taskFree s t).prev u ∉ _
    rw [taskFree_prev, hprev]
    exact htn

/-! ## Removing all tasks of a process -/

@[simp] lemma taskFreeAllLoop_null (process : Ptr) (s : Sched) :
    taskFreeAllLoop process s 0 = some s := by
  rw [taskFreeAllLoop_step, if_pos rfl]

lemma taskFreeAllLoop_skip {process : Ptr} {l : List Ptr} {m : Ptr} :
    ∀ {cur : Ptr}, Seg s.next cur l m → (∀ x ∈ l, x ≠ 0 ∧ (s.mem x).process ≠ process) →
      taskFreeAllLoop process s cur = taskFreeAllLoop process s m := by
  induction l with
  | nil =>
    intro cur hseg _
    rw [show cur = m from hseg]
  | cons a l ih =>
    rintro cur ⟨rfl, hseg⟩ hl
    obtain ⟨ha0, hap⟩ := hl cur (by simp)
    rw [taskFreeAllLoop_step, if_neg ha0]
    simp only [hap, if_false]
    exact ih hseg fun x hx => hl x (by simp [hx])

/-- One round of the walk: the task is removed if it is one of the process. -/
structure FreeRound (process cur : Ptr) (s s₁ : Sched) : Prop where
  prev_eq : s₁.prev = s.prev
  process_eq : ∀ x, (s₁.mem x).process = (s.mem x).process
  next_eq : ∀ x, x ≠ s.prev cur → s₁.next x = s.next x
  tail_eq : s₁.taskTail =
    if (s.mem cur).process = process ∧ cur = s.taskTail then s.prev cur else s.taskTail

lemma freeRound (process cur : Ptr) (s : Sched) : FreeRound process cur s
    (if (s.mem cur).process = process then taskFree s cur else s) := by
  by_cases hp : (s.mem cur).process = process
  · rw [if_pos hp]
    refine ⟨taskFree_prev _ _, taskFree_process _ _, fun x hx => ?_, ?_⟩
    · rw [taskFree_next, linkPast_next_of_ne s hx]
    · simp only [hp, true_and, taskFree_taskTail]
  · rw [if_neg hp]
    refine ⟨rfl, fun _ => rfl, fun _ _ => rfl, ?_⟩
    rw [if_neg fun h => hp h.1]

/-- The walk visits the list as it was when the loop started: a removal only writes the
forward link of a task the walk has passed.  No back link is ever written, and the tail
is the last task visited or, when that one was removed, what its back link said. -/
lemma taskFreeAllLoop_spec {process : Ptr} {rest : List Ptr} :
    ∀ {s : Sched} {cur q : Ptr}, Seg s.next cur rest 0 → (0 : Ptr) ∉ rest →
      BackLinked s.prev q rest → q ∉ rest →
      ∃ s', taskFreeAllLoop process s cur = some s' ∧ s'.prev = s.prev ∧
        ∀ z, rest.getLast? = some z → s.taskTail = z →
          s'.taskTail = if (s.mem z).process = process then s.prev z else z := by
  induction rest with
  | nil =>
    intro s cur q hseg _ _ _
    rw [show cur = 0 from hseg]
    exact ⟨s, taskFreeAllLoop_null _ _, rfl, by simp⟩
  | cons a rest ih =>
    rintro s cur q hseg h0 ⟨hpa, hback⟩ hq
    have hnd := hseg.nodup h0
    obtain ⟨rfl, hseg⟩ := hseg
    have ha0 : cur ≠ 0 := fun h => h0 (by simp [h])
    obtain ⟨s₁, hs₁⟩ : ∃ s₁, s₁ =
      if (s.mem cur).process = process then taskFree s cur else s := ⟨_, rfl⟩
    have hround := freeRound process cur s
    rw [← hs₁] at hround
    -- the round writes the link of a task the walk has passed
    have hnext : ∀ x ∈ cur :: rest, s₁.next x = s.next x := by
      intro x hx
      refine hround.next_eq x ?_
      rw [hpa]
      rintro rfl
      exact hq hx
    have hseg₁ : Seg s₁.next (s₁.next cur) rest 0 := by
      rw [hnext cur (by simp)]
      exact hseg.congr fun x hx => hnext x (by simp [hx])
    obtain ⟨s', hloop, hprev', htail'⟩ := ih hseg₁ (fun h => h0 (by simp [h]))
      (by rw [hround.prev_eq]; exact hback) (List.nodup_cons.mp hnd).1
    refine ⟨s', ?_, hprev'.trans hround.prev_eq, ?_⟩
    · rw [taskFreeAllLoop_step, if_neg ha0, ← hs₁]
      exact hloop
    · intro z hz hsz
      cases rest with
      | nil =>
        obtain rfl : cur = z := by simpa using hz
        have hs' : s' = s₁ := by
          have h1 : s₁.next cur = 0 := hseg₁
          rw [h1, taskFreeAllLoop_null] at hloop
          exact (Option.some.inj hloop).symm
        rw [hs', hround.tail_eq, hsz]
        simp
      | cons b rest =>
        rw [List.getLast?_cons_cons] at hz
        have hzmem : z ∈ b :: rest := List.mem_of_getLast? hz
        have hcz : cur ≠ z := by
          rintro rfl
          exact (List.nodup_cons.mp hnd).1 hzmem
        have hs₁z : s₁.taskTail = z := by
          rw [hround.tail_eq, hsz, if_neg]
          rintro ⟨-, h⟩
          exact hcz h
        rw [htail' z hz hs₁z, hround.process_eq z, hround.prev_eq]

/-- Removing all tasks of a process when none of them has a successor. -/
lemma WellFormed.taskFreeAll_last (h : WellFormed r) {process : Ptr}
    (hlast : ∀ t ∈ r.live, (r.sched.mem t).process = process → r.live.getLastD 0 = t) :
    ∃ s', taskFreeAllForProcess r.sched process = some s' ∧
      WellFormed ⟨s', r.live.filter fun t => (r.sched.mem t).process ≠ process⟩ := by
  obtain ⟨s, live⟩ := r
  rcases List.eq_nil_or_concat live with rfl | ⟨l, z, hlz⟩
  · refine ⟨s, ?_, h⟩
    rw [taskFreeAllForProcess, show s.taskHead = 0 from h.seg, taskFreeAllLoop_null]
  · rw [List.concat_eq_append] at hlz
    subst hlz
    obtain ⟨m, hseg, hm⟩ := seg_append.mp h.seg
    obtain ⟨rfl, hnext⟩ := hm
    have hml : m ∉ l := by simpa using h.notMem_middle
    have hl : ∀ x ∈ l, x ≠ 0 ∧ (s.mem x).process ≠ process := by
      refine fun x hx => ⟨h.ne_null x (by simp [hx]), fun hp => ?_⟩
      have hmx := hlast x (by simp [hx]) hp
      rw [List.getLastD_concat] at hmx
      exact hml (hmx ▸ hx)
    have hfl : l.filter (fun t => (s.mem t).process ≠ process) = l :=
      List.filter_eq_self.mpr fun x hx => by simpa using (hl x hx).2
    have hm0 : m ≠ 0 := h.ne_null m (by simp)
    have hskip : taskFreeAllForProcess s process = taskFreeAllLoop process s m := by
      rw [taskFreeAllForProcess]
      exact taskFreeAllLoop_skip hseg hl
    have hnext0 : s.next m = 0 := hnext
    by_cases hp : (s.mem m).process = process
    · -- the last task is the only one removed
      refine ⟨taskFree s m, ?_, ?_⟩
      · have hprev : m ≠ s.prev m := by
          rw [(backLinked_append.mp h.back).2.1]
          intro heq
          have hmem : l.getLastD 0 ∈ 0 :: l := List.getLastD_mem_cons
          rw [← heq] at hmem
          rcases List.mem_cons.mp hmem with h0 | hmem
          · exact hm0 h0
          · exact hml hmem
        rw [hskip, taskFreeAllLoop_step, if_neg hm0]
        simp only [hp, if_true]
        rw [taskFree_next, linkPast_next_of_ne s hprev, hnext0, taskFreeAllLoop_null]
      · simp only [List.filter_append, hfl, List.filter_singleton, hp]
        simpa using h.taskFree_last
    · refine ⟨s, ?_, ?_⟩
      · rw [hskip, taskFreeAllLoop_step, if_neg hm0]
        simp only [hp, if_false, hnext0, taskFreeAllLoop_null]
      · simp only [List.filter_append, hfl, List.filter_singleton]
        simpa [hp] using h

/-- When every successor of a task of the process belongs to it as well, the last task of
the list belongs to the process and so does the task its back link names. -/
lemma exists_prev_last {prev : Ptr → Ptr} {own : Ptr → Prop} {l₂ : List Ptr} :
    ∀ {l₁ : List Ptr} {t q : Ptr}, BackLinked prev q (l₁ ++ t :: l₂) →
      (∀ k₁ x u k₂, l₁ ++ t :: l₂ = k₁ ++ x :: u :: k₂ → own x → own u) → own t → l₂ ≠ [] →
      ∃ z, (l₁ ++ t :: l₂).getLast? = some z ∧ own z ∧ own (prev z) ∧
        prev z ∈ l₁ ++ t :: l₂ := by
  induction l₂ with
  | nil => exact fun _ _ _ hne => absurd rfl hne
  | cons u l₂ ih =>
    intro l₁ t q hb hclosed ht _
    have hu : own u := hclosed l₁ t u l₂ rfl ht
    by_cases hl : l₂ = []
    · subst hl
      have hpu : prev u = t := hb.mid
      refine ⟨u, by simp, hu, ?_, ?_⟩
      · rw [hpu]
        exact ht
      · rw [hpu]
        simp
    · have heq : l₁ ++ t :: u :: l₂ = (l₁ ++ [t]) ++ u :: l₂ := by simp
      rw [heq] at hb hclosed ⊢
      exact ih hb hclosed hu hl

/-- Removing all tasks of a process when one of them has a successor. -/
lemma WellFormed.not_taskFreeAll (h : WellFormed r) {process : Ptr} {s' : Sched}
    (hbad : ¬ ∀ t ∈ r.live, (r.sched.mem t).process = process → r.live.getLastD 0 = t)
    (hs' : taskFreeAllForProcess r.sched process = some s') :
    ¬ WellFormed ⟨s', r.live.filter fun t => (r.sched.mem t).process ≠ process⟩ := by
  intro h'
  obtain ⟨s'', hloop, hprev, htail⟩ := @taskFreeAllLoop_spec process _ _ _ _ h.seg
    h.null_notMem h.back h.null_notMem
  obtain rfl : s' = s'' := Option.some.inj (hs'.symm.trans hloop)
  set own : Ptr → Prop := fun t => (r.sched.mem t).process = process with hown
  have hgone : ∀ x, own x → x ∉ r.live.filter fun t => (r.sched.mem t).process ≠ process := by
    intro x hx hmem
    have := (List.mem_filter.mp hmem).2
    simp only [ne_eq, decide_not, Bool.not_eq_eq_eq_not, Bool.not_true,
      decide_eq_false_iff_not] at this
    exact this hx
  push Not at hbad
  obtain ⟨t, htl, htp, hlast⟩ := hbad
  obtain ⟨l₁, l₂, hl⟩ := List.append_of_mem htl
  -- a task of the process is followed by tasks of the process only
  have hclosed : ∀ k₁ x u k₂, r.live = k₁ ++ x :: u :: k₂ → own x → own u := by
    intro k₁ x u k₂ hk hx
    by_contra hu
    have hul : u ∈ r.live := by rw [hk]; simp
    have hxl : x ∈ r.live := by rw [hk]; simp
    have hpu : s'.prev u = x := by
      rw [hprev]
      have hb := h.back
      rw [hk] at hb
      exact hb.mid
    refine not_wellFormed_of_prev (u := u)
      (List.mem_filter.mpr ⟨hul, by simpa [hown] using hu⟩) ?_ ?_ h'
    · show s'.prev u ≠ 0
      rw [hpu]
      exact h.ne_null x hxl
    · show s'.prev u ∉ _
      rw [hpu]
      exact hgone x hx
  have hl₂ : l₂ ≠ [] := by
    rintro rfl
    apply hlast
    rw [hl, List.getLastD_concat]
  obtain ⟨z, hz, hzp, hyp, hyl⟩ := @exists_prev_last _ _ l₂ l₁ t _
    (hl ▸ h.back) (hl ▸ hclosed) htp hl₂
  rw [← hl] at hz hyl
  have hzt : r.sched.taskTail = z := by
    rw [h.tail_eq, List.getLastD_eq_getLast?, hz]
    rfl
  have htl' : s'.taskTail = r.sched.prev z := by
    rw [htail z hz hzt, if_pos hzp]
  have hmem : s'.taskTail ∈
      0 :: r.live.filter fun t => (r.sched.mem t).process ≠ process := by
    rw [show s'.taskTail = _ from h'.tail_eq]
    exact List.getLastD_mem_cons
  rw [htl'] at hmem
  rcases List.mem_cons.mp hmem with h0 | hmem
  · exact h.ne_null _ hyl h0
  · exact hgone _ hyp hmem

/-! ## Runs -/

lemma bootRun_wellFormed (mem : Ptr → Task) : WellFormed (bootRun mem) :=
  ⟨by simp [bootRun], rfl, rfl, trivial, fun h => absurd rfl h⟩

/-- A call that takes off only the last task keeps the list well formed. -/
lemma WellFormed.step (h : WellFormed r) {op : ListOp} (hl : ListLegal r op)
    (hc : RemovesOnlyTail r op) : ∃ r', listStep r op = some r' ∧ WellFormed r' := by
  cases op with
  | taskNew process task pd => exact ⟨_, rfl, h.taskNew process hl.1 hl.2.1 hl.2.2⟩
  | taskAddToProcess process addr task =>
    exact ⟨_, rfl, h.taskAddToProcess process addr hl.1 hl.2⟩
  | taskFree task =>
    refine ⟨_, rfl, ?_⟩
    obtain ⟨s, live⟩ := r
    rcases List.eq_nil_or_concat live with rfl | ⟨l, z, hlz⟩
    · exact absurd hl (by simp [ListLegal])
    · rw [List.concat_eq_append] at hlz
      subst hlz
      obtain rfl : z = task := by simpa [RemovesOnlyTail] using hc
      have hzl : z ∉ l := by simpa using h.notMem_middle
      have herase : (l ++ [z]).erase z = l := by
        rw [List.erase_append_right _ hzl]
        simp
      rw [herase]
      exact h.taskFree_last
  | taskFreeAllForProcess process =>
    obtain ⟨s', hs', h'⟩ := h.taskFreeAll_last hc
    exact ⟨_, by rw [listStep, hs']; rfl, h'⟩

/-- A call that takes off a task with a successor destroys the list. -/
lemma WellFormed.not_step (h : WellFormed r) {op : ListOp} {r' : ListRun}
    (hl : ListLegal r op) (hc : ¬ RemovesOnlyTail r op) (hstep : listStep r op = some r') :
    ¬ WellFormed r' := by
  cases op with
  | taskNew process task pd => exact absurd trivial hc
  | taskAddToProcess process addr task => exact absurd trivial hc
  | taskFree task =>
    obtain ⟨s, live⟩ := r
    obtain rfl : _ = r' := Option.some.inj hstep
    obtain ⟨l₁, l₂, rfl⟩ := List.append_of_mem hl
    have htl : task ∉ l₁ := fun hmem => h.notMem_middle (by simp [hmem])
    cases l₂ with
    | nil => exact absurd (by simp [RemovesOnlyTail]) hc
    | cons u l₂ =>
      have herase : (l₁ ++ task :: u :: l₂).erase task = l₁ ++ u :: l₂ := by
        rw [List.erase_append_right _ htl]
        simp
      rw [herase]
      exact h.not_taskFree_mid
  | taskFreeAllForProcess process =>
    obtain ⟨s', hs', rfl⟩ := Option.map_eq_some_iff.mp hstep
    exact h.not_taskFreeAll hc hs'

/-- **The task list along a run.**  From the empty list, for every sequence of the four
calls in which allocations succeed and only live tasks are freed, the calls return and
the list is well formed in every state reached if and only if every call removes at most
the last task of the list. -/
theorem taskList_wellFormed_iff (mem : Ptr → Task) (ops : List ListOp)
    (hlegal : Guarded listStep ListLegal (bootRun mem) ops) :
    Always listStep WellFormed (bootRun mem) ops ↔
      Guarded listStep RemovesOnlyTail (bootRun mem) ops :=
  always_iff_guarded (fun _ h => h) (fun _ _ h hl hc => h.step hl hc)
    (fun _ _ _ h hl hc hstep => h.not_step hl hc hstep) (bootRun_wellFormed mem) hlegal

/-- A process with one thread, created and terminated: both calls remove the last task. -/
theorem taskList_wellFormed_iff_thread :
    Always listStep WellFormed (bootRun fun _ => {})
      [.taskNew ⟨1, .binary, 0, 0x1001000⟩ 0x1001000 0x1002000,
        .taskAddToProcess ⟨1, .binary, 0, 0x1001000⟩ 0x400000 0x1003000,
        .taskFree 0x1003000, .taskFreeAllForProcess 1] := by
  rw [taskList_wellFormed_iff]
  · simp [Guarded, RemovesOnlyTail, listStep, bootRun, ListRun.created, taskNew,
      taskAddToProcess, taskInit, taskAppend, Sched.setNext, Sched.setPrev, Sched.store, allOk,
      taskFree, taskListRemove, linkPast, Sched.prev, Sched.next]
  · simp [Guarded, ListLegal, listStep, bootRun, ListRun.created, taskNew,
      taskAddToProcess, taskInit, taskAppend, Sched.setNext, Sched.setPrev, Sched.store, allOk,
      taskFree, taskListRemove, linkPast, Sched.prev, Sched.next]

/-- Two processes are started and the first one is terminated: its successor keeps the
freed task as predecessor. -/
theorem not_taskList_wellFormed_first_removed :
    Guarded listStep ListLegal (bootRun fun _ => {})
        [.taskNew ⟨1, .binary, 0, 0x1001000⟩ 0x1001000 0x1002000,
          .taskNew ⟨2, .binary, 0, 0x1003000⟩ 0x1003000 0x1004000, .taskFree 0x1001000] ∧
      ¬ Always listStep WellFormed (bootRun fun _ => {})
        [.taskNew ⟨1, .binary, 0, 0x1001000⟩ 0x1001000 0x1002000,
          .taskNew ⟨2, .binary, 0, 0x1003000⟩ 0x1003000 0x1004000, .taskFree 0x1001000] := by
  constructor
  · simp [Guarded, ListLegal, listStep, bootRun, ListRun.created, taskNew,
      taskInit, taskAppend, Sched.setNext, Sched.setPrev, Sched.store, allOk]
  · rintro ⟨-, r₁, h₁, -, r₂, h₂, -, r₃, h₃, hwf⟩
    obtain rfl := Option.some.inj h₁
    obtain rfl := Option.some.inj h₂
    obtain rfl := Option.some.inj h₃
    have hback := hwf.back.1
    revert hback
    decide

end SerpaeOS.TaskList
