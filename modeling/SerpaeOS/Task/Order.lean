import SerpaeOS.Task.Next

/-!
# The list of tasks with stale links back

`task_list_remove` leaves the link back of the successor as it was, so on a list from which tasks
have been taken off the links back are not to be relied on.  The forward links, the head and the
tail stay right as long as no task is taken off whose own link back is stale.
-/

namespace SerpaeOS.TaskList

open Links

variable {s : Sched} {live l₁ l₂ : List Ptr} {t x : Ptr}

/-- The list as the scheduler walks along it and appends to it. -/
structure Ordered (s : Sched) (live : List Ptr) : Prop extends InOrder s live where
  tail_eq : s.taskTail = live.getLastD 0

lemma Ordered.null_notMem (h : Ordered s live) : (0 : Ptr) ∉ live := fun h0 => h.ne_null 0 h0 rfl

lemma Ordered.nodup (h : Ordered s live) : live.Nodup := h.seg.nodup h.null_notMem

lemma WellFormed.ordered (h : WellFormed ⟨s, live⟩) : Ordered s live :=
  ⟨⟨h.ne_null, h.seg, h.current_mem⟩, h.tail_eq⟩

/-- Walking along the list finds one list only. -/
lemma Ordered.unique {live' : List Ptr} (h : Ordered s live) (h' : Ordered s live') :
    live = live' :=
  h.seg.unique h'.seg h.null_notMem h'.null_notMem

lemma Ordered.taskHead_eq_zero_iff (h : Ordered s live) : s.taskHead = 0 ↔ live = [] := by
  have hseg := h.seg
  cases live with
  | nil => exact iff_of_true hseg rfl
  | cons a live =>
    have ha : a ≠ 0 := h.ne_null a List.mem_cons_self
    exact iff_of_false (hseg.1 ▸ ha) (List.cons_ne_nil a live)

/-! ## Structures that differ in their links -/

/-- Only links of tasks have been written. -/
def LinksOnly (s s' : Sched) : Prop :=
  ∀ x, ∃ n p, s'.mem x = { s.mem x with next := n, prev := p }

lemma LinksOnly.refl (s : Sched) : LinksOnly s s := fun _ => ⟨_, _, rfl⟩

lemma LinksOnly.trans {s₁ s₂ : Sched} (h : LinksOnly s s₁) (h' : LinksOnly s₁ s₂) :
    LinksOnly s s₂ := by
  intro x
  obtain ⟨n, p, heq⟩ := h x
  obtain ⟨n', p', heq'⟩ := h' x
  exact ⟨n', p', by rw [heq', heq]⟩

lemma LinksOnly.process_eq {s' : Sched} (h : LinksOnly s s') (x : Ptr) :
    (s'.mem x).process = (s.mem x).process := by
  obtain ⟨n, p, heq⟩ := h x
  rw [heq]

lemma LinksOnly.mainTask_eq {s' : Sched} (h : LinksOnly s s') (x : Ptr) :
    (s'.mem x).mainTask = (s.mem x).mainTask := by
  obtain ⟨n, p, heq⟩ := h x
  rw [heq]

lemma linksOnly_setNext (s : Sched) (t v : Ptr) : LinksOnly s (s.setNext t v) := by
  intro x
  by_cases hx : x = t
  · subst hx
    exact ⟨v, (s.mem x).prev, mem_store_self _ _ _⟩
  · exact ⟨_, _, mem_store_of_ne _ _ hx⟩

lemma linksOnly_setPrev (s : Sched) (t v : Ptr) : LinksOnly s (s.setPrev t v) := by
  intro x
  by_cases hx : x = t
  · subst hx
    exact ⟨(s.mem x).next, v, mem_store_self _ _ _⟩
  · exact ⟨_, _, mem_store_of_ne _ _ hx⟩

lemma linksOnly_taskAppend (s : Sched) (t : Ptr) : LinksOnly s (taskAppend s t) := by
  rw [taskAppend]
  split_ifs
  · exact LinksOnly.refl s
  · exact (linksOnly_setNext s s.taskTail t).trans (linksOnly_setPrev _ t s.taskTail)

lemma linksOnly_taskFree (s : Sched) (t : Ptr) : LinksOnly s (taskFree s t) := by
  have hlink : LinksOnly s (linkPast s t) := by
    by_cases hprev : s.prev t = 0
    · rw [linkPast_of_eq hprev]
      exact LinksOnly.refl s
    · rw [linkPast_of_ne hprev]
      exact linksOnly_setNext s _ _
  exact hlink

/-! ## Appending a task -/

lemma Ordered.store (h : Ordered s live) (ht : t ∉ live) (v : Task) :
    Ordered (s.store t v) live := by
  refine ⟨⟨h.ne_null, h.seg.congr fun x hx => ?_, h.current_mem⟩, h.tail_eq⟩
  rw [next_store, Function.update_of_ne]
  rintro rfl
  exact ht hx

/-- A task without a successor is appended. -/
lemma Ordered.append (h : Ordered s live) (ht0 : t ≠ 0) (ht : t ∉ live) (hnext : s.next t = 0) :
    Ordered (taskAppend s t) (live ++ [t]) := by
  have hne_null : ∀ x ∈ live ++ [t], x ≠ 0 := by
    intro x hx
    rcases List.mem_append.mp hx with hx | hx
    · exact h.ne_null x hx
    · exact List.mem_singleton.mp hx ▸ ht0
  rcases List.eq_nil_or_concat live with rfl | ⟨l, z, hlz⟩
  · -- the first task of the list
    have happ : taskAppend s t = { s with taskHead := t, taskTail := t, currentTask := t } := by
      rw [taskAppend, if_pos (h.taskHead_eq_zero_iff.mpr rfl)]
    rw [happ]
    exact ⟨⟨hne_null, ⟨rfl, hnext⟩, fun _ => List.mem_singleton_self t⟩, rfl⟩
  · -- the task is linked behind the last one
    rw [List.concat_eq_append] at hlz
    subst hlz
    have htail : s.taskTail = z := h.tail_eq.trans List.getLastD_concat
    have happ : taskAppend s t = { (s.setNext z t).setPrev t z with taskTail := t } := by
      rw [taskAppend, if_neg fun hhead => absurd (h.taskHead_eq_zero_iff.mp hhead) (by simp), htail]
      simp only [show (s.setNext z t).taskTail = z from htail]
    have hlink : (taskAppend s t).next = Function.update s.next z t := by
      rw [happ]
      exact (next_setPrev _ _ _).trans (next_setNext _ _ _)
    have hzt : t ≠ z := fun heq => ht (heq ▸ List.mem_append_right l List.mem_cons_self)
    have hzl : z ∉ l := fun hmem =>
      (List.nodup_append.mp h.nodup).2.2 z hmem z List.mem_cons_self rfl
    obtain ⟨m, hseg, rfl, -⟩ := seg_append.mp h.seg
    refine ⟨⟨hne_null, ?_, fun _ => ?_⟩, ?_⟩
    · rw [List.append_assoc]
      refine seg_append.mpr ⟨m, ?_, rfl, ?_, ?_⟩
      · rw [show (taskAppend s t).taskHead = s.taskHead by rw [happ]; rfl]
        refine hseg.congr fun x hx => ?_
        rw [hlink, Function.update_of_ne]
        rintro rfl
        exact hzl hx
      · rw [hlink, Function.update_self]
      · rw [hlink, Function.update_of_ne hzt]
        exact hnext
    · rw [happ]
      exact List.mem_append_left _ (h.current_mem (by simp))
    · rw [happ, List.getLastD_concat]

/-! ## Taking tasks off -/

/-- The link back of a task that is taken off is the one that was right when it was appended. -/
lemma Ordered.taskFree_next (h : Ordered s (l₁ ++ t :: l₂)) (hprev : s.prev t = l₁.getLastD 0)
    (hx : x ∉ l₁) (hx0 : x ≠ 0) : (taskFree s t).next x = s.next x := by
  rw [TaskList.taskFree_next, linkPast_next_of_ne]
  rintro rfl
  rw [hprev] at hx hx0
  rcases List.eq_nil_or_concat l₁ with rfl | ⟨l, z, rfl⟩
  · exact hx0 rfl
  · rw [List.concat_eq_append, List.getLastD_concat] at hx
    exact hx (by simp)

/-- A task with a right link back is taken off. -/
lemma Ordered.taskFree (h : Ordered s (l₁ ++ t :: l₂)) (hprev : s.prev t = l₁.getLastD 0) :
    Ordered (taskFree s t) (l₁ ++ l₂) := by
  have hnodup : t ∉ l₁ ∧ t ∉ l₂ := by
    have hmid := (List.nodup_middle.mp h.nodup).notMem
    rwa [List.mem_append, not_or] at hmid
  have ht0 : t ≠ 0 := h.ne_null t (by simp)
  have hkeep : ∀ x, x ∉ l₁ → x ≠ 0 → (TaskList.taskFree s t).next x = s.next x :=
    fun x hx hx0 => h.taskFree_next hprev hx hx0
  obtain ⟨m, hseg₁, rfl, hseg₂⟩ := seg_append.mp h.seg
  -- the walk behind the task
  have hrest : Seg (TaskList.taskFree s m).next (s.next m) l₂ 0 := by
    refine hseg₂.congr fun x hx => hkeep x (fun hx₁ => ?_) (h.ne_null x (by simp [hx]))
    exact (List.nodup_append.mp h.nodup).2.2 x hx₁ x (List.mem_cons_of_mem _ hx) rfl
  have hwalk : Seg (TaskList.taskFree s m).next (TaskList.taskFree s m).taskHead (l₁ ++ l₂) 0 := by
    rw [taskFree_taskHead, ← TaskList.taskFree_next, hkeep m hnodup.1 ht0]
    rcases List.eq_nil_or_concat l₁ with rfl | ⟨l, z, rfl⟩
    · rw [if_pos (show m = s.taskHead from hseg₁.symm)]
      exact hrest
    · rw [List.concat_eq_append] at hprev hseg₁ hnodup ⊢
      rw [List.getLastD_concat] at hprev
      have hhead : m ≠ s.taskHead := by
        intro heq
        refine hnodup.1 (heq ▸ ?_)
        cases l with
        | nil => exact hseg₁.1 ▸ List.mem_cons_self
        | cons a l => exact hseg₁.1 ▸ List.mem_cons_self
      have hz0 : z ≠ 0 := h.ne_null z (by simp)
      obtain ⟨y, hsegl, rfl, hlast⟩ := seg_append.mp hseg₁
      have hyl : y ∉ l := by
        have hfront := (List.nodup_append.mp h.nodup).1
        rw [List.concat_eq_append] at hfront
        exact fun hmem => (List.nodup_append.mp hfront).2.2 y hmem y List.mem_cons_self rfl
      rw [if_neg hhead, List.append_assoc]
      refine seg_append.mpr ⟨y, hsegl.congr fun x hx => ?_, rfl, ?_⟩
      · rw [TaskList.taskFree_next, linkPast_next_of_ne]
        rw [hprev]
        rintro rfl
        exact hyl hx
      · rw [TaskList.taskFree_next, ← hprev, linkPast_next_prev s (hprev ▸ hz0),
          ← TaskList.taskFree_next]
        exact hrest
  refine ⟨⟨fun x hx => h.ne_null x ?_, hwalk, fun hne => ?_⟩, ?_⟩
  · rcases List.mem_append.mp hx with hx | hx
    · exact List.mem_append_left _ hx
    · exact List.mem_append_right _ (List.mem_cons_of_mem _ hx)
  · -- the scheduler goes on behind the task, or at the head
    rw [taskFree_currentTask, ← TaskList.taskFree_next, hkeep m hnodup.1 ht0]
    split_ifs with hcurrent hnext
    · cases hl : l₁ ++ l₂ with
      | nil => exact absurd hl hne
      | cons a l =>
        rw [hl] at hwalk
        exact hwalk.1 ▸ List.mem_cons_self
    · cases l₂ with
      | nil => exact absurd hseg₂ hnext
      | cons a l₂ => exact List.mem_append_right _ (hseg₂.1 ▸ List.mem_cons_self)
    · have hmem := h.current_mem (by simp)
      rcases List.mem_append.mp hmem with hmem | hmem
      · exact List.mem_append_left _ hmem
      · exact List.mem_append_right _ ((List.mem_cons.mp hmem).resolve_left (Ne.symm hcurrent))
  · rw [taskFree_taskTail, h.tail_eq]
    rcases List.eq_nil_or_concat l₂ with rfl | ⟨l, z, rfl⟩
    · rw [List.getLastD_concat, if_pos rfl, hprev, List.append_nil]
    · have hz : m ≠ z := fun heq => hnodup.2 (by simp [heq])
      have hlast : ∀ l' : List Ptr, (l' ++ l.concat z).getLastD 0 = z := by
        intro l'
        rw [List.concat_eq_append, ← List.append_assoc, List.getLastD_concat]
      rw [show l₁ ++ m :: l.concat z = (l₁ ++ [m]) ++ l.concat z by simp, hlast, hlast, if_neg hz]

/-- The error exit of the constructors frees a structure that is not on the list. -/
lemma Ordered.taskFree_of_notMem (h : Ordered s live) (ht0 : t ≠ 0) (ht : t ∉ live)
    (hprev : s.prev t = 0) : Ordered (TaskList.taskFree s t) live := by
  have hlink : linkPast s t = s := linkPast_of_eq hprev
  have hhead : t ≠ s.taskHead := by
    have hseg := h.seg
    rintro rfl
    cases live with
    | nil => exact ht0 hseg
    | cons a live => exact ht (hseg.1 ▸ List.mem_cons_self)
  have htail : t ≠ s.taskTail := by
    rintro rfl
    rw [h.tail_eq] at ht0 ht
    rcases List.mem_cons.mp (List.getLastD_mem_cons (l := live) (a := 0)) with h0 | hmem
    · exact ht0 h0
    · exact ht hmem
  have hcurrent : live ≠ [] → t ≠ s.currentTask := by
    rintro hne rfl
    exact ht (h.current_mem hne)
  refine ⟨⟨h.ne_null, ?_, fun hne => ?_⟩, ?_⟩
  · rw [TaskList.taskFree_next, hlink, taskFree_taskHead, if_neg hhead]
    exact h.seg
  · rw [taskFree_currentTask, if_neg (hcurrent hne)]
    exact h.current_mem hne
  · rw [taskFree_taskTail, if_neg htail]
    exact h.tail_eq

/-- The links back of the tasks of a process are right as they are taken off one after another:
each is the task in front, which does not belong to the process. -/
def Removable (s : Sched) (process : Ptr) (kept rest : List Ptr) : Prop :=
  ∀ l₁ t l₂, rest = l₁ ++ t :: l₂ → (s.mem t).process = process →
    s.prev t = (kept ++ l₁).getLastD 0 ∧ ∀ u ∈ l₁.getLast?, (s.mem u).process ≠ process

/-- Behind the tasks that have been visited the walk goes on along the list. -/
lemma Ordered.taskFreeAllLoop {process : Ptr} {rest : List Ptr} : ∀ {s : Sched} {kept : List Ptr}
    {cur : Ptr}, Ordered s (kept ++ rest) → Seg s.next cur rest 0 → Removable s process kept rest →
    ∃ s', taskFreeAllLoop process s cur = some s' ∧ LinksOnly s s' ∧
      Ordered s' (kept ++ rest.filter fun t => (s.mem t).process ≠ process) := by
  induction rest with
  | nil =>
    intro s kept cur h hseg _
    have hnull : cur = 0 := hseg
    rw [hnull, taskFreeAllLoop_null]
    exact ⟨s, rfl, LinksOnly.refl s, h⟩
  | cons a rest ih =>
    rintro s kept cur h ⟨rfl, hseg⟩ hremove
    have ha0 : cur ≠ 0 := h.ne_null cur (by simp)
    rw [taskFreeAllLoop_step, if_neg ha0]
    by_cases hown : (s.mem cur).process = process
    · -- the task is taken off
      have hprev := (hremove [] cur rest rfl hown).1
      rw [List.append_nil] at hprev
      have hcur : cur ∉ kept := fun hmem =>
        (List.nodup_append.mp h.nodup).2.2 cur hmem cur List.mem_cons_self rfl
      have hnext : ∀ x ∈ cur :: rest, (TaskList.taskFree s cur).next x = s.next x := by
        intro x hx
        refine h.taskFree_next hprev (fun hmem => ?_) (h.ne_null x (List.mem_append_right _ hx))
        exact (List.nodup_append.mp h.nodup).2.2 x hmem x hx rfl
      have hseg' : Seg (TaskList.taskFree s cur).next ((TaskList.taskFree s cur).next cur)
          rest 0 := by
        rw [hnext cur List.mem_cons_self]
        exact hseg.congr fun x hx => hnext x (List.mem_cons_of_mem _ hx)
      have hremove' : Removable (TaskList.taskFree s cur) process kept rest := by
        intro l₁ t l₂ hrest ht
        rw [taskFree_process] at ht
        obtain ⟨hlink, hfront⟩ := hremove (cur :: l₁) t l₂ (by rw [hrest]; rfl) ht
        simp only [taskFree_prev, taskFree_process]
        cases l₁ with
        | nil => exact absurd hown (hfront cur rfl)
        | cons b l₁ =>
          refine ⟨?_, fun u hu => hfront u hu⟩
          rw [hlink, List.getLastD_eq_getLast?, List.getLastD_eq_getLast?]
          simp [List.getLast?_append]
      obtain ⟨s', hloop, hlinks, hordered⟩ := ih (h.taskFree hprev) hseg' hremove'
      refine ⟨s', ?_, (linksOnly_taskFree s cur).trans hlinks, ?_⟩
      · simp only [hown, if_true]
        exact hloop
      · simp only [taskFree_process] at hordered
        rw [List.filter_cons_of_neg (by simpa using hown)]
        exact hordered
    · -- the walk goes on behind it
      have hkept : Ordered s ((kept ++ [cur]) ++ rest) := by simpa using h
      have hremove' : Removable s process (kept ++ [cur]) rest := by
        intro l₁ t l₂ hrest ht
        obtain ⟨hlink, hfront⟩ := hremove (cur :: l₁) t l₂ (by rw [hrest]; rfl) ht
        refine ⟨by simpa using hlink, fun u hu => hfront u ?_⟩
        cases l₁ with
        | nil => cases hu
        | cons b l₁ => exact hu
      obtain ⟨s', hloop, hlinks, hordered⟩ := ih hkept hseg hremove'
      refine ⟨s', ?_, hlinks, ?_⟩
      · simp only [hown, if_false]
        exact hloop
      · rw [List.filter_cons_of_pos (by simpa using hown)]
        simpa using hordered

/-- All tasks of a process are taken off. -/
lemma Ordered.taskFreeAllForProcess {process : Ptr} (h : Ordered s live)
    (hremove : Removable s process [] live) : ∃ s', taskFreeAllForProcess s process = some s' ∧
      LinksOnly s s' ∧ Ordered s' (live.filter fun t => (s.mem t).process ≠ process) :=
  Ordered.taskFreeAllLoop (show Ordered s ([] ++ live) from h) h.seg hremove

end SerpaeOS.TaskList
