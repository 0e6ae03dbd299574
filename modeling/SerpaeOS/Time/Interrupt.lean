import SerpaeOS.Task.Ticks
import SerpaeOS.Time.Rtc

/-!
# The interrupt of the timer

`idt_clock` reads the time before it calls `task_next`.  The local variable `century` of
`cmos_read_RTC` is never set, and the loop compares it with the century in `now`, so a tick of the
clock comes to `task_next` only if the right byte happens to lie on the stack.
-/

namespace SerpaeOS

open Links Prog TaskList RoundRobin

/-- What `idt_clock` changes: the tasks, the time, and the number of accesses to the chip. -/
structure TimerState where
  system : System
  now : CmosDateTime
  access : ℕ

/-- The task that a tick of the clock resumes. -/
def idtClock (chip : Cmos) (century : UInt8) : StateT TimerState Option Ptr := fun s => do
  let (now, access) ← cmosReadRtc chip century s.now s.access
  let (task, system) ← taskNext s.system
  return (task, { system := system, now := now, access := access })

/-- Ticks of the clock, each of which finds its own byte on the stack. -/
def idtClocks (chip : Cmos) : List UInt8 → StateT TimerState Option (List Ptr)
  | [] => return []
  | century :: centuries => do
    let task ← idtClock chip century
    let tasks ← idtClocks chip centuries
    return task :: tasks

variable {chip : Cmos} {s : TimerState} {live : List Ptr}

/-- The chip is left alone again and again. -/
def QuietAgain (chip : Cmos) : Prop := ∀ k, ∃ j, k ≤ j ∧ Quiet chip j 21

/-- A tick comes to `task_next` if and only if the byte on the stack is that of `now`. -/
lemma runs_idtClock_iff (hchip : QuietAgain chip) {century : UInt8}
    {Q : Ptr → UInt8 → System → Prop} :
    Runs (idtClock chip century) s (fun task s' => Q task s'.now.century s'.system) ↔
      s.now.century = century ∧
        Runs taskNext s.system fun task system => Q task s.now.century system := by
  obtain ⟨j, hkj, hquiet⟩ := hchip s.access
  constructor
  · rintro ⟨task, s', hrun, hq⟩
    obtain ⟨⟨now, access⟩, hread, hrun⟩ := Option.bind_eq_some_iff.mp hrun
    obtain ⟨⟨task', system⟩, hnext, hrun⟩ := Option.bind_eq_some_iff.mp hrun
    obtain ⟨rfl, rfl⟩ := Prod.mk.inj (Option.some.inj hrun)
    obtain ⟨hnow, hcentury⟩ := ends_cmosReadRtc_century now access hread
    exact ⟨hcentury, task', system, hnext, hnow ▸ hq⟩
  · rintro ⟨hcentury, task, system, hnext, hq⟩
    obtain ⟨now, access, hread, -⟩ := (runs_cmosReadRtc_iff hkj hquiet).mpr hcentury
    have hnow := (ends_cmosReadRtc_century now access hread).1
    refine ⟨task, ⟨system, now, access⟩, ?_, (congrArg (Q task · system) hnow).mpr hq⟩
    rw [idtClock, hread]
    change (taskNext s.system).bind _ = _
    rw [hnext]
    rfl

/-- Ticks that read the time resume the tasks that `task_next` alone resumes. -/
lemma runs_idtClocks_iff (hchip : QuietAgain chip) {centuries : List UInt8}
    {Q : List Ptr → System → Prop} :
    Runs (idtClocks chip centuries) s (fun tasks s' => Q tasks s'.system) ↔
      (∀ century ∈ centuries, s.now.century = century) ∧
        Runs (clockTicks centuries.length) s.system Q := by
  induction centuries generalizing s Q with
  | nil =>
    rw [idtClocks, List.length_nil, clockTicks, runs_pure_iff, runs_pure_iff]
    exact (and_iff_right fun _ hc => absurd hc List.not_mem_nil).symm
  | cons century centuries ih =>
    rw [idtClocks, List.length_cons, clockTicks]
    simp only [runs_bind_iff, runs_pure_iff, ih]
    rw [runs_idtClock_iff hchip (Q := fun task c system => (∀ century ∈ centuries, c = century) ∧
      Runs (clockTicks centuries.length) system fun tasks system => Q (task :: tasks) system)]
    rw [List.forall_mem_cons, and_assoc, runs_and_left]

/-- The ticks of the clock go on for ever if and only if each finds the century of `now` on the
stack, and the last task of the list is awake. -/
theorem idtClocks_forever_iff (hchip : QuietAgain chip) (h : InOrder s.system.sched live)
    (hne : live ≠ []) (stack : ℕ → UInt8) :
    (∀ n, Runs (idtClocks chip ((List.range n).map stack)) s fun tasks s' =>
      clockTicks n s.system = some (tasks, s'.system)) ↔
      (∀ n, s.now.century = stack n) ∧ ¬ s.system.Asleep (live.getLast hne) := by
  rw [← System.awake_iff, ← turns_forever_iff h.nodup hne (h.current_mem hne)]
  have hticks : ∀ n, Runs (clockTicks n) s.system (fun tasks system =>
      clockTicks n s.system = some (tasks, system)) ↔
      turns s.system.awake live n s.system.sched.currentTask ≠ none := by
    intro n
    rw [← runs_clockTicks_iff h hne n]
    exact ⟨fun hruns => hruns.mono fun _ _ _ => trivial,
      fun ⟨tasks, system, hrun, _⟩ => ⟨tasks, system, hrun, hrun⟩⟩
  have hrun : ∀ n, Runs (idtClocks chip ((List.range n).map stack)) s (fun tasks s' =>
      clockTicks n s.system = some (tasks, s'.system)) ↔ (∀ i < n, s.now.century = stack i) ∧
      turns s.system.awake live n s.system.sched.currentTask ≠ none := by
    intro n
    rw [runs_idtClocks_iff hchip (Q := fun tasks system => clockTicks n s.system =
      some (tasks, system)), List.forall_mem_map, List.length_map, List.length_range, hticks]
    simp only [List.mem_range]
  constructor
  · intro hall
    exact ⟨fun n => ((hrun (n + 1)).mp (hall (n + 1))).1 n (Nat.lt_succ_self n),
      fun n => ((hrun n).mp (hall n)).2⟩
  · rintro ⟨hcentury, hturns⟩ n
    exact (hrun n).mpr ⟨fun i _ => hcentury i, hturns n⟩

/-- A chip that is never found updating and shows midnight. -/
def steadyChip : Cmos := fun _ _ => 0

lemma quietAgain_steadyChip : QuietAgain steadyChip := fun k =>
  ⟨k, Nat.le_refl k, fun _ _ _ => (by decide : (0 : UInt8) &&& 0x80 = 0), fun _ _ _ _ _ => rfl⟩

/-- Process `1` sleeps, and the time has not been read. -/
def guestTimer : TimerState where
  system := smallSystem (mountedKernel 1) (hostedFields 1 2)
  now := ⟨0, 0, 0, 0, 0, 0, 0⟩
  access := 0

/-- With zeros on the stack the ticks go on for ever; with another byte there at the second tick
they do not. -/
theorem idtClocks_forever_iff_guest :
    (∀ n, Runs (idtClocks steadyChip ((List.range n).map fun _ => 0)) guestTimer
      fun tasks s' => clockTicks n guestTimer.system = some (tasks, s'.system)) ∧
    ¬ ∀ n, Runs (idtClocks steadyChip ((List.range n).map fun i => if i = 1 then 0x10 else 0))
      guestTimer fun tasks s' => clockTicks n guestTimer.system = some (tasks, s'.system) := by
  have horder : InOrder guestTimer.system.sched smallTasks :=
    inOrder_of_wellFormed smallTasks_wellFormed
  constructor
  · exact (idtClocks_forever_iff quietAgain_steadyChip horder (List.cons_ne_nil _ _) _).mpr
      ⟨fun _ => rfl, guest_awake⟩
  · intro hall
    have hcentury := ((idtClocks_forever_iff quietAgain_steadyChip horder
      (List.cons_ne_nil _ _) _).mp hall).1 1
    exact absurd hcentury (by decide)

end SerpaeOS
