import SerpaeOS.Task.Kept

/-!
# Hosts and guests

A process that hosts another one sleeps until its guest terminates; the flag
`currently_hosting` says that it does.  Loading a guest sets the flag, and terminating a guest
resets it.  Along a run the flags and the hosts fit together as long as no host is terminated
before its guest and no host has two guests when one of them is terminated.
-/

namespace SerpaeOS

open Bytes StepRun

/-- Loads that succeed, with a host or without one, and terminations. -/
inductive HostingOp
  | load (filename : List UInt8) (now : ℕ) (hosting : Ptr)
  | terminate (process : Ptr)

/-- One call.  A load that fails is not a step. -/
def hostingStep (s : System) : HostingOp → Option System
  | .load filename now hosting =>
    (processLoad filename now hosting s).bind fun (r, s') => if r.1 = 0 then some s' else none
  | .terminate process => (processTerminate process s).map Prod.snd

/-- The host of a load is a live process or none, and a live process other than process `0` is
terminated. -/
def HostingLegal (s : System) : HostingOp → Prop
  | .load _ _ hosting => hosting = 0 ∨ s.Live hosting
  | .terminate process => s.Live process ∧ process ≠ s.processes 0

/-- The hosts of live processes are live, and exactly the hosts have the flag. -/
structure HostingOk (s : System) : Prop where
  host_live : ∀ p, s.Live p → (s.process p).host ≠ 0 → s.Live (s.process p).host
  hosting_iff : ∀ p, s.Live p →
    ((s.process p).currentlyHosting = true ↔ ∃ q, s.Live q ∧ (s.process q).host = p)

/-- The process has no guest, and its host has no other guest. -/
def System.NoGuests (s : System) (process : Ptr) : Prop :=
  ∀ q, s.Live q → q ≠ process → (s.process q).host ≠ process ∧
    ((s.process process).host ≠ 0 → (s.process q).host ≠ (s.process process).host)

/-- When a program is loaded the structures of the live processes stay taken.  A process that is
terminated has no guest, and its host has no other one; if it is shown, no screen lies over the
structure of a live process. -/
def HostingSound (s : System) : HostingOp → Prop
  | .load filename _ _ => SafeLoad filename s ∧ ∀ q, s.Live q → s.KeptWhole q processSize
  | .terminate process => s.NoGuests process ∧
    (s.currentProcess = process → ScreensApart s.Live (fun _ => False) s)

structure HostingInv (s : System) : Prop extends TableInv s, HostingOk s

/-! ## One call -/

variable {s s' t : System} {p q hosting : Ptr} {slot : ℕ}

/-- After a load the new process is live, and those that were. -/
lemma ProcessLoaded.live_iff (h : ProcessLoaded p slot hosting s s')
    (hfree : s.processes slot = 0) (hp : p ≠ 0) : s'.Live q ↔ q = p ∨ s.Live q := by
  rw [System.Live, h.processes_eq]
  constructor
  · rintro ⟨hq, i, hi⟩
    by_cases hne : i = slot
    · rw [hne, Function.update_self] at hi
      exact Or.inl hi.symm
    · rw [Function.update_of_ne hne] at hi
      exact Or.inr ⟨hq, i, hi⟩
  · rintro (rfl | ⟨hq, i, hi⟩)
    · exact ⟨hp, slot, Function.update_self _ _ _⟩
    · refine ⟨hq, i, ?_⟩
      rw [Function.update_of_ne (fun heq => hq (by rw [← hi, heq, hfree])), hi]

/-- After a termination the other processes are live. -/
lemma ProcessTerminated.live_iff (h : ProcessTerminated p s s') (hinv : TableInv s)
    (hlive : s.Live p) : s'.Live q ↔ q ≠ p ∧ s.Live q := by
  obtain ⟨hp, k, rfl⟩ := hlive
  rw [System.Live, h.processes_eq, hinv.id_eq k hp]
  constructor
  · rintro ⟨hq, i, hi⟩
    have hne : i ≠ k := by
      rintro rfl
      rw [Function.update_self] at hi
      exact hq hi.symm
    rw [Function.update_of_ne hne] at hi
    refine ⟨fun heq => hne ?_, hq, i, hi⟩
    exact hinv.slot_unique (by rwa [hi]) (hi.trans heq)
  · rintro ⟨hne, hq, i, hi⟩
    refine ⟨hq, i, ?_⟩
    rw [Function.update_of_ne (fun heq => hne (by rw [← hi, heq])), hi]

lemma hostedBy_host (g : Ptr → Process) : (hostedBy g hosting q).host = (g q).host := by
  rw [hostedBy]
  split_ifs
  · by_cases hq : q = hosting
    · rw [hq, Function.update_self]
    · rw [Function.update_of_ne hq]
  · rfl

lemma hostedBy_currentlyHosting (g : Ptr → Process) :
    (hostedBy g hosting q).currentlyHosting = true ↔
      (hosting ≠ 0 ∧ q = hosting) ∨ (g q).currentlyHosting = true := by
  rw [hostedBy]
  by_cases hzero : hosting ≠ 0
  · rw [if_pos hzero]
    by_cases hq : q = hosting
    · rw [hq, Function.update_self]
      exact iff_of_true rfl (Or.inl ⟨hzero, rfl⟩)
    · rw [Function.update_of_ne hq]
      exact ⟨Or.inr, fun h => h.resolve_left fun heq => hq heq.2⟩
  · rw [if_neg hzero]
    exact ⟨Or.inr, fun h => h.resolve_left fun heq => hzero heq.1⟩

lemma System.wakeHost_host : (s.wakeHost p q).host = (s.process q).host := by
  rw [System.wakeHost]
  split_ifs
  · by_cases hq : q = (s.process p).host
    · rw [hq, Function.update_self]
    · rw [Function.update_of_ne hq]
  · rfl

/-- Only the host is woken. -/
lemma System.wakeHost_currentlyHosting (hq : q ≠ 0) :
    (s.wakeHost p q).currentlyHosting = true ↔
      q ≠ (s.process p).host ∧ (s.process q).currentlyHosting = true := by
  rw [System.wakeHost]
  by_cases hzero : (s.process p).host ≠ 0
  · rw [if_pos hzero]
    by_cases heq : q = (s.process p).host
    · rw [heq, Function.update_self]
      exact iff_of_false Bool.false_ne_true fun h => h.1 rfl
    · rw [Function.update_of_ne heq]
      exact ⟨fun h => ⟨heq, h⟩, fun h => h.2⟩
  · rw [if_neg hzero]
    exact ⟨fun h => ⟨fun heq => hzero (heq ▸ hq), h⟩, fun h => h.2⟩

/-- A new guest of a live process, or a new process without a host. -/
lemma HostingOk.loaded (h : HostingOk s) (hfree : s.processes slot = 0) (hp : p ≠ 0)
    (hload : ProcessLoaded p slot hosting s s') (hfresh : ¬ s.Live p)
    (hhosting : hosting = 0 ∨ s.Live hosting) : HostingOk s' := by
  have hlive : ∀ q, s'.Live q ↔ q = p ∨ s.Live q := fun q => hload.live_iff hfree hp
  obtain ⟨f, -, hhost, hflag, -, -, hprocess⟩ := hload.process_eq
  have hold : ∀ q, s.Live q → q ≠ p := by
    rintro q hq rfl
    exact hfresh hq
  have hself : (s'.process p).host = hosting := by
    rw [hprocess, hostedBy_host, Function.update_self, hhost]
  have hother : ∀ q, s.Live q → (s'.process q).host = (s.process q).host := by
    intro q hq
    rw [hprocess, hostedBy_host, Function.update_of_ne (hold q hq)]
  have hne : hosting ≠ p := by
    rintro rfl
    exact hhosting.elim hp hfresh
  refine ⟨fun q hq hnull => (hlive _).mpr (Or.inr ?_), fun q hq => ?_⟩
  · rcases (hlive q).mp hq with rfl | hq
    · rw [hself] at hnull ⊢
      exact hhosting.resolve_left hnull
    · rw [hother q hq] at hnull ⊢
      exact h.host_live q hq hnull
  have hset : (s'.process q).currentlyHosting = true ↔ (hosting ≠ 0 ∧ q = hosting) ∨
      (Function.update s.process p f q).currentlyHosting = true := by
    rw [hprocess, hostedBy_currentlyHosting]
  rw [hset]
  rcases (hlive q).mp hq with rfl | hlq
  · -- nobody has the new process as host
    rw [Function.update_self, hflag]
    refine iff_of_false (by simp [hne.symm]) ?_
    rintro ⟨g, hg, heq⟩
    rcases (hlive g).mp hg with rfl | hg
    · exact hne (hself ▸ heq)
    · rw [hother g hg] at heq
      exact hfresh (heq ▸ h.host_live g hg (heq ▸ hp))
  · rw [Function.update_of_ne (hold q hlq), h.hosting_iff q hlq]
    constructor
    · rintro (⟨-, rfl⟩ | ⟨g, hg, heq⟩)
      · exact ⟨p, (hlive p).mpr (Or.inl rfl), hself⟩
      · exact ⟨g, (hlive g).mpr (Or.inr hg), (hother g hg).trans heq⟩
    · rintro ⟨g, hg, heq⟩
      rcases (hlive g).mp hg with rfl | hg
      · rw [hself] at heq
        exact Or.inl ⟨heq ▸ hlq.1, heq.symm⟩
      · exact Or.inr ⟨g, hg, (hother g hg).symm.trans heq⟩

/-- A process without guests is terminated, and its host has no other guest. -/
lemma HostingOk.terminated (h : HostingOk s) (hinv : TableInv s) (hlp : s.Live p)
    (hsound : s.NoGuests p) (hterm : ProcessTerminated p s s') : HostingOk s' := by
  have hlive : ∀ q, s'.Live q ↔ q ≠ p ∧ s.Live q := fun q => hterm.live_iff hinv hlp
  have hhost : ∀ q, (s'.process q).host = (s.process q).host := by
    intro q
    rw [hterm.process_eq, System.wakeHost_host]
  refine ⟨fun q hq hnull => ?_, fun q hq => ?_⟩
  · obtain ⟨hne, hlq⟩ := (hlive q).mp hq
    rw [hhost] at hnull ⊢
    exact (hlive _).mpr ⟨(hsound q hlq hne).1, h.host_live q hlq hnull⟩
  obtain ⟨hne, hlq⟩ := (hlive q).mp hq
  rw [hterm.process_eq, System.wakeHost_currentlyHosting hlq.1, h.hosting_iff q hlq,
    ← hterm.process_eq]
  constructor
  · rintro ⟨hnot, g, hg, heq⟩
    refine ⟨g, (hlive g).mpr ⟨?_, hg⟩, (hhost g).trans heq⟩
    rintro rfl
    exact hnot heq.symm
  · rintro ⟨g, hg, heq⟩
    obtain ⟨hgp, hlg⟩ := (hlive g).mp hg
    rw [hhost] at heq
    refine ⟨fun hsame => ?_, g, hlg, heq⟩
    exact (hsound g hlg hgp).2 (hsame ▸ hlq.1) (heq.trans hsame)

/-- The structures lie off what is stored over. -/
lemma HostingInv.painted {A : ℕ → ℕ → Prop} (h : HostingInv s) (hpaint : Painted A s s')
    (hoff : ∀ q, s.Live q → A q processSize) : HostingInv s' := by
  have hlive : ∀ q, s'.Live q ↔ s.Live q := fun q => hpaint.live_iff
  have hprocess : ∀ q, s.Live q → s'.process q = s.process q := fun q hq =>
    hpaint.process_eq q (hoff q hq)
  refine ⟨h.toTableInv.painted hpaint hoff, ⟨fun q hq hne => ?_, fun q hq => ?_⟩⟩
  · have hlq := (hlive q).mp hq
    rw [hprocess q hlq] at hne ⊢
    exact (hlive _).mpr (h.host_live q hlq hne)
  · have hlq := (hlive q).mp hq
    rw [hprocess q hlq, h.hosting_iff q hlq]
    refine exists_congr fun g => ?_
    rw [hlive g]
    exact and_congr_right fun hg => by rw [hprocess g hg]

/-- A process is terminated, and if it was shown another one is shown. -/
lemma HostingInv.terminate (h : HostingInv s) (hlive : s.Live p) (hid : (s.process p).id ≠ 0)
    (hsound : HostingSound s (.terminate p)) (hterm : ProcessTerminated p s t)
    (hshown : Reshown p s t s') : HostingInv s' := by
  have hinv : HostingInv t := ⟨h.toTableInv.terminated hlive hid hterm,
    h.toHostingOk.terminated h.toTableInv hlive hsound.1 hterm⟩
  have hleft : ∀ q, t.Live q → s.Live q := fun q hq => ((hterm.live_iff h.toTableInv hlive).mp hq).2
  exact hinv.painted (hterm.painted hshown hsound.2 hlive (hleft _ hinv.current)) fun q hq =>
    Or.inl ⟨rfl, hleft q hq⟩

/-- A call that meets the condition. -/
lemma HostingInv.step (h : HostingInv s) {op : HostingOp} (hl : HostingLegal s op)
    (hc : HostingSound s op) (hstep : hostingStep s op = some s') : HostingInv s' := by
  cases op with
  | load filename now hosting =>
    obtain ⟨⟨r, t⟩, hrun, hres⟩ := Option.bind_eq_some_iff.mp hstep
    obtain ⟨hzero, rfl⟩ : r.1 = 0 ∧ t = s' := by simpa using hres
    rcases ends_processLoad _ _ hrun with ⟨-, rfl, -⟩ | ⟨slot, hslot, hfree, hp, hload, -⟩
    · exact absurd hzero (by decide)
    rcases hload with ⟨hneg, -⟩ | ⟨-, hload⟩
    · omega
    have hfresh : ¬ s.Live (kzalloc s.kernel.memory.heap processSize).2 := fun hlive =>
      (hc.2 _ hlive).kept.ne_kzalloc _ rfl
    exact ⟨h.toTableInv.loaded hslot hfree hp hload hfresh,
      h.toHostingOk.loaded hfree hp hload hfresh hl⟩
  | terminate process =>
    obtain ⟨⟨res, t⟩, hrun, rfl⟩ := Option.map_eq_some_iff.mp hstep
    obtain ⟨hlive, hne⟩ := hl
    rcases ends_processTerminate _ _ hrun with ⟨-, -, m, rfl⟩ | ⟨-, -, hid, t, hterm, hshown⟩
    · obtain ⟨h1, h2⟩ := h
      exact ⟨⟨h1.id_eq, h1.slot_lt, h1.boot, h1.current⟩, ⟨h2.host_live, h2.hosting_iff⟩⟩
    · exact h.terminate hlive hid hc hterm hshown

/-- In every run from a consistent table in which the structures of live processes stay taken and
off the screens that are stored over, no host is terminated before its guest, and no guest of a
host with several guests is terminated, hosts are live and exactly these have the flag. -/
theorem hosts_live_flags_set {ops : List HostingOp} (h : HostingInv s)
    (hl : Guarded hostingStep HostingLegal s ops) (hc : Guarded hostingStep HostingSound s ops) :
    Throughout hostingStep HostingOk s ops :=
  throughout_of_guarded (fun _ h => h.toHostingOk)
    (fun _ _ _ h hl hc hstep => h.step hl hc hstep) h hl hc

/-! ## A guest and its host -/

section small

variable {k : Kernel} {fields : ℕ → Process}

lemma smallSystem_live : (smallSystem k fields).Live p ↔ ∃ i < 3, p = slotProcess i := by
  constructor
  · rintro ⟨hp, i, rfl⟩
    by_cases hi : i < 3
    · exact ⟨i, hi, if_pos hi⟩
    · exact absurd (if_neg hi) hp
  · rintro ⟨i, hi, rfl⟩
    exact ⟨Nat.ne_of_gt (Nat.add_pos_left (by decide) _), i, if_pos hi⟩

lemma slotProcess_inj {i j : ℕ} (h : slotProcess i = slotProcess j) : i = j :=
  Nat.eq_of_mul_eq_mul_left (by decide) (Nat.add_left_cancel h)

lemma smallSystem_process {i : ℕ} (hi : i < 3) :
    (smallSystem k fields).process (slotProcess i) = fields i := by
  have hne : ∀ j, i ≠ j → slotProcess i ≠ slotProcess j := fun j hj h => hj (slotProcess_inj h)
  simp only [smallSystem]
  by_cases h0 : i = 0
  · rw [h0, if_pos rfl]
  by_cases h1 : i = 1
  · rw [h1, if_neg (by decide), if_pos rfl]
  obtain rfl : i = 2 := by omega
  rw [if_neg (hne 0 h0), if_neg (hne 1 h1), if_pos rfl]

lemma smallSystem_tableInv (hid : ∀ i < 3, (fields i).id = i) :
    TableInv (smallSystem k fields) := by
  have hslot : ∀ i, (smallSystem k fields).processes i ≠ 0 →
      i < 3 ∧ (smallSystem k fields).processes i = slotProcess i := by
    intro i hi
    by_cases hlt : i < 3
    · exact ⟨hlt, if_pos hlt⟩
    · exact absurd (if_neg hlt) hi
  refine ⟨fun i hi => ?_, fun i hi => ?_, ?_, ?_⟩
  · obtain ⟨hlt, heq⟩ := hslot i hi
    rw [heq, smallSystem_process hlt, hid i hlt]
  · exact (hslot i hi).1.trans (by decide)
  · exact (by decide : slotProcess 0 ≠ 0)
  · exact smallSystem_live.mpr ⟨0, by decide, rfl⟩

/-- Structures and screens have places of their own. -/
lemma smallSystem_screensApart (hscreen : ∀ i < 3, ∃ j, (fields i).screen = slotScreen j) :
    ScreensApart (smallSystem k fields).Live (fun t => ∃ i, t = slotTask i)
      (smallSystem k fields) := by
  have hoff : ∀ q, (smallSystem k fields).Live q →
      ∃ j, ((smallSystem k fields).process q).screen = slotScreen j := by
    intro q hq
    obtain ⟨i, hi, rfl⟩ := smallSystem_live.mp hq
    rw [smallSystem_process hi]
    exact hscreen i hi
  refine ⟨fun q r hq hr => ?_, fun q t hq ht => ?_⟩
  · obtain ⟨j, hj⟩ := hoff q hq
    obtain ⟨i, -, rfl⟩ := smallSystem_live.mp hr
    rw [hj, OffScreen, Overlap, slotScreen, slotProcess, screenSize, processSize]
    omega
  · obtain ⟨j, hj⟩ := hoff q hq
    obtain ⟨i, rfl⟩ := ht
    rw [hj, OffScreen, Overlap, slotScreen, slotTask, screenSize, taskSize]
    omega

/-- Process `host` hosts process `guest`. -/
def hostedFields (host guest i : ℕ) : Process :=
  { slotFields i with
    screen := slotScreen (if i = guest then host else i)
    host := if i = guest then slotProcess host else 0
    currentlyHosting := decide (i = host) }

lemma hostedFields_screensApart (host guest : ℕ) :
    ScreensApart (smallSystem k (hostedFields host guest)).Live (fun t => ∃ i, t = slotTask i)
      (smallSystem k (hostedFields host guest)) :=
  smallSystem_screensApart fun _ _ => ⟨_, rfl⟩

lemma hostedFields_hostingInv {host guest : ℕ} (hh : host < 3) (hg : guest < 3) :
    HostingInv (smallSystem k (hostedFields host guest)) := by
  refine ⟨smallSystem_tableInv fun i _ => rfl, ⟨fun p hp hne => ?_, fun p hp => ?_⟩⟩
  · obtain ⟨i, hi, rfl⟩ := smallSystem_live.mp hp
    rw [smallSystem_process hi, hostedFields] at hne ⊢
    by_cases hguest : i = guest
    · simp only [if_pos hguest]
      exact smallSystem_live.mpr ⟨host, hh, rfl⟩
    · exact absurd (if_neg hguest) hne
  · obtain ⟨i, hi, rfl⟩ := smallSystem_live.mp hp
    rw [smallSystem_process hi, hostedFields, decide_eq_true_iff]
    constructor
    · rintro rfl
      refine ⟨slotProcess guest, smallSystem_live.mpr ⟨guest, hg, rfl⟩, ?_⟩
      rw [smallSystem_process hg, hostedFields]
      exact if_pos rfl
    · rintro ⟨q, hq, heq⟩
      obtain ⟨j, hj, rfl⟩ := smallSystem_live.mp hq
      rw [smallSystem_process hj, hostedFields] at heq
      by_cases hguest : j = guest
      · exact (slotProcess_inj ((if_pos hguest).symm.trans heq)).symm
      · exact absurd ((if_neg hguest).symm.trans heq).symm hp.1

end small

/-- A guest is terminated. -/
theorem hosts_live_flags_set_guest : Throughout hostingStep HostingOk
    (smallSystem (mountedKernel 1) (hostedFields 0 1)) [.terminate (slotProcess 1)] := by
  refine hosts_live_flags_set (hostedFields_hostingInv (by decide) (by decide))
    ⟨⟨smallSystem_live.mpr ⟨1, by decide, rfl⟩, by decide⟩, fun _ _ => trivial⟩
    ⟨⟨fun q hq hne => ?_, fun hshown => absurd hshown (by decide)⟩, fun _ _ => trivial⟩
  obtain ⟨i, hi, rfl⟩ := smallSystem_live.mp hq
  have hnone : (hostedFields 0 1 i).host = 0 := if_neg fun heq => hne (by rw [heq])
  rw [smallSystem_process hi, smallSystem_process (by decide), hnone]
  exact ⟨by decide, fun _ => by decide⟩

/-- A host is terminated before its guest. -/
theorem not_hosts_live_flags_set : HostingInv (smallSystem (mountedKernel 1) (hostedFields 1 2)) ∧
    Guarded hostingStep HostingLegal (smallSystem (mountedKernel 1) (hostedFields 1 2))
      [.terminate (slotProcess 1)] ∧
    ¬ Throughout hostingStep HostingOk (smallSystem (mountedKernel 1) (hostedFields 1 2))
      [.terminate (slotProcess 1)] := by
  have hlive : (smallSystem (mountedKernel 1) (hostedFields 1 2)).Live (slotProcess 1) :=
    smallSystem_live.mpr ⟨1, by decide, rfl⟩
  have hinv : HostingInv (smallSystem (mountedKernel 1) (hostedFields 1 2)) :=
    hostedFields_hostingInv (by decide) (by decide)
  refine ⟨hinv, ⟨⟨hlive, by decide⟩, fun _ _ => trivial⟩, ?_⟩
  rintro ⟨-, hall⟩
  obtain ⟨r, s', hterm, rfl⟩ :=
    @runs_processTerminate_small (mountedKernel 1) (hostedFields 1 2) rfl (by decide)
  have hok : HostingOk s' := hall s' (by rw [hostingStep, hterm, Option.map_some])
  rcases ends_processTerminate _ _ hterm with ⟨hres, -⟩ | ⟨-, -, -, t, hdone, hshown⟩
  · exact absurd hres (by decide)
  obtain rfl : s' = t := (hshown.resolve_right fun h => absurd h.1 (by decide)).2
  -- the guest is still there, with its host
  have hguest : s'.Live (slotProcess 2) := (hdone.live_iff hinv.toTableInv hlive).mpr
    ⟨by decide, smallSystem_live.mpr ⟨2, by decide, rfl⟩⟩
  have hhost : (s'.process (slotProcess 2)).host = slotProcess 1 := by
    rw [hdone.process_eq, System.wakeHost_host, smallSystem_process (by decide)]
    rfl
  have hdead := hok.host_live _ hguest (by rw [hhost]; decide)
  rw [hhost] at hdead
  exact ((hdone.live_iff hinv.toTableInv hlive).mp hdead).1 rfl

end SerpaeOS
