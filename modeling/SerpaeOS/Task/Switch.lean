import SerpaeOS.Task.System

/-!
# What a switch leaves

`process_switch` stores the video memory in the screen of the current process, and then shows the
screen of another one.  The tables of the kernel and its heap stay, and so do the structures that
lie over neither of the two screens.
-/

namespace SerpaeOS

open Bytes

/-- Stores in memory have left the tables of the kernel and the heap, and the structures of an
address and a size of this kind. -/
structure Painted (A : ℕ → ℕ → Prop) (s s' : System) : Prop where
  processes_eq : s'.processes = s.processes
  current_eq : s'.currentProcess = s.currentProcess
  memory_eq : s'.kernel.memory = s.kernel.memory
  open_iff : ∀ i, s'.kernel.fileDescriptors i = none ↔ s.kernel.fileDescriptors i = none
  sched_eq : ∃ mem, s'.sched = { s.sched with mem := mem }
  process_eq : ∀ q, A q processSize → s'.process q = s.process q
  task_eq : ∀ t, A t taskSize → s'.sched.mem t = s.sched.mem t

/-- The structure does not lie over the screen. -/
def OffScreen (screen q n : ℕ) : Prop := ¬ Overlap screen screenSize q n

instance (screen q n : ℕ) : Decidable (OffScreen screen q n) := inferInstanceAs (Decidable (¬ _))

/-- The structure of one of these processes or of one of these tasks. -/
def InUse (P T : Ptr → Prop) (q n : ℕ) : Prop := (n = processSize ∧ P q) ∨ (n = taskSize ∧ T q)

/-- The structures of these processes and tasks do not lie over the screens of the processes. -/
structure ScreensApart (P T : Ptr → Prop) (s : System) : Prop where
  process_off : ∀ q r, P q → P r → OffScreen (s.process q).screen r processSize
  task_off : ∀ q t, P q → T t → OffScreen (s.process q).screen t taskSize

variable {P T : Ptr → Prop} {A A' : ℕ → ℕ → Prop} {s s' t : System}
  {p q n screen screen' : ℕ} {l : List UInt8}

lemma Painted.refl (A : ℕ → ℕ → Prop) (s : System) : Painted A s s :=
  ⟨rfl, rfl, rfl, fun _ => Iff.rfl, ⟨s.sched.mem, rfl⟩, fun _ _ => rfl, fun _ _ => rfl⟩

lemma Painted.trans (h : Painted A s t) (h' : Painted A t s') : Painted A s s' := by
  refine ⟨h'.processes_eq.trans h.processes_eq, h'.current_eq.trans h.current_eq,
    h'.memory_eq.trans h.memory_eq, fun i => (h'.open_iff i).trans (h.open_iff i), ?_,
    fun q hq => (h'.process_eq q hq).trans (h.process_eq q hq),
    fun t ht => (h'.task_eq t ht).trans (h.task_eq t ht)⟩
  obtain ⟨mem, hmem⟩ := h.sched_eq
  obtain ⟨mem', hmem'⟩ := h'.sched_eq
  exact ⟨mem', by rw [hmem', hmem]⟩

lemma Painted.mono (h : Painted A s s') (hA : ∀ q n, A' q n → A q n) : Painted A' s s' :=
  ⟨h.processes_eq, h.current_eq, h.memory_eq, h.open_iff, h.sched_eq,
    fun q hq => h.process_eq q (hA _ _ hq), fun t ht => h.task_eq t (hA _ _ ht)⟩

/-- The current process does not matter for what is stored. -/
lemma Painted.setCurrent (h : Painted A s s') (p : Ptr) :
    Painted A { s with currentProcess := p } { s' with currentProcess := p } :=
  ⟨h.processes_eq, rfl, h.memory_eq, h.open_iff, h.sched_eq, h.process_eq, h.task_eq⟩

/-- What a switch stores: the cells of the screen that was shown, its cursor and its flag, and the
flag of the other screen. -/
def System.switchStores (s : System) (screen screen' : ℕ) : List (ℕ × List UInt8) :=
  [(screen + 12, s.terminal.video.screenBytes), (screen + 4, numberBytes 4 s.terminal.col),
    (screen + 8, numberBytes 4 s.terminal.row), (screen, [0]), (screen', [1])]

/-! ## Stores -/

lemma overlaid_of_not {α : Type} {a size : ℕ} {f : Ptr → α → α} {g : Ptr → α}
    (h : ¬ Overlap a n q size) : overlaid a n size f g q = g q := if_neg h

lemma System.painted_storeBytes (s : System) (a : ℕ) (l : List UInt8) :
    Painted (fun q n => ¬ Overlap a l.length q n) s (s.storeBytes a l) :=
  ⟨rfl, rfl, rfl, fun _ => Option.map_eq_none_iff, ⟨_, rfl⟩, fun _ => overlaid_of_not,
    fun _ => overlaid_of_not⟩

/-- A part of the screen. -/
lemma OffScreen.part (h : OffScreen screen q n) {k m : ℕ} (hk : k + m ≤ screenSize) :
    ¬ Overlap (screen + k) m q n := by
  rintro ⟨h₁, h₂⟩
  exact h ⟨by omega, by omega⟩

@[simp] lemma CellMemory.length_screenBytes (m : CellMemory) : m.screenBytes.length = 4000 := by
  rw [CellMemory.screenBytes, List.length_map, List.length_range]

/-- A store in the screen of a process whose structure does not lie over it. -/
lemma Painted.storeScreen (h : Painted (OffScreen screen) s t)
    (hscreen : (s.process p).screen = screen) (hp : OffScreen screen p processSize) {k : ℕ}
    (hk : k + l.length ≤ screenSize) :
    Painted (OffScreen screen) s (t.storeBytes ((t.process p).screen + k) l) := by
  rw [h.process_eq p hp, hscreen]
  exact h.trans ((t.painted_storeBytes _ l).mono fun q n hq => hq.part hk)

lemma System.painted_processSaveVideo (hscreen : (s.process p).screen = screen)
    (hp : OffScreen screen p processSize) :
    Painted (OffScreen screen) s (s.processSaveVideo p) := by
  have h₁ : Painted (OffScreen screen) s _ := (Painted.refl _ s).storeScreen hscreen hp
    (l := s.terminal.video.screenBytes) (k := 12) (by simp [screenSize])
  have h₂ := h₁.storeScreen hscreen hp (l := numberBytes 4 s.terminal.col) (k := 4)
    (by simp [screenSize])
  have h₃ := h₂.storeScreen hscreen hp (l := numberBytes 4 s.terminal.row) (k := 8)
    (by simp [screenSize])
  exact h₃.storeScreen hscreen hp (l := [0]) (k := 0) (by simp [screenSize])

lemma System.painted_processLoadVideo (hscreen : (s.process p).screen = screen) :
    Painted (OffScreen screen) s (s.processLoadVideo p) := by
  have hstore : Painted (OffScreen screen) s (s.storeBytes screen [1]) :=
    (s.painted_storeBytes _ _).mono fun q n hq => hq.part (k := 0) (by simp [screenSize])
  rw [System.processLoadVideo, hscreen]
  exact ⟨hstore.processes_eq, hstore.current_eq, hstore.memory_eq, hstore.open_iff,
    hstore.sched_eq, hstore.process_eq, hstore.task_eq⟩

/-- Whatever the screens lie over, the tables and the heap stay. -/
lemma System.painted_switchTo (s : System) (p : Ptr) :
    Painted (fun _ _ => False) { s with currentProcess := p } (s.switchTo p) := by
  have hstore : ∀ {t : System} (a : ℕ) (l : List UInt8), Painted (fun _ _ => False) s t →
      Painted (fun _ _ => False) s (t.storeBytes a l) := fun a l h =>
    h.trans ((System.painted_storeBytes _ a l).mono fun _ _ hq => hq.elim)
  have hsave : Painted (fun _ _ => False) s (s.processSaveVideo s.currentProcess) :=
    hstore _ _ (hstore _ _ (hstore _ _ (hstore _ _ (Painted.refl _ s))))
  have hload := (s.processSaveVideo s.currentProcess).painted_processLoadVideo (p := p) rfl
  exact (hsave.trans (hload.mono fun _ _ hq => hq.elim)).setCurrent p

/-- The structures that lie over neither screen stay, if those of the two processes do not. -/
lemma System.painted_switchTo_off (hscreen : (s.process s.currentProcess).screen = screen)
    (hscreen' : (s.process p).screen = screen')
    (hcurrent : OffScreen screen s.currentProcess processSize)
    (hp : OffScreen screen p processSize) :
    Painted (fun q n => OffScreen screen q n ∧ OffScreen screen' q n)
      { s with currentProcess := p } (s.switchTo p) := by
  have hsave := s.painted_processSaveVideo hscreen hcurrent
  have hsame : ((s.processSaveVideo s.currentProcess).process p).screen = screen' := by
    rw [hsave.process_eq p hp, hscreen']
  have hload := System.painted_processLoadVideo hsame
  exact ((hsave.mono fun _ _ h => h.1).trans (hload.mono fun _ _ h => h.2)).setCurrent p

lemma ScreensApart.mono {P' T' : Ptr → Prop} (h : ScreensApart P T s) (hP : ∀ q, P' q → P q)
    (hT : ∀ t, T' t → T t) : ScreensApart P' T' s :=
  ⟨fun q r hq hr => h.process_off q r (hP q hq) (hP r hr),
    fun q t hq ht => h.task_off q t (hP q hq) (hT t ht)⟩

lemma System.processSaveVideo_screenStores (hscreen : (s.process p).screen = screen)
    (hp : OffScreen screen p processSize) : (s.processSaveVideo p).screenStores = s.screenStores ++
      [(screen + 12, s.terminal.video.screenBytes), (screen + 4, numberBytes 4 s.terminal.col),
        (screen + 8, numberBytes 4 s.terminal.row), (screen, [0])] := by
  have hstore : ∀ {t : System} {k : ℕ} {l : List UInt8}, (t.process p).screen = screen →
      k + l.length ≤ screenSize → ((t.storeBytes (screen + k) l).process p).screen = screen :=
    fun ht hk => (congrArg Process.screen (overlaid_of_not (hp.part hk))).trans ht
  have h₁ := hstore hscreen (k := 12) (l := s.terminal.video.screenBytes) (by simp [screenSize])
  have h₂ := hstore h₁ (k := 4) (l := numberBytes 4 s.terminal.col) (by simp [screenSize])
  have h₃ := hstore h₂ (k := 8) (l := numberBytes 4 s.terminal.row) (by simp [screenSize])
  have hterminal : ∀ {t : System} {a : ℕ} {l : List UInt8},
      (t.storeBytes a l).terminal = t.terminal := rfl
  have hlog : ∀ {t : System} {a : ℕ} {l : List UInt8},
      (t.storeBytes a l).screenStores = t.screenStores ++ [(a, l)] := rfl
  simp only [System.processSaveVideo, hscreen, hterminal, h₁, h₂, h₃, hlog, List.append_assoc,
    List.cons_append, List.nil_append]

/-- The stores of a switch, if they do not change the two structures. -/
lemma System.switchTo_screenStores (hscreen : (s.process s.currentProcess).screen = screen)
    (hscreen' : (s.process p).screen = screen')
    (hcurrent : OffScreen screen s.currentProcess processSize)
    (hp : OffScreen screen p processSize) :
    (s.switchTo p).screenStores = s.screenStores ++ s.switchStores screen screen' := by
  have hsave := s.painted_processSaveVideo hscreen hcurrent
  have hflag : (s.switchTo p).screenStores = (s.processSaveVideo s.currentProcess).screenStores ++
      [(((s.processSaveVideo s.currentProcess).process p).screen, [1])] := rfl
  rw [hflag, hsave.process_eq p hp, hscreen', s.processSaveVideo_screenStores hscreen hcurrent,
    List.append_assoc]
  rfl

lemma ScreensApart.congr (h : ScreensApart P T s)
    (hscreen : ∀ q, P q → (t.process q).screen = (s.process q).screen) : ScreensApart P T t := by
  refine ⟨fun q r hq hr => ?_, fun q r hq hr => ?_⟩
  · rw [hscreen q hq]
    exact h.process_off q r hq hr
  · rw [hscreen q hq]
    exact h.task_off q r hq hr

lemma ScreensApart.off (h : ScreensApart P T s) (hp : P p) (hq : InUse P T q n) :
    OffScreen (s.process p).screen q n := by
  rcases hq with ⟨rfl, hq⟩ | ⟨rfl, hq⟩
  · exact h.process_off p q hp hq
  · exact h.task_off p q hp hq

/-- A switch between two processes leaves the structures that lie off their screens. -/
lemma ScreensApart.painted_switchTo (h : ScreensApart P T s) (hcurrent : P s.currentProcess)
    (hp : P p) : Painted (InUse P T) { s with currentProcess := p } (s.switchTo p) :=
  (System.painted_switchTo_off rfl rfl (h.process_off _ _ hcurrent hcurrent)
    (h.process_off _ _ hcurrent hp)).mono fun _ _ hq => ⟨h.off hcurrent hq, h.off hp hq⟩

end SerpaeOS
