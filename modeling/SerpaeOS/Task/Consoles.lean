import Mathlib.Logic.Function.Iterate
import SerpaeOS.Task.Screen

/-!
# Consoles

Each process has a console of its own, of which only the current one is in the video memory.  A run
of prints, clears and switches is compared with terminals that are never switched, one for each
process, which only take the commands of the processes that use its screen.  Clearing a screen that
is not shown prints a space to each of its cells; the last of them moves the screen up.
-/

namespace SerpaeOS

open CellMemory StepRun

/-! ## Clearing -/

/-- What `isr80h_command9_clrscr` does to a screen that is not shown. -/
def clearHidden (attr colour : UInt8) (s : Screen) : Screen :=
  let s := (List.range vgaHeight).foldl (fun s _ =>
    (List.range vgaWidth).foldl (fun s _ => processWritechar attr s space colour) s)
      { s with x := 0, y := 0 }
  { s with x := 0, y := 0 }

/-- `isr80h_command9_clrscr`, called by a task of the process. -/
def Screens.command9Clrscr (st : Screens) (colour : UInt8) (process : Ptr) : Screens :=
  let screen := st.screen (st.screenOf process)
  if screen.currentScreen then { st with terminal := clrscr st.terminal colour }
  else
    { st with
      screen := Function.update st.screen (st.screenOf process)
        (clearHidden (terminalGetAttr st.terminal) colour screen) }

variable {s : Screen} {t t' : Terminal} {m : CellMemory} {c attr colour : UInt8}

lemma graphicsPut_char (m : CellMemory) (c : UInt8) (x y : ℕ) (k : ℤ) :
    (m.graphicsPut c x y).char k = m.char k := by
  have hcolour : (c.toUInt16 <<< 8).toUInt8 = 0 := by
    rw [← UInt8.toBitVec_inj]
    ext i hi
    simp
  rw [CellMemory.graphicsPut, put_char]
  split_ifs with hk
  · rw [UInt16.toUInt8_or, hcolour, hk]
    simp
  · rfl

/-- The attributes change, the characters do not. -/
lemma graphicsDrawLine_char (m : CellMemory) (c : UInt8) (y : ℕ) (k : ℤ) :
    (m.graphicsDrawLine c y).char k = m.char k := by
  refine List.foldlRecOn _ _ (motive := fun m' : CellMemory => m'.char k = m.char k) rfl ?_
  intro m' hm i _
  rw [graphicsPut_char, hm]

lemma graphicsDrawLine_inside {y : ℕ} (h : m.Inside) (hy : y < 25) (c : UInt8) :
    (m.graphicsDrawLine c y).Inside := by
  refine List.foldlRecOn _ _ h fun m hm i hi => hm.put ?_ _
  have hi' := List.mem_range.mp hi
  rw [vgaWidth] at hi' ⊢
  constructor <;> omega

lemma clrscrLine_spec (t : Terminal) (y : ℕ) :
    (clrscrLine t y).col = t.col ∧ (clrscrLine t y).row = t.row ∧
      ∀ k, (clrscrLine t y).video.char k =
        if (y * 80 : ℕ) ≤ k ∧ k < (y * 80 + 80 : ℕ) then space else t.video.char k := by
  have hline : ∀ n : ℕ, ∀ t' : Terminal, (List.range n).foldl (fun t x =>
      terminalPutchar t x y space (terminalGetAttr t)) t = t' → t'.col = t.col ∧ t'.row = t.row ∧
        ∀ k, t'.video.char k =
          if (y * 80 : ℕ) ≤ k ∧ k < (y * 80 + n : ℕ) then space else t.video.char k := by
    intro n
    induction n with
    | zero =>
      rintro _ rfl
      exact ⟨rfl, rfl, fun k => (if_neg (by omega)).symm⟩
    | succ n ih =>
      rintro _ rfl
      obtain ⟨hcol, hrow, hchar⟩ := ih _ rfl
      rw [List.range_succ, List.foldl_append, List.foldl_cons, List.foldl_nil, terminalPutchar]
      refine ⟨hcol, hrow, fun k => ?_⟩
      rw [put_char, terminalMakeChar_toUInt8, hchar, vgaWidth]
      by_cases hk : k = (y * 80 + n : ℕ)
      · rw [if_pos hk, if_pos (by omega)]
      · rw [if_neg hk]
        exact if_congr (by omega) rfl rfl
  exact hline 80 _ rfl

lemma clrscrLine_inside {y : ℕ} (h : t.video.Inside) (hy : y < 25) :
    (clrscrLine t y).video.Inside := by
  refine List.foldlRecOn _ _ (motive := fun t' : Terminal => t'.video.Inside) h fun t ht x hx => ?_
  have hx' := List.mem_range.mp hx
  rw [vgaWidth] at hx'
  refine ht.put ?_ _
  rw [vgaWidth]
  constructor <;> omega

/-- A cleared terminal has a space in each cell, and the cursor in the first one. -/
lemma clrscr_char (t : Terminal) (colour : UInt8) {k : ℤ} (hk : OnScreen k) :
    (clrscr t colour).video.char k = space := by
  have hlines : ∀ n : ℕ, ((List.range n).foldl (fun t y =>
      clrscrLine { t with video := t.video.graphicsDrawLine colour y } y) t).video.char k =
        if k < (n * 80 : ℕ) then space else t.video.char k := by
    intro n
    induction n with
    | zero => exact (if_neg (by have := hk.1; omega)).symm
    | succ n ih =>
      rw [List.range_succ, List.foldl_append, List.foldl_cons, List.foldl_nil,
        (clrscrLine_spec _ _).2.2, graphicsDrawLine_char, ih]
      by_cases hlt : k < (n * 80 : ℕ)
      · rw [if_neg (by omega), if_pos hlt, if_pos (by omega)]
      · rw [if_neg hlt]
        exact if_congr (by omega) rfl rfl
  exact (hlines 25).trans (if_pos (by have := hk.2; omega))

@[simp] lemma clrscr_col (t : Terminal) (colour : UInt8) : (clrscr t colour).col = 0 := rfl

@[simp] lemma clrscr_row (t : Terminal) (colour : UInt8) : (clrscr t colour).row = 0 := rfl

lemma clrscr_inside (h : t.video.Inside) (colour : UInt8) : (clrscr t colour).Inside := by
  refine ⟨by simp, by simp, ?_⟩
  simp only [clrscr, setCursor]
  refine List.foldlRecOn _ _ (motive := fun t' : Terminal => t'.video.Inside) h fun t ht y hy => ?_
  have hy' := List.mem_range.mp hy
  exact clrscrLine_inside (graphicsDrawLine_inside ht hy' colour) hy'

/-- Spaces from the first cell on, before the last one is reached. -/
lemma processWritechar_spaces (attr colour : UInt8) (shown : Bool) (m : CellMemory) {n : ℕ}
    (hn : n < 2000) : ∃ m' : CellMemory,
      (fun s => processWritechar attr s space colour)^[n] ⟨shown, 0, 0, m⟩ =
        ⟨shown, (n % 80 : ℕ), (n / 80 : ℕ), m'⟩ ∧
      ∀ k, m'.char k = if 0 ≤ k ∧ k < n then space else m.char k := by
  induction n with
  | zero => exact ⟨m, rfl, fun k => (if_neg (by omega)).symm⟩
  | succ n ih =>
    obtain ⟨m', hrun, hchar⟩ := ih (by omega)
    refine ⟨m'.put n (terminalMakeChar space colour), ?_, fun k => ?_⟩
    · have hindex : ((n / 80 : ℕ) : ℤ) * vgaWidth + (n % 80 : ℕ) = n := by
        rw [vgaWidth]
        omega
      rw [Function.iterate_succ_apply', hrun, processWritechar_plain (by decide),
        processPlain_eq (by omega) (by omega) (by omega) (by omega) (by omega), hindex]
      congr 1
      · split_ifs <;> omega
      · split_ifs <;> omega
    · rw [put_char, terminalMakeChar_toUInt8, hchar]
      by_cases hk : k = n
      · rw [if_pos hk, if_pos (by omega)]
      · rw [if_neg hk]
        exact if_congr (by omega) rfl rfl

lemma clearHidden_eq (attr colour : UInt8) (s : Screen) : clearHidden attr colour s =
    { (fun s => processWritechar attr s space colour)^[2000] { s with x := 0, y := 0 } with
      x := 0, y := 0 } := by
  have hline : (fun (s : Screen) (_ : ℕ) => (List.range vgaWidth).foldl (fun s _ =>
      processWritechar attr s space colour) s) =
        fun s _ => (fun s => processWritechar attr s space colour)^[80] s := by
    funext s i
    rw [List.foldl_const (fun s => processWritechar attr s space colour), List.length_range,
      vgaWidth]
  rw [clearHidden, hline, List.foldl_const ((fun s => processWritechar attr s space colour)^[80]),
    List.length_range, ← Function.iterate_mul, vgaHeight]

/-- The space for the last cell moves the screen up first, with what was in this cell. -/
lemma clearHidden_char (attr colour : UInt8) (s : Screen) {k : ℤ} (hk : OnScreen k) :
    (clearHidden attr colour s).video.char k = if k = 1919 then s.video.char 1999 else space := by
  obtain ⟨shown, x, y, m⟩ := s
  obtain ⟨m', hrun, hchar⟩ := processWritechar_spaces attr colour shown m
    (by decide : 1999 < 2000)
  have hstep : (fun s => processWritechar attr s space colour)^[2000] ⟨shown, 0, 0, m⟩ =
      processPlain attr ⟨shown, 79, 24, m'⟩ space colour := by
    rw [Function.iterate_succ_apply', hrun, processWritechar_plain (by decide)]
    rfl
  rw [clearHidden_eq]
  simp only
  rw [hstep, processPlain_last]
  simp only
  rw [put_char, terminalMakeChar_toUInt8, processScrollDown_video,
    scroll_char (fun _ => terminalMakeChar_toUInt8 _ _) hk]
  have hk' := hk
  obtain ⟨hk₀, hk₁⟩ := hk'
  by_cases hlast : k = 1999
  · rw [if_pos hlast, if_neg (by omega)]
  · rw [if_neg hlast]
    by_cases hline : k < 1920
    · rw [if_pos hline, hchar]
      by_cases hend : k = 1919
      · rw [if_pos hend, if_neg (by omega), hend]
        rfl
      · rw [if_neg hend, if_pos (by omega)]
    · rw [if_neg hline, if_neg (by omega)]

/-! ## Terminals that show the same -/

lemma Terminal.Shows.symm (h : t.Shows t') : t'.Shows t :=
  ⟨h.col_eq.symm, h.row_eq.symm, fun i hi => (h.char_eq i hi).symm⟩

lemma Terminal.Shows.scrollDown (h : t.Shows t') : (scrollDown t).Shows (scrollDown t') := by
  refine ⟨h.col_eq, h.row_eq, fun i hi => ?_⟩
  rw [scrollDown_video, scrollDown_video, scroll_char (fun _ => terminalMakeChar_toUInt8 _ _) hi,
    scroll_char (fun _ => terminalMakeChar_toUInt8 _ _) hi]
  by_cases hlast : i < 1920
  · rw [if_pos hlast, if_pos hlast]
    exact h.char_eq _ ⟨by have := hi.1; omega, by omega⟩
  · rw [if_neg hlast, if_neg hlast]

/-- The cursors moved in the same way. -/
lemma Terminal.Shows.move (h : t.Shows t') (f g : ℕ → ℕ) :
    Terminal.Shows { t with row := f t.row, col := g t.col }
      { t' with row := f t'.row, col := g t'.col } :=
  ⟨congrArg g h.col_eq, congrArg f h.row_eq, h.char_eq⟩

lemma Terminal.Shows.plain (h : t.Shows t') (c colour colour' : UInt8) :
    (terminalPlain t c colour).Shows (terminalPlain t' c colour') := by
  have hstore : ∀ {t t' : Terminal}, t.Shows t' →
      (terminalStore t c colour).Shows (terminalStore t' c colour') := by
    intro t t' h
    refine ⟨?_, ?_, fun i hi => ?_⟩
    · simp only [terminalStore, h.col_eq]
    · simp only [terminalStore, terminalPutchar, h.col_eq, h.row_eq]
    · simp only [terminalStore, terminalPutchar]
      rw [h.col_eq, h.row_eq]
      exact put_char_congr h.char_eq rfl _ _ _ i hi
  rw [terminalPlain, terminalPlain, h.col_eq, h.row_eq]
  by_cases hlast : t'.col = 79 ∧ t'.row = 24
  · rw [if_pos hlast, if_pos hlast]
    exact hstore h.scrollDown
  · rw [if_neg hlast, if_neg hlast]
    exact hstore h

lemma Terminal.Shows.backspace (h : t.Shows t') :
    (terminalBackspace t).Shows (terminalBackspace t') := by
  rw [terminalBackspace, terminalBackspace]
  simp only [h.col_eq, h.row_eq]
  by_cases hzero : t'.row = 0 ∧ t'.col = 0
  · rwa [if_pos hzero, if_pos hzero]
  rw [if_neg hzero, if_neg hzero]
  by_cases hcol : t'.col ≤ 0
  · rw [if_pos hcol, if_pos hcol]
    have hback := h.move (fun _ => (t'.row + 2 ^ 16 - 1) % 2 ^ 16) fun _ => vgaWidth - 1
    exact (hback.plain space 15 15).move (fun row => (row + 2 ^ 16 - 1) % 2 ^ 16)
      fun _ => vgaWidth - 1
  · rw [if_neg hcol, if_neg hcol]
    have hback := h.move (fun _ => t'.row) fun _ => (t'.col + 2 ^ 16 - 1) % 2 ^ 16
    exact (hback.plain space 15 15).move (fun row => row) fun col => (col + 2 ^ 16 - 1) % 2 ^ 16

/-- Two terminals that show the same do so after any character, with whatever colour. -/
lemma Terminal.Shows.writechar (h : t.Shows t') (c colour colour' : UInt8) :
    (terminalWritechar t c colour).Shows (terminalWritechar t' c colour') := by
  rw [terminalWritechar, terminalWritechar]
  simp only [h.col_eq, h.row_eq]
  split_ifs with hline hlast hfeed hlast hbell hback htab hcol
  · exact ⟨rfl, h.scrollDown.row_eq, h.scrollDown.char_eq⟩
  · exact h.move (fun _ => (t'.row + 1) % 2 ^ 16) fun _ => 0
  · exact h.scrollDown
  · exact h.move (fun _ => (t'.row + 1) % 2 ^ 16) fun _ => t'.col
  · exact h
  · exact h.backspace
  · exact (h.move (fun _ => t'.row) fun _ => 79).plain c colour colour'
  · exact (h.move (fun _ => t'.row) fun _ => (t'.col + 4) % 2 ^ 16).plain c colour colour'
  · exact h.plain c colour colour'

/-- A character of `print`. -/
lemma Terminal.Shows.print (h : t.Shows t') (message : List UInt8) :
    (print t message).Shows (print t' message) := by
  induction message generalizing t t' with
  | nil => exact h
  | cons c message ih => exact ih (h.writechar c _ _)

lemma Terminal.Shows.clrscr (t t' : Terminal) (colour : UInt8) :
    (clrscr t colour).Shows (clrscr t' colour) :=
  ⟨(clrscr_col t colour).trans (clrscr_col t' colour).symm,
    (clrscr_row t colour).trans (clrscr_row t' colour).symm,
    fun _ hi => (clrscr_char t colour hi).trans (clrscr_char t' colour hi).symm⟩

lemma Terminal.Shows.showFits_iff (h : t.Shows t') (c : UInt8) : ShowFits t c ↔ ShowFits t' c := by
  rw [ShowFits, ShowFits, h.col_eq, h.row_eq]
  by_cases hrow : t'.row < 24
  · rw [h.char_eq _ ⟨by omega, by rw [vgaWidth]; omega⟩,
      h.char_eq _ ⟨by omega, by rw [vgaWidth]; omega⟩]
  · simp only [hrow, false_and, and_false]

/-! ## The consoles of the processes -/

/-- What happens to the screens: a character that is printed for a process, a process that clears
its screen, and a switch. -/
inductive ConsoleOp where
  | print (c : UInt8) (process : Ptr)
  | clear (colour : UInt8) (process : Ptr)
  | switch (process : Ptr)

/-- The process that gives the command, or is switched to. -/
def ConsoleOp.process : ConsoleOp → Ptr
  | .print _ process => process
  | .clear _ process => process
  | .switch process => process

/-- The command on the screens. -/
def Screens.consoleOp (st : Screens) : ConsoleOp → Screens
  | .print c process => st.processPrint [c] process
  | .clear colour process => st.command9Clrscr colour process
  | .switch process => st.processSwitch process

/-- The command on a terminal that is never switched. -/
def ConsoleOp.own (t : Terminal) : ConsoleOp → Terminal
  | .print c _ => SerpaeOS.print t [c]
  | .clear colour _ => clrscr t colour
  | .switch _ => t

/-- A terminal that takes the commands of the processes with the same screen as this one. -/
def Screens.ownConsole (st : Screens) (process : Ptr) (ops : List ConsoleOp) (t : Terminal) :
    Terminal :=
  (ops.filter fun op => st.screenOf op.process = st.screenOf process).foldl ConsoleOp.own t

/-- The command does the same on the screens as on the terminal of its own.  What is shown only has
to keep the cursor on the screen.  On a screen that is not shown, a character has to be one that
both terminals take alike, and when it is cleared there is a space in its last cell. -/
def ConsoleOp.Fits (st : Screens) : ConsoleOp → Prop
  | .print c process =>
    if (st.screen (st.screenOf process)).currentScreen then TerminalFits st.terminal c
    else ShowFits (st.processSwitch process).terminal c
  | .clear _ process =>
    (st.screen (st.screenOf process)).currentScreen ∨
      (st.processSwitch process).terminal.video.char 1999 = space
  | .switch _ => True

instance (st : Screens) : ∀ op, Decidable (ConsoleOp.Fits st op)
  | .print _ _ => inferInstanceAs (Decidable (ite _ _ _))
  | .clear _ _ => inferInstanceAs (Decidable (_ ∨ _))
  | .switch _ => inferInstanceAs (Decidable True)

/-- The screen of the process as `process_switch` saves it. -/
def Screens.saved (st : Screens) (process : Ptr) : Screen :=
  (st.processSaveVideo st.current).screen (st.screenOf process)

variable {st : Screens} {p q r : Ptr}

lemma Screens.saved_shown (st : Screens) (h : st.screenOf p = st.screenOf st.current) : st.saved p =
    ⟨false, st.terminal.col, st.terminal.row,
      (st.screen (st.screenOf st.current)).video.copyScreen st.terminal.video⟩ := by
  rw [Screens.saved, Screens.processSaveVideo, h]
  exact Function.update_self _ _ _

lemma Screens.saved_hidden (st : Screens) (h : st.screenOf p ≠ st.screenOf st.current) :
    st.saved p = st.screen (st.screenOf p) :=
  Function.update_of_ne h _ _

lemma Screens.saved_congr (h : st.screenOf p = st.screenOf q) : st.saved p = st.saved q := by
  rw [Screens.saved, h, Screens.saved]

/-- What is seen of a process after a switch to it. -/
lemma Screens.processSwitch_shows :
    (st.processSwitch p).terminal.Shows t ↔ (st.saved p).RevealedAs t := by
  constructor
  · rintro ⟨hcol, hrow, hchar⟩
    exact ⟨hcol, hrow, fun i hi => (copyScreen_char _ _ hi).symm.trans (hchar i hi)⟩
  · rintro ⟨hcol, hrow, hchar⟩
    exact ⟨hcol, hrow, fun i hi => (copyScreen_char _ _ hi).trans (hchar i hi)⟩

/-- What is saved of the screen that is shown is what is shown. -/
lemma Screens.agree_saved_iff (st : Screens) (hin : st.terminal.Inside)
    (h : st.screenOf p = st.screenOf st.current) :
    Agree t (st.saved p) ↔ st.terminal.Shows t := by
  rw [st.saved_shown h]
  constructor
  · rintro ⟨-, -, hx, hy, hchar⟩
    exact ⟨Int.ofNat_inj.mp hx, Int.ofNat_inj.mp hy,
      fun i hi => (copyScreen_char _ _ hi).symm.trans (hchar i hi)⟩
  · rintro ⟨hcol, hrow, hchar⟩
    refine ⟨hcol ▸ hin.col_lt, hrow ▸ hin.row_lt, congrArg _ hcol, congrArg _ hrow, ?_⟩
    exact fun i hi => (copyScreen_char _ _ hi).trans (hchar i hi)

lemma CellMemory.Inside.copyScreen (h : m.Inside) (src : CellMemory) :
    (m.copyScreen src).Inside := by
  intro i hi
  rcases List.mem_append.mp hi with hi | hi
  · exact h i hi
  · obtain ⟨n, hn, rfl⟩ := List.mem_map.mp hi
    have hn' := List.mem_range.mp hn
    exact ⟨Int.natCast_nonneg n, by simp only [Int.ofNat_eq_natCast]; omega⟩

/-- A switch puts the cursor on the screen. -/
lemma Screens.processSwitch_cursor (st : Screens) (p : Ptr) :
    (st.processSwitch p).terminal.col < 80 ∧ (st.processSwitch p).terminal.row < 25 := by
  have hcol := setCursor_col
    { st.terminal with video := st.terminal.video.copyScreen (st.saved p).video }
    (u16 (st.saved p).x) (u16 (st.saved p).y)
  have hrow := setCursor_row
    { st.terminal with video := st.terminal.video.copyScreen (st.saved p).video }
    (u16 (st.saved p).x) (u16 (st.saved p).y)
  exact ⟨lt_of_eq_of_lt hcol (by omega), lt_of_eq_of_lt hrow (by omega)⟩

lemma Screens.processSwitch_inside (h : st.terminal.Inside) (p : Ptr) :
    (st.processSwitch p).terminal.Inside :=
  ⟨(st.processSwitch_cursor p).1, (st.processSwitch_cursor p).2, h.video.copyScreen _⟩

/-- The screens are the terminals `v` of the processes. -/
structure Consoles (live : Set Ptr) (st : Screens) (v : Ptr → Terminal) : Prop where
  current : st.current ∈ live
  shown_iff : ∀ p ∈ live, (st.screen (st.screenOf p)).currentScreen = true ↔
    st.screenOf p = st.screenOf st.current
  inside : st.terminal.Inside
  agree : ∀ p ∈ live, Agree (v p) (st.saved p)

variable {live : Set Ptr} {v : Ptr → Terminal}

/-- A switch shows the terminal of the process, or that of one with the same screen. -/
lemma Consoles.seen (h : Consoles live st v) (hq : q ∈ live)
    (hscreen : st.screenOf p = st.screenOf q) : (st.processSwitch p).terminal.Shows (v q) := by
  rw [Screens.processSwitch_shows, Screens.saved_congr hscreen]
  exact (h.agree q hq).revealedAs

lemma Consoles.shows (h : Consoles live st v) (hp : p ∈ live)
    (hshown : st.screenOf p = st.screenOf st.current) : st.terminal.Shows (v p) :=
  (st.agree_saved_iff h.inside hshown).mp (h.agree p hp)

/-- A process whose screen is shown writes to the terminal. -/
lemma Consoles.write_shown (h : Consoles live st v) (hp : st.screenOf p = st.screenOf st.current)
    {f : Terminal → Terminal} (hin : (f st.terminal).Inside)
    (hf : ∀ t, st.terminal.Shows t → (f st.terminal).Shows (f t)) :
    Consoles live { st with terminal := f st.terminal } fun r =>
      if st.screenOf p = st.screenOf r then f (v r) else v r := by
  refine ⟨h.current, h.shown_iff, hin, fun r hr => ?_⟩
  by_cases hscreen : st.screenOf p = st.screenOf r
  · have hshown : st.screenOf r = st.screenOf st.current := hscreen ▸ hp
    rw [if_pos hscreen]
    exact (Screens.agree_saved_iff { st with terminal := f st.terminal } hin hshown).mpr
       (hf _ (h.shows hr hshown))
  · have hhidden : st.screenOf r ≠ st.screenOf st.current := fun heq =>
      hscreen (hp.trans heq.symm)
    have hagree := h.agree r hr
    rw [st.saved_hidden hhidden] at hagree
    rw [if_neg hscreen, Screens.saved_hidden { st with terminal := f st.terminal } hhidden]
    exact hagree

/-- A process whose screen is not shown writes to its buffer. -/
lemma Consoles.write_hidden (h : Consoles live st v) (hp : st.screenOf p ≠ st.screenOf st.current)
    {f : Terminal → Terminal} {s' : Screen} (hflag : s'.currentScreen = false)
    (hf : ∀ r ∈ live, st.screenOf p = st.screenOf r →
      Agree (v r) (st.screen (st.screenOf p)) → Agree (f (v r)) s') :
    Consoles live { st with screen := Function.update st.screen (st.screenOf p) s' } fun r =>
      if st.screenOf p = st.screenOf r then f (v r) else v r := by
  set st' : Screens :=
    { st with screen := Function.update st.screen (st.screenOf p) s' } with hst'
  refine ⟨h.current, fun r hr => ?_, h.inside, fun r hr => ?_⟩
  · by_cases hscreen : st.screenOf r = st.screenOf p
    · simp only [hst', hscreen, Function.update_self, hflag, hp, Bool.false_eq_true]
    · simp only [hst', Function.update_of_ne hscreen]
      exact h.shown_iff r hr
  · have hagree := h.agree r hr
    by_cases hscreen : st.screenOf p = st.screenOf r
    · have hhidden : st.screenOf r ≠ st.screenOf st.current := hscreen ▸ hp
      rw [st.saved_hidden hhidden, ← hscreen] at hagree
      rw [if_pos hscreen, st'.saved_hidden hhidden]
      simp only [hst', ← hscreen, Function.update_self]
      exact hf r hr hscreen hagree
    · rw [if_neg hscreen]
      by_cases hshown : st.screenOf r = st.screenOf st.current
      · rw [st.agree_saved_iff h.inside hshown] at hagree
        exact (st'.agree_saved_iff h.inside hshown).mpr hagree
      · rw [st.saved_hidden hshown] at hagree
        rw [st'.saved_hidden hshown]
        simp only [hst', Function.update_of_ne (Ne.symm hscreen)]
        exact hagree

/-- A switch changes none of the consoles. -/
lemma Consoles.switch (h : Consoles live st v) (hp : p ∈ live) :
    Consoles live (st.processSwitch p) v := by
  have hin := Screens.processSwitch_inside h.inside p
  -- the other screens are as they were saved
  have hother : ∀ r, st.screenOf r ≠ st.screenOf p →
      (st.processSwitch p).screen (st.screenOf r) = st.saved r := fun r hr =>
    Function.update_of_ne hr _ _
  have hself : ((st.processSwitch p).screen (st.screenOf p)).currentScreen = true := by
    simp [Screens.processSwitch, Screens.processLoadVideo, Screens.processSaveVideo]
  refine ⟨hp, fun r hr => ?_, hin, fun r hr => ?_⟩
  · by_cases hscreen : st.screenOf r = st.screenOf p
    · refine ⟨fun _ => hscreen, fun _ => ?_⟩
      rw [← hself]
      exact congrArg (fun a => ((st.processSwitch p).screen a).currentScreen) hscreen
    · have hfalse : (st.saved r).currentScreen = false := by
        by_cases hshown : st.screenOf r = st.screenOf st.current
        · rw [st.saved_shown hshown]
        · rw [st.saved_hidden hshown, ← Bool.not_eq_true, h.shown_iff r hr]
          exact hshown
      refine ⟨fun htrue => ?_, fun heq => absurd heq hscreen⟩
      exact absurd ((congrArg Screen.currentScreen (hother r hscreen)).symm.trans htrue)
        (by simp [hfalse])
  · by_cases hscreen : st.screenOf r = st.screenOf p
    · exact ((st.processSwitch p).agree_saved_iff hin hscreen).mpr (h.seen hr hscreen.symm)
    · rw [(st.processSwitch p).saved_hidden hscreen]
      exact (hother r hscreen).symm ▸ h.agree r hr

/-! ## Commands -/

lemma processWritechar_currentScreen (attr : UInt8) (s : Screen) (c colour : UInt8) :
    (processWritechar attr s c colour).currentScreen = s.currentScreen := by
  have hplain : ∀ (s : Screen) (c colour : UInt8),
      (processPlain attr s c colour).currentScreen = s.currentScreen := by
    intro s c colour
    rw [processPlain]
    split_ifs <;> rfl
  have hback : (processBackspace attr s).currentScreen = s.currentScreen := by
    rw [processBackspace]
    split_ifs
    · rfl
    · exact hplain _ space attr
    · exact hplain _ space attr
  rw [processWritechar]
  split_ifs
  · rfl
  · rfl
  · rfl
  · rfl
  · exact hback
  · exact hplain s c colour

lemma iterate_currentScreen (attr colour : UInt8) (n : ℕ) (s : Screen) :
    ((fun s => processWritechar attr s space colour)^[n] s).currentScreen = s.currentScreen := by
  induction n with
  | zero => rfl
  | succ n ih =>
    rw [Function.iterate_succ_apply']
    exact (processWritechar_currentScreen attr _ space colour).trans ih

lemma clearHidden_currentScreen (attr colour : UInt8) (s : Screen) :
    (clearHidden attr colour s).currentScreen = s.currentScreen := by
  have hflag : ∀ n : ℕ, Screen.currentScreen
      { (fun s => processWritechar attr s space colour)^[n] { s with x := 0, y := 0 } with
        x := 0, y := 0 } = s.currentScreen := fun n => iterate_currentScreen attr colour n _
  rw [clearHidden_eq]
  exact hflag 2000

/-- The two ways to clear a screen agree if there is a space in its last cell. -/
lemma agree_clear (h : s.video.char 1999 = space) (t : Terminal) (attr colour colour' : UInt8) :
    Agree (clrscr t colour) (clearHidden attr colour' s) := by
  refine ⟨by simp, by simp, rfl, rfl, fun i hi => ?_⟩
  rw [clearHidden_char attr colour' s hi, clrscr_char t colour hi, h, ite_self]

@[simp] lemma Screens.consoleOp_screenOf (st : Screens) (op : ConsoleOp) :
    (st.consoleOp op).screenOf = st.screenOf := by
  cases op with
  | print c p =>
    rw [Screens.consoleOp, Screens.processPrint]
    split_ifs <;> rfl
  | clear colour p =>
    rw [Screens.consoleOp, Screens.command9Clrscr]
    split_ifs <;> rfl
  | switch p => rfl

lemma Consoles.print (h : Consoles live st v) (hp : p ∈ live)
    (hfits : ConsoleOp.Fits st (.print c p)) :
    Consoles live (st.processPrint [c] p) fun r =>
      if st.screenOf p = st.screenOf r then SerpaeOS.print (v r) [c] else v r := by
  rw [ConsoleOp.Fits] at hfits
  rw [Screens.processPrint]
  split_ifs at hfits ⊢ with hflag
  · have hshown := (h.shown_iff p hp).mp hflag
    exact h.write_shown (f := fun t => SerpaeOS.print t [c]) hshown
      (terminalWritechar_inside h.inside hfits) fun t ht => ht.print [c]
  · have hhidden := mt (h.shown_iff p hp).mpr hflag
    refine h.write_hidden (f := fun t => SerpaeOS.print t [c]) hhidden ?_
      fun r hr hscreen hagree => ?_
    · exact (processWritechar_currentScreen _ _ _ _).trans (Bool.not_eq_true _ ▸ hflag)
    · exact hagree.writechar (((h.seen hr hscreen).showFits_iff c).mp hfits) _ _ _

lemma Consoles.clear (h : Consoles live st v) (hp : p ∈ live)
    (hfits : ConsoleOp.Fits st (.clear colour p)) :
    Consoles live (st.command9Clrscr colour p) fun r =>
      if st.screenOf p = st.screenOf r then clrscr (v r) colour else v r := by
  rw [ConsoleOp.Fits] at hfits
  rw [Screens.command9Clrscr]
  split_ifs with hflag
  · have hshown := (h.shown_iff p hp).mp hflag
    exact h.write_shown (f := fun t => clrscr t colour) hshown (clrscr_inside h.inside.video colour)
      fun t _ => Terminal.Shows.clrscr _ t colour
  · have hhidden := mt (h.shown_iff p hp).mpr hflag
    have hlast := hfits.resolve_left hflag
    refine h.write_hidden (f := fun t => clrscr t colour) hhidden ?_ fun r hr hscreen hagree => ?_
    · exact (clearHidden_currentScreen _ _ _).trans (Bool.not_eq_true _ ▸ hflag)
    · have hon : OnScreen 1999 := ⟨by decide, by decide⟩
      refine agree_clear ?_ (v r) _ _ _
      rw [hagree.char_eq _ hon, ← (h.seen hr hscreen).char_eq _ hon, hlast]

/-- A command that fits is one on the terminals of the processes. -/
lemma Consoles.step {op : ConsoleOp} (h : Consoles live st v) (hop : op.process ∈ live)
    (hfits : ConsoleOp.Fits st op) : Consoles live (st.consoleOp op) fun r =>
      if st.screenOf op.process = st.screenOf r then op.own (v r) else v r := by
  cases op with
  | print c p => exact h.print hop hfits
  | clear colour p => exact h.clear hop hfits
  | switch p =>
    simp only [ConsoleOp.own, ite_self]
    exact h.switch hop

/-- What is seen of a process after it has written to its buffer. -/
lemma Screens.shows_write_hidden (h : st.screenOf p ≠ st.screenOf st.current) {s' : Screen} :
    ({ st with screen := Function.update st.screen (st.screenOf p) s' }.processSwitch
      p).terminal.Shows t ↔ s'.RevealedAs t := by
  rw [Screens.processSwitch_shows_iff (by exact h)]
  simp only [Function.update_self]

/-- A command that does not fit is seen when the process is switched to. -/
lemma Consoles.not_seen {op : ConsoleOp} (h : Consoles live st v) (hop : op.process ∈ live)
    (hfits : ¬ ConsoleOp.Fits st op) :
    ¬ ((st.consoleOp op).processSwitch op.process).terminal.Shows (op.own (v op.process)) := by
  intro hseen
  have hagree := h.agree op.process hop
  have hshows := h.seen hop rfl
  cases op with
  | print c p =>
    simp only [ConsoleOp.process, ConsoleOp.own, Screens.consoleOp] at hop hseen hagree hshows
    rw [ConsoleOp.Fits] at hfits
    rw [Screens.processPrint] at hseen
    split_ifs at hfits hseen with hflag
    · -- the cursor has left the screen, and a switch puts it back there
      have hshown := (h.shown_iff p hop).mp hflag
      have hrow := ((h.shows hop hshown).print [c]).row_eq
      have hleft : (SerpaeOS.print st.terminal [c]).row = 25 :=
        terminalWritechar_leaves h.inside hfits
      have hback := (Screens.processSwitch_cursor
        { st with terminal := SerpaeOS.print st.terminal [c] } p).2
      rw [hseen.row_eq] at hback
      omega
    · have hhidden := mt (h.shown_iff p hop).mpr hflag
      rw [st.saved_hidden hhidden] at hagree
      rw [Screens.shows_write_hidden hhidden] at hseen
      exact hfits ((hshows.showFits_iff c).mpr (hagree.fits_of_revealedAs hseen))
  | clear colour p =>
    simp only [ConsoleOp.process, ConsoleOp.own, Screens.consoleOp] at hop hseen hagree hshows
    rw [ConsoleOp.Fits] at hfits
    obtain ⟨hflag, hlast⟩ := not_or.mp hfits
    have hhidden := mt (h.shown_iff p hop).mpr hflag
    have hon : OnScreen 1999 := ⟨by decide, by decide⟩
    rw [Screens.command9Clrscr, if_neg hflag, Screens.shows_write_hidden hhidden] at hseen
    -- what was in the last cell is now above it
    have hend := hseen.char_eq 1919 ⟨by decide, by decide⟩
    rw [clrscr_char _ _ ⟨by decide, by decide⟩] at hend
    have habove := clearHidden_char (terminalGetAttr st.terminal) colour
      (st.screen (st.screenOf p)) (k := 1919) ⟨by decide, by decide⟩
    rw [if_pos rfl] at habove
    rw [st.saved_hidden hhidden] at hagree
    refine hlast ?_
    rw [hshows.char_eq _ hon, ← hagree.char_eq _ hon, ← habove]
    exact hend
  | switch p => exact hfits trivial

/-! ## Runs -/

/-- A command on the screens, in a run. -/
def screensStep (st : Screens) (op : ConsoleOp) : Option Screens := some (st.consoleOp op)

/-- A command on the screens, and on the terminals of the processes. -/
def consolesStep (q : Screens × (Ptr → Terminal)) (op : ConsoleOp) :
    Option (Screens × (Ptr → Terminal)) :=
  some (q.1.consoleOp op, fun r =>
    if q.1.screenOf op.process = q.1.screenOf r then op.own (q.2 r) else q.2 r)

lemma foldlM_consolesStep (ops : List ConsoleOp) (st : Screens) (v : Ptr → Terminal) :
    ops.foldlM consolesStep (st, v) =
      some (ops.foldl Screens.consoleOp st, fun r => st.ownConsole r ops (v r)) := by
  induction ops generalizing st v with
  | nil => rfl
  | cons op ops ih =>
    rw [List.foldlM_cons]
    refine (ih _ _).trans ?_
    simp only [Option.some.injEq, Prod.mk.injEq, List.foldl_cons, true_and]
    funext r
    simp only [Screens.ownConsole, Screens.consoleOp_screenOf, List.filter_cons]
    by_cases hscreen : st.screenOf op.process = st.screenOf r
    · simp [hscreen]
    · simp [hscreen]

/-- The flags of the screens tell which one is shown, and the cursors are on the screen. -/
structure Screens.Ready (live : Set Ptr) (st : Screens) : Prop where
  current : st.current ∈ live
  shown_iff : ∀ p ∈ live, (st.screen (st.screenOf p)).currentScreen = true ↔
    st.screenOf p = st.screenOf st.current
  inside : st.terminal.Inside
  hidden : ∀ p ∈ live, (st.screen (st.screenOf p)).currentScreen = false →
    (st.screen (st.screenOf p)).CursorInside

/-- Each process starts with what is seen of it after a switch. -/
lemma Screens.Ready.consoles (h : st.Ready live) :
    Consoles live st fun p => (st.processSwitch p).terminal := by
  refine ⟨h.current, h.shown_iff, h.inside, fun p hp => ?_⟩
  by_cases hshown : st.screenOf p = st.screenOf st.current
  · rw [st.agree_saved_iff h.inside hshown]
    refine Terminal.Shows.symm (Screens.processSwitch_shows.mpr (Agree.revealedAs ?_))
    rw [st.agree_saved_iff h.inside hshown]
    exact ⟨rfl, rfl, fun _ _ => rfl⟩
  · have hflag := mt (h.shown_iff p hp).mp hshown
    have hcursor := h.hidden p hp (Bool.not_eq_true _ ▸ hflag)
    rw [st.saved_hidden hshown]
    exact Screens.agree_processSwitch hshown hcursor

/-- At every moment of a run each process is seen, when it is switched to, as on a terminal of its
own that only takes the commands of the processes with its screen, if and only if every command
fits. -/
theorem consoles_run_iff (h : st.Ready live) {ops : List ConsoleOp}
    (hops : ∀ op ∈ ops, op.process ∈ live) :
    (∀ part, part <+: ops → ∀ p ∈ live,
      ((part.foldl Screens.consoleOp st).processSwitch p).terminal.Shows
        (st.ownConsole p part (st.processSwitch p).terminal)) ↔
      Guarded screensStep ConsoleOp.Fits st ops := by
  let start : Screens × (Ptr → Terminal) := (st, fun p => (st.processSwitch p).terminal)
  have hruns : Always consolesStep
      (fun q => ∀ p ∈ live, (q.1.processSwitch p).terminal.Shows (q.2 p)) start ops ↔
        Guarded consolesStep (fun q op => ConsoleOp.Fits q.1 op) start ops := by
    refine always_iff_guarded
      (I := fun q : Screens × (Ptr → Terminal) => Consoles live q.1 q.2)
      (L := fun _ op => op.process ∈ live) (fun _ hq p hp => hq.seen hp rfl)
      (fun _ _ hq hop hfits => ⟨_, rfl, hq.step hop hfits⟩) ?_ h.consoles (guarded_of_forall hops)
    rintro q op _ hq hop hfits ⟨⟩ hseen
    have hown := hseen op.process hop
    simp only [if_true] at hown
    exact hq.not_seen hop hfits hown
  have hmap : Guarded screensStep ConsoleOp.Fits st ops ↔
      Guarded consolesStep (fun q op => ConsoleOp.Fits q.1 op) start ops :=
    guarded_map (s := start) Prod.fst fun _ _ => rfl
  rw [hmap, ← hruns, always_iff_prefix]
  refine forall_congr' fun part => imp_congr_right fun _ => ?_
  simp [start, foldlM_consolesStep]

lemma twoScreens_ready : twoScreens.Ready {0x1000, 0x2000} := by
  refine ⟨Or.inl rfl, ?_, terminal_inside_blank (by decide) (by decide), ?_⟩
  · rintro p (rfl | rfl) <;> decide
  · rintro p (rfl | rfl) hflag
    · exact absurd hflag (by decide)
    · exact ⟨by decide, by decide, by decide, by decide⟩

/-- A letter for a process that is not shown, which then clears its screen and is switched to. -/
theorem consoles_run_iff_clear :
    ((([.print 'a'.toUInt8 0x2000, .clear 15 0x2000, .switch 0x2000] : List ConsoleOp).foldl
      Screens.consoleOp twoScreens).processSwitch 0x2000).terminal.Shows
        (twoScreens.ownConsole 0x2000
          [.print 'a'.toUInt8 0x2000, .clear 15 0x2000, .switch 0x2000]
          (twoScreens.processSwitch 0x2000).terminal) := by
  refine (consoles_run_iff twoScreens_ready ?_).mpr ?_ _ List.prefix_rfl _ (Or.inr rfl)
  · intro op hop
    simp only [List.mem_cons, List.not_mem_nil, or_false] at hop
    obtain rfl | rfl | rfl := hop <;> exact Or.inr rfl
  · refine Guarded.cons rfl (by decide) (Guarded.cons rfl (by decide) (Guarded.cons rfl ?_ ?_))
    · exact trivial
    · exact trivial

end SerpaeOS
