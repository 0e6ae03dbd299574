import SerpaeOS.Config
import SerpaeOS.Graphics.Terminal
import SerpaeOS.Lib.Word

/-!
# Screens of processes

A process whose screen is not shown has it in a buffer, with a cursor of its own.  `process_print`
writes there with functions that do what those of the terminal do, and `process_switch` saves the
video memory and shows the buffer.  The two terminals treat the last cell alike, but not going
back over the beginning of a line, the tabulator and the bell.
-/

namespace SerpaeOS

open CellMemory StepRun Word

/-- `struct screen`. -/
structure Screen where
  currentScreen : Bool
  x : ℤ
  y : ℤ
  video : CellMemory

/-- `process_scroll_down`; `attr` is the result of `terminal_get_attr`. -/
def processScrollDown (attr : UInt8) (s : Screen) : Screen :=
  { s with video := s.video.copyLines.fillLine fun _ => terminalMakeChar space attr }

/-- The end of `process_writechar`: a character at the cursor, which goes on by a cell. -/
def processStore (s : Screen) (c colour : UInt8) : Screen :=
  let x := i32 (s.x + 1)
  { s with
    video := s.video.put (i32 (s.y * vgaWidth + s.x)) (terminalMakeChar c colour)
    x := if x ≥ vgaWidth then 0 else x
    y := if x ≥ vgaWidth then i32 (s.y + 1) else s.y }

/-- The rest of `process_writechar` behind the control characters. -/
def processPlain (attr : UInt8) (s : Screen) (c colour : UInt8) : Screen :=
  processStore (if s.x = 79 ∧ s.y = 24 then processScrollDown attr s else s) c colour

/-- `process_backspace`.  A space takes none of the branches for control characters. -/
def processBackspace (attr : UInt8) (s : Screen) : Screen :=
  if s.x = 0 ∧ s.y = 0 then s
  else
    let s := if s.x = 0 then { s with y := i32 (s.y - 1), x := vgaWidth }
      else { s with x := i32 (s.x - 1) }
    let s := processPlain attr s space attr
    { s with x := i32 (s.x - 1) }

/-- `process_writechar`. -/
def processWritechar (attr : UInt8) (s : Screen) (c colour : UInt8) : Screen :=
  if c = newline ∨ c = carriageReturn then
    if s.y = 24 then { processScrollDown attr s with x := 0 }
    else { s with y := i32 (s.y + 1), x := 0 }
  else if c = formFeed then
    if s.y = 24 then processScrollDown attr s else { s with y := i32 (s.y + 1) }
  else if c = backspace then processBackspace attr s
  else processPlain attr s c colour

/-! ## The cursor -/

/-- The cursor is on the screen, and only cells of the screen were written. -/
structure Screen.Inside (s : Screen) : Prop where
  x_nonneg : 0 ≤ s.x
  x_lt : s.x < 80
  y_nonneg : 0 ≤ s.y
  y_lt : s.y < 25
  video : s.video.Inside

/-- The character leaves the cursor on the screen: it does not go back over the beginning of a
line, and is not stored in the last cell. -/
def ScreenFits (s : Screen) (c : UInt8) : Prop :=
  c ∈ [newline, carriageReturn, formFeed] ∨
    if c = backspace then s.x ≠ 0 ∨ s.y = 0 else s.x < 79 ∨ s.y < 24

instance (s : Screen) (c : UInt8) : Decidable (ScreenFits s c) :=
  inferInstanceAs (Decidable (_ ∨ ite _ _ _))

variable {s : Screen} {shown : Bool} {m : CellMemory} {x y : ℤ} {attr c colour : UInt8}

lemma processScrollDown_video (attr : UInt8) (s : Screen) : (processScrollDown attr s).video =
    s.video.copyLines.fillLine fun _ => terminalMakeChar space attr := by
  rw [processScrollDown]

/-- A character that is stored in another cell than the last one. -/
lemma processPlain_eq (hx : 0 ≤ x) (hx' : x < 100) (hy : 0 ≤ y) (hy' : y < 25)
    (h : ¬ (x = 79 ∧ y = 24)) (attr c colour : UInt8) :
    processPlain attr ⟨shown, x, y, m⟩ c colour =
      ⟨shown, if x < 79 then x + 1 else 0, if x < 79 then y else y + 1,
        m.put (y * vgaWidth + x) (terminalMakeChar c colour)⟩ := by
  have hwidth : vgaWidth = 80 := rfl
  rw [processPlain, if_neg h, processStore]
  simp only [hwidth]
  rw [i32_of_lt (by omega) (by omega), i32_of_lt (by omega) (by omega),
    i32_of_lt (by omega) (by omega)]
  by_cases hlast : x < 79
  · rw [if_neg (by omega), if_neg (by omega), if_pos hlast, if_pos hlast]
  · rw [if_pos (by omega), if_pos (by omega), if_neg hlast, if_neg hlast]

/-- A character in the last cell: the screen moves up, and the cursor leaves it. -/
lemma processPlain_last (attr c colour : UInt8) :
    processPlain attr ⟨shown, 79, 24, m⟩ c colour =
      ⟨shown, 0, 25, (processScrollDown attr ⟨shown, 79, 24, m⟩).video.put 1999
        (terminalMakeChar c colour)⟩ := by
  rw [processPlain, if_pos ⟨rfl, rfl⟩, processStore]
  rfl

/-- Going back by a cell.  At the beginning of a line the space is stored there, and the cursor
goes to the column `-1`. -/
lemma processBackspace_eq (hx : 0 ≤ x) (hx' : x < 80) (hy : 0 ≤ y) (hy' : y < 25)
    (h : ¬ (x = 0 ∧ y = 0)) (attr : UInt8) : processBackspace attr ⟨shown, x, y, m⟩ =
      ⟨shown, x - 1, y, m.put (if x = 0 then y * vgaWidth else y * vgaWidth + x - 1)
        (terminalMakeChar space attr)⟩ := by
  have hwidth : vgaWidth = 80 := rfl
  rw [processBackspace, if_neg h]
  by_cases h0 : x = 0
  · subst h0
    have hindex : (y - 1) * 80 + 80 = y * 80 := by omega
    simp only [if_true, hwidth, i32_of_lt (by omega : 0 ≤ y - 1) (by omega), Nat.cast_ofNat]
    rw [processPlain_eq (by omega) (by omega) (by omega) (by omega) (by omega)]
    simp only [show ¬ (80 : ℤ) < 79 by omega, if_false, hwidth, Nat.cast_ofNat, hindex,
      sub_add_cancel]
    rfl
  · have hindex : y * 80 + (x - 1) = y * 80 + x - 1 := by omega
    simp only [h0, if_false, i32_of_lt (by omega : 0 ≤ x - 1) (by omega)]
    rw [processPlain_eq (by omega) (by omega) hy hy' (by omega)]
    simp only [show x - 1 < 79 by omega, if_true, hwidth, Nat.cast_ofNat, hindex,
      sub_add_cancel, i32_of_lt (by omega : 0 ≤ x - 1) (by omega)]

/-- The control characters that go to the next line. -/
lemma processWritechar_line (hy : 0 ≤ y) (hy' : y < 25)
    (hc : c ∈ [newline, carriageReturn, formFeed]) :
    processWritechar attr ⟨shown, x, y, m⟩ c colour =
      ⟨shown, if c = formFeed then x else 0, if y = 24 then 24 else y + 1,
        if y = 24 then (processScrollDown attr ⟨shown, x, y, m⟩).video else m⟩ := by
  have hnext : i32 (y + 1) = y + 1 := i32_of_lt (by omega) (by omega)
  simp only [List.mem_cons, List.not_mem_nil, or_false] at hc
  rw [processWritechar]
  by_cases hf : c = formFeed
  · have hn : ¬ (c = newline ∨ c = carriageReturn) := by
      rw [hf]
      decide
    rw [if_neg hn, if_pos hf, if_pos hf]
    by_cases hlast : y = 24
    · simp only [hlast, if_true]
      rfl
    · simp only [hlast, if_false, hnext]
  · have hn : c = newline ∨ c = carriageReturn := by tauto
    rw [if_pos hn, if_neg hf]
    by_cases hlast : y = 24
    · simp only [hlast, if_true]
      rfl
    · simp only [hlast, if_false, hnext]

lemma processWritechar_backspace (attr colour : UInt8) (s : Screen) :
    processWritechar attr s backspace colour = processBackspace attr s := rfl

lemma processWritechar_plain (hc : c ∉ [newline, carriageReturn, formFeed, backspace])
    (attr colour : UInt8) (s : Screen) :
    processWritechar attr s c colour = processPlain attr s c colour := by
  simp only [List.mem_cons, List.not_mem_nil, or_false, not_or] at hc
  obtain ⟨hn, hr, hf, hb⟩ := hc
  rw [processWritechar, if_neg (by simp [hn, hr]), if_neg hf, if_neg hb]

lemma Screen.Inside.scrollDown (h : s.Inside) (attr : UInt8) :
    (processScrollDown attr s).Inside := by
  refine ⟨h.x_nonneg, h.x_lt, h.y_nonneg, h.y_lt, ?_⟩
  rw [processScrollDown_video]
  exact h.video.copyLines.fillLine _

lemma processPlain_inside (h : (Screen.mk shown x y m).Inside) (hfits : x < 79 ∨ y < 24) :
    (processPlain attr ⟨shown, x, y, m⟩ c colour).Inside := by
  obtain ⟨hx, hx', hy, hy', hvideo⟩ := h
  simp only at hx hx' hy hy' hvideo
  rw [processPlain_eq hx (by omega) hy hy' (by omega)]
  refine ⟨?_, ?_, ?_, ?_, hvideo.put ?_ _⟩
  · split_ifs <;> simp only <;> omega
  · split_ifs <;> simp only <;> omega
  · split_ifs <;> simp only <;> omega
  · split_ifs <;> simp only <;> omega
  · rw [vgaWidth]
    constructor <;> omega

lemma processWritechar_inside (h : s.Inside) (hfits : ScreenFits s c) :
    (processWritechar attr s c colour).Inside := by
  have hscroll := (h.scrollDown attr).video
  have hinside := h
  obtain ⟨hx, hx', hy, hy', hvideo⟩ := h
  obtain ⟨shown, x, y, m⟩ := s
  simp only at hx hx' hy hy' hvideo
  by_cases hline : c ∈ [newline, carriageReturn, formFeed]
  · rw [processWritechar_line hy hy' hline]
    have hnext : CellMemory.Inside
        (if y = 24 then (processScrollDown attr ⟨shown, x, y, m⟩).video else m) := by
      split_ifs
      exacts [hscroll, hvideo]
    refine ⟨?_, ?_, ?_, ?_, hnext⟩
    · split_ifs <;> simp only <;> omega
    · split_ifs <;> simp only <;> omega
    · split_ifs <;> simp only <;> omega
    · split_ifs <;> simp only <;> omega
  · simp only [ScreenFits, hline, false_or] at hfits
    by_cases hback : c = backspace
    · rw [hback, processWritechar_backspace]
      simp only [hback, if_true] at hfits
      by_cases hzero : x = 0 ∧ y = 0
      · rwa [processBackspace, if_pos hzero]
      · rw [processBackspace_eq hx hx' hy hy' hzero, if_neg (by omega)]
        refine ⟨?_, ?_, hy, hy', hvideo.put ?_ _⟩
        · simp only
          omega
        · simp only
          omega
        · rw [vgaWidth]
          constructor <;> omega
    · simp only [hback, if_false] at hfits
      have hplain : c ∉ [newline, carriageReturn, formFeed, backspace] := by
        simp only [List.mem_cons, List.not_mem_nil, or_false] at hline ⊢
        tauto
      rw [processWritechar_plain hplain]
      exact processPlain_inside hinside hfits

/-- The other characters take the cursor off the screen. -/
lemma processWritechar_leaves (h : s.Inside) (hfits : ¬ ScreenFits s c) :
    (processWritechar attr s c colour).x = -1 ∨ (processWritechar attr s c colour).y = 25 := by
  obtain ⟨hx, hx', hy, hy', hvideo⟩ := h
  obtain ⟨shown, x, y, m⟩ := s
  simp only at hx hx' hy hy'
  obtain ⟨hline, hfits⟩ := not_or.mp hfits
  by_cases hback : c = backspace
  · simp only [hback, if_true] at hfits
    left
    rw [hback, processWritechar_backspace, processBackspace_eq hx hx' hy hy' (by omega)]
    simp only
    omega
  · simp only [hback, if_false] at hfits
    obtain ⟨rfl, rfl⟩ : x = 79 ∧ y = 24 := by omega
    have hplain : c ∉ [newline, carriageReturn, formFeed, backspace] := by
      simp only [List.mem_cons, List.not_mem_nil, or_false] at hline ⊢
      tauto
    right
    rw [processWritechar_plain hplain, processPlain_last]

/-- A character with its colour and the attribute of the terminal, in a run on a screen. -/
def screenStep (s : Screen) (w : UInt8 × UInt8 × UInt8) : Option Screen :=
  some (processWritechar w.2.2 s w.1 w.2.1)

lemma screen_inside_iff (h : s.Inside) (ws : List (UInt8 × UInt8 × UInt8)) :
    Always screenStep Screen.Inside s ws ↔
      Guarded screenStep (fun s w => ScreenFits s w.1) s ws := by
  refine always_iff_guarded (L := fun _ _ => True) (fun _ h => h)
    (fun s w hs _ hfits => ⟨_, rfl, processWritechar_inside hs hfits⟩) ?_ h guarded_true
  rintro s w _ hs - hfits ⟨⟩ hin
  have hx := hin.x_nonneg
  have hy := hin.y_lt
  rcases processWritechar_leaves hs hfits with hleft | hdown
  · exact absurd hx (by rw [hleft]; decide)
  · exact absurd hy (by rw [hdown]; decide)

/-- Along every run of characters from a state with the cursor on the screen, each of the
terminals keeps the cursor there, and writes only cells of the screen, if and only if each
character fits where it is written. -/
theorem writechar_inside_iff {t : Terminal} (ht : t.Inside) (hs : s.Inside)
    (ws : List (UInt8 × UInt8)) (ws' : List (UInt8 × UInt8 × UInt8)) :
    (Always terminalStep Terminal.Inside t ws ↔
      Guarded terminalStep (fun t w => TerminalFits t w.1) t ws) ∧
    (Always screenStep Screen.Inside s ws' ↔
      Guarded screenStep (fun s w => ScreenFits s w.1) s ws') :=
  ⟨terminal_inside_iff ht ws, screen_inside_iff hs ws'⟩

/-- An empty screen. -/
def blankCells : CellMemory := ⟨fun _ => 0x0F20, []⟩

lemma terminal_inside_blank {row col : ℕ} (hcol : col < 80) (hrow : row < 25) :
    (Terminal.mk blankCells row col).Inside :=
  ⟨hcol, hrow, fun _ hi => absurd hi List.not_mem_nil⟩

lemma screen_inside_blank {x y : ℤ} (hx : 0 ≤ x ∧ x < 80) (hy : 0 ≤ y ∧ y < 25) :
    (Screen.mk false x y blankCells).Inside :=
  ⟨hx.1, hx.2, hy.1, hy.2, fun _ hi => absurd hi List.not_mem_nil⟩

/-- A new line at the end of the screen. -/
theorem writechar_inside_iff_newline :
    Always terminalStep Terminal.Inside ⟨blankCells, 24, 79⟩ [(newline, 15)] ∧
      Always screenStep Screen.Inside ⟨false, 79, 24, blankCells⟩ [(newline, 15, 15)] := by
  have h := writechar_inside_iff (t := ⟨blankCells, 24, 79⟩) (s := ⟨false, 79, 24, blankCells⟩)
    (terminal_inside_blank (by decide) (by decide))
    (screen_inside_blank (by decide) (by decide)) [(newline, 15)] [(newline, 15, 15)]
  exact ⟨h.1.mpr ⟨Or.inl (by decide), fun _ _ => trivial⟩,
    h.2.mpr ⟨Or.inl (by decide), fun _ _ => trivial⟩⟩

/-- A letter in the last cell takes the cursor of the terminal off the screen, and going back over
the beginning of a line that of a buffer. -/
theorem not_writechar_inside_last :
    (Terminal.mk blankCells 24 79).Inside ∧ (Screen.mk false 0 1 blankCells).Inside ∧
      ¬ Always terminalStep Terminal.Inside ⟨blankCells, 24, 79⟩ [('a'.toUInt8, 15)] ∧
      ¬ Always screenStep Screen.Inside ⟨false, 0, 1, blankCells⟩ [(backspace, 15, 15)] := by
  have ht : (Terminal.mk blankCells 24 79).Inside := terminal_inside_blank (by decide) (by decide)
  have hs : (Screen.mk false 0 1 blankCells).Inside := screen_inside_blank (by decide) (by decide)
  refine ⟨ht, hs, fun h => ?_, fun h => ?_⟩
  · exact absurd ((terminal_inside_iff ht _).mp h).1 (by decide)
  · exact absurd ((screen_inside_iff hs _).mp h).1 (by decide)

/-! ## Switching -/

/-- The terminal, the screens in memory, the `screen` field of the processes, and the current
process. -/
structure Screens where
  terminal : Terminal
  screen : Ptr → Screen
  screenOf : Ptr → Ptr
  current : Ptr

/-- Conversion to `uint16_t`. -/
def u16 (x : ℤ) : ℕ := (x % 2 ^ 16).toNat

/-- `memcpy` of a whole screen. -/
def CellMemory.copyScreen (m src : CellMemory) : CellMemory :=
  { cell := fun i => if 0 ≤ i ∧ i < 2000 then src.cell i else m.cell i
    written := m.written ++ (List.range 2000).map Int.ofNat }

/-- `process_save_video`. -/
def Screens.processSaveVideo (st : Screens) (process : Ptr) : Screens :=
  { st with
    screen := Function.update st.screen (st.screenOf process)
      { currentScreen := false
        x := st.terminal.col
        y := st.terminal.row
        video := (st.screen (st.screenOf process)).video.copyScreen st.terminal.video } }

/-- `process_load_video`. -/
def Screens.processLoadVideo (st : Screens) (process : Ptr) : Screens :=
  let screen := st.screen (st.screenOf process)
  { st with
    terminal := setCursor { st.terminal with video := st.terminal.video.copyScreen screen.video }
      (u16 screen.x) (u16 screen.y)
    screen := Function.update st.screen (st.screenOf process)
      { screen with currentScreen := true } }

/-- `process_switch`. -/
def Screens.processSwitch (st : Screens) (process : Ptr) : Screens :=
  { (st.processSaveVideo st.current).processLoadVideo process with current := process }

/-- The loop of `process_print` for a screen that is not shown. -/
def printHidden (attr : UInt8) (s : Screen) (message : List UInt8) : Screen :=
  message.foldl (fun s c => processWritechar attr s c attr) s

/-- `process_print`. -/
def Screens.processPrint (st : Screens) (message : List UInt8) (process : Ptr) : Screens :=
  let screen := st.screen (st.screenOf process)
  if screen.currentScreen then { st with terminal := print st.terminal message }
  else
    { st with
      screen := Function.update st.screen (st.screenOf process)
        (printHidden (terminalGetAttr st.terminal) screen message) }

/-- The same characters on the screen, and the cursor at the same place. -/
structure Terminal.Shows (t t' : Terminal) : Prop where
  col_eq : t.col = t'.col
  row_eq : t.row = t'.row
  char_eq : ∀ i, OnScreen i → t.video.char i = t'.video.char i

/-- When it is shown, the buffer has the characters and the cursor of the terminal. -/
def Screen.RevealedAs (s : Screen) (t : Terminal) : Prop :=
  (setCursor ⟨s.video, 0, 0⟩ (u16 s.x) (u16 s.y)).Shows t

/-- The buffer has the characters of the terminal and its cursor, which is on the screen. -/
structure Agree (t : Terminal) (s : Screen) : Prop where
  col_lt : t.col < 80
  row_lt : t.row < 25
  x_eq : s.x = t.col
  y_eq : s.y = t.row
  char_eq : ∀ i, OnScreen i → s.video.char i = t.video.char i

/-- Both terminals do the same with the character: it is no bell, does not go back over the
beginning of a line, and is not stored in the last cell; a tabulator is in the last column of
another line, and the cells that the two store it in hold one already. -/
def ShowFits (t : Terminal) (c : UInt8) : Prop :=
  if c ∈ [newline, carriageReturn, formFeed] then True
  else if c = bell then False
  else if c = backspace then t.col ≠ 0 ∨ t.row = 0
  else if c = tab then
    t.col = 79 ∧ t.row < 24 ∧ t.video.char (t.row * vgaWidth + 79 : ℕ) = tab ∧
      t.video.char (t.row * vgaWidth + 83 : ℕ) = tab
  else t.row < 24 ∨ t.col < 79

instance (t : Terminal) (c : UInt8) : Decidable (ShowFits t c) :=
  inferInstanceAs (Decidable (ite _ _ _))

variable {t : Terminal}

/-- The cursor of a buffer is moved back to the screen when it is shown. -/
lemma Screen.RevealedAs.cursor (h : s.RevealedAs t) :
    (0 ≤ s.x → s.x < 80 → (t.col : ℤ) = s.x) ∧ (0 ≤ s.y → s.y < 25 → (t.row : ℤ) = s.y) ∧
      t.row < 25 := by
  have hcol := h.col_eq
  have hrow := h.row_eq
  rw [setCursor_col, u16] at hcol
  rw [setCursor_row, u16] at hrow
  omega

lemma Agree.revealedAs (h : Agree t s) : s.RevealedAs t := by
  have hcol := h.col_lt
  have hrow := h.row_lt
  refine ⟨?_, ?_, h.char_eq⟩
  · rw [setCursor_col, h.x_eq, u16]
    omega
  · rw [setCursor_row, h.y_eq, u16]
    omega

/-- The same character stored in the same cell. -/
lemma put_char_congr {m m' : CellMemory} (h : ∀ i, OnScreen i → m'.char i = m.char i) {k k' : ℤ}
    (hk : k' = k) (c colour colour' : UInt8) (i : ℤ) (hi : OnScreen i) :
    (m'.put k' (terminalMakeChar c colour')).char i =
      (m.put k (terminalMakeChar c colour)).char i := by
  rw [put_char, put_char, hk, terminalMakeChar_toUInt8, terminalMakeChar_toUInt8, h i hi]

/-- Both screens moved up by a line. -/
lemma Agree.scroll_char (h : Agree t s) (attr : UInt8) (i : ℤ) (hi : OnScreen i) :
    (processScrollDown attr s).video.char i = (scrollDown t).video.char i := by
  rw [processScrollDown_video, scrollDown_video,
    CellMemory.scroll_char (fun _ => terminalMakeChar_toUInt8 _ _) hi,
    CellMemory.scroll_char (fun _ => terminalMakeChar_toUInt8 _ _) hi]
  by_cases hlast : i < 1920
  · rw [if_pos hlast, if_pos hlast]
    exact h.char_eq _ ⟨by have := hi.1; omega, by omega⟩
  · rw [if_neg hlast, if_neg hlast]

lemma Agree.writechar_line (h : Agree t s) (hc : c ∈ [newline, carriageReturn, formFeed])
    (attr colour colour' : UInt8) :
    Agree (terminalWritechar t c colour) (processWritechar attr s c colour') := by
  have hscroll := h.scroll_char attr
  obtain ⟨hcol, hrow, hx, hy, hchar⟩ := h
  obtain ⟨m, row, col⟩ := t
  obtain ⟨shown, x, y, m'⟩ := s
  simp only at hcol hrow hx hy hchar
  subst hx hy
  rw [terminalWritechar_line hrow hc, processWritechar_line (by omega) (by omega) hc]
  refine ⟨?_, ?_, ?_, ?_, ?_⟩
  · split_ifs <;> simp only <;> omega
  · split_ifs <;> simp only <;> omega
  · split_ifs <;> rfl
  · simp only
    split_ifs <;> omega
  · intro i hi
    by_cases hlast : row = 24
    · simp only [hlast, if_true, Nat.cast_ofNat] at hscroll ⊢
      exact hscroll i hi
    · have hlast' : ¬ (row : ℤ) = 24 := by omega
      simp only [hlast, hlast', if_false]
      exact hchar i hi

lemma Agree.writechar_backspace (h : Agree t s) (hfits : t.col ≠ 0 ∨ t.row = 0)
    (attr colour colour' : UInt8) :
    Agree (terminalWritechar t backspace colour)
      (processWritechar attr s backspace colour') := by
  have hagree := h
  obtain ⟨hcol, hrow, hx, hy, hchar⟩ := h
  obtain ⟨m, row, col⟩ := t
  obtain ⟨shown, x, y, m'⟩ := s
  simp only at hcol hrow hx hy hchar hfits
  subst hx hy
  rw [terminalWritechar_backspace, processWritechar_backspace]
  by_cases hzero : row = 0 ∧ col = 0
  · rw [terminalBackspace, if_pos hzero, processBackspace, if_pos (by simp only; omega)]
    exact hagree
  · rw [terminalBackspace_eq hcol hrow hzero,
      processBackspace_eq (by omega) (by omega) (by omega) (by omega) (by omega),
      if_neg (by omega), if_neg (by omega), if_neg (by omega)]
    refine ⟨by simp only; omega, hrow, by simp only; omega, rfl, ?_⟩
    exact put_char_congr hchar (by rw [vgaWidth]; omega) _ _ _

lemma Agree.writechar_plain (h : Agree t s) (hfits : t.row < 24 ∨ t.col < 79)
    (c attr colour colour' : UInt8) :
    Agree (terminalPlain t c colour) (processPlain attr s c colour') := by
  obtain ⟨hcol, hrow, hx, hy, hchar⟩ := h
  obtain ⟨m, row, col⟩ := t
  obtain ⟨shown, x, y, m'⟩ := s
  simp only at hcol hrow hx hy hchar hfits
  subst hx hy
  rw [terminalPlain_eq (by omega) hrow (by omega),
    processPlain_eq (by omega) (by omega) (by omega) (by omega) (by omega)]
  refine ⟨?_, ?_, ?_, ?_, ?_⟩
  · simp only
    split_ifs <;> omega
  · simp only
    split_ifs <;> omega
  · simp only
    split_ifs <;> omega
  · simp only
    split_ifs <;> omega
  · exact put_char_congr hchar (by rw [vgaWidth]; omega) _ _ _

/-- A tabulator that both store in a cell which holds one. -/
lemma Agree.writechar_tab (h : Agree t s) (hfits : ShowFits t tab) (attr colour colour' : UInt8) :
    Agree (terminalWritechar t tab colour) (processWritechar attr s tab colour') := by
  obtain ⟨hlast, hrow', hold, hold'⟩ : t.col = 79 ∧ t.row < 24 ∧
    t.video.char (t.row * vgaWidth + 79 : ℕ) = tab ∧
      t.video.char (t.row * vgaWidth + 83 : ℕ) = tab := hfits
  obtain ⟨hcol, hrow, hx, hy, hchar⟩ := h
  obtain ⟨m, row, col⟩ := t
  obtain ⟨shown, x, y, m'⟩ := s
  simp only at hcol hrow hx hy hchar hlast hrow' hold hold'
  subst hx hy hlast
  rw [terminalWritechar_plain hcol (by decide), processWritechar_plain (by decide), if_pos rfl,
    show tabCol 79 = 83 from rfl, terminalPlain_eq (by omega) hrow (by omega),
    processPlain_eq (by omega) (by omega) (by omega) (by omega) (by omega)]
  refine ⟨by simp, by simp only [Nat.reduceLT, if_false]; omega, by simp, by simp, fun i hi => ?_⟩
  simp only [put_char, terminalMakeChar_toUInt8, vgaWidth] at hold hold' ⊢
  by_cases hi₁ : i = (row * 80 + 79 : ℕ)
  · rw [if_pos (by omega), if_neg (by omega), hi₁, hold]
  · rw [if_neg (by omega)]
    by_cases hi₂ : i = (row * 80 + 83 : ℕ)
    · rw [if_pos hi₂, hchar i hi, hi₂, hold']
    · rw [if_neg hi₂, hchar i hi]

/-- A character on which the two terminals do the same. -/
lemma Agree.writechar (h : Agree t s) (hfits : ShowFits t c) (attr colour colour' : UInt8) :
    Agree (terminalWritechar t c colour) (processWritechar attr s c colour') := by
  have hfits' := hfits
  rw [ShowFits] at hfits
  split_ifs at hfits with hline hbell hback htab
  · exact h.writechar_line hline attr colour colour'
  · subst hback
    exact h.writechar_backspace hfits attr colour colour'
  · subst htab
    exact h.writechar_tab hfits' attr colour colour'
  · have hplain : c ∉ [newline, carriageReturn, formFeed, bell, backspace] := by
      simp only [List.mem_cons, List.not_mem_nil, or_false] at hline ⊢
      tauto
    have hplain' : c ∉ [newline, carriageReturn, formFeed, backspace] := by
      simp only [List.mem_cons, List.not_mem_nil, or_false] at hline ⊢
      tauto
    rw [terminalWritechar_plain h.col_lt hplain, if_neg htab, processWritechar_plain hplain']
    exact h.writechar_plain hfits c attr colour colour'

/-- The line and the column behind a character that the buffer stores, as they are shown. -/
lemma processPlain_cursor (h : Agree t s) (c attr colour : UInt8) {t' : Terminal}
    (hshown : (processPlain attr s c colour).RevealedAs t') :
    t'.col = (if t.col < 79 then t.col + 1 else 0) ∧ t'.row < 25 ∧
      (t.row < 24 ∨ t.col < 79 → t'.row = if t.col < 79 then t.row else t.row + 1) := by
  have hcursor := hshown.cursor
  obtain ⟨hcol, hrow, hx, hy, -⟩ := h
  obtain ⟨m, row, col⟩ := t
  obtain ⟨shown, x, y, m'⟩ := s
  simp only at hcol hrow hx hy
  subst hx hy
  by_cases hlast : col = 79 ∧ row = 24
  · obtain ⟨rfl, rfl⟩ := hlast
    rw [Nat.cast_ofNat, Nat.cast_ofNat, processPlain_last] at hcursor
    simp only [Nat.lt_irrefl, or_self, if_false, false_imp_iff, and_true] at hcursor ⊢
    exact ⟨by have hleft := hcursor.1 le_rfl (by omega); omega, hcursor.2.2⟩
  · rw [processPlain_eq (by omega) (by omega) (by omega) (by omega) (by omega)] at hcursor
    simp only at hcursor ⊢
    split_ifs at hcursor ⊢ <;> omega

/-- At a tabulator the terminal goes on by four cells more than the buffer. -/
lemma Agree.tab_fits_of_revealedAs (h : Agree t s) {attr colour colour' : UInt8}
    (hshown : (processWritechar attr s tab colour').RevealedAs (terminalWritechar t tab colour)) :
    t.col = 79 ∧ t.row < 24 ∧ t.video.char (t.row * vgaWidth + 79 : ℕ) = tab ∧
      t.video.char (t.row * vgaWidth + 83 : ℕ) = tab := by
  have hcol := h.col_lt
  have hrow := h.row_lt
  have hstore := hshown
  rw [processWritechar_plain (by decide)] at hstore
  have hcursor := processPlain_cursor h tab attr colour' hstore
  obtain ⟨-, -, hx, hy, hchar⟩ := h
  obtain ⟨m, row, col⟩ := t
  obtain ⟨shown, x, y, m'⟩ := s
  simp only at hcol hrow hx hy hchar
  subst hx hy
  rw [terminalWritechar_plain hcol (by decide), if_pos rfl] at hcursor hshown
  simp only at hcursor ⊢
  by_cases hlast : tabCol col = 79 ∧ row = 24
  · rw [hlast.1, hlast.2, terminalPlain_last] at hcursor
    simp only at hcursor
    omega
  have htab : tabCol col < 100 := by
    rw [tabCol]
    split_ifs <;> omega
  rw [terminalPlain_eq htab hrow hlast] at hcursor hshown
  simp only [tabCol] at hcursor
  obtain ⟨rfl, hrow'⟩ : col = 79 ∧ row < 24 := by
    split_ifs at hcursor <;> omega
  rw [processWritechar_plain (by decide), processPlain_eq (by omega) (by omega) (by omega)
    (by omega) (by omega)] at hshown
  have hcells := hshown.char_eq
  have htabCol : tabCol 79 = 83 := rfl
  simp only [setCursor, put_char, terminalMakeChar_toUInt8, htabCol, vgaWidth] at hcells ⊢
  refine ⟨trivial, hrow', ?_, ?_⟩
  · have hcell := hcells (row * 80 + 79 : ℕ) ⟨by omega, by omega⟩
    rw [if_pos (by omega), if_neg (by omega)] at hcell
    exact hcell.symm
  · have hon : OnScreen (row * 80 + 83 : ℕ) := ⟨by omega, by omega⟩
    have hcell := hcells (row * 80 + 83 : ℕ) hon
    rw [if_neg (by omega), if_pos (by omega), hchar _ hon] at hcell
    exact hcell

/-- Where the two terminals differ, it is seen when the buffer is shown. -/
lemma Agree.fits_of_revealedAs (h : Agree t s) {attr colour colour' : UInt8}
    (hshown : (processWritechar attr s c colour').RevealedAs (terminalWritechar t c colour)) :
    ShowFits t c := by
  have hcol := h.col_lt
  have hrow := h.row_lt
  rw [ShowFits]
  split_ifs with hline hbell hback htab
  · -- the buffer takes the bell for a character
    subst hbell
    rw [processWritechar_plain (by decide), terminalWritechar_bell] at hshown
    have hcursor := (processPlain_cursor h bell attr colour' hshown).1
    split_ifs at hcursor <;> omega
  · -- the cursor of the buffer stays in its line
    subst hback
    by_contra! hfits
    have hcursor := hshown.cursor.2.1
    obtain ⟨-, -, hx, hy, -⟩ := h
    obtain ⟨m, row, col⟩ := t
    obtain ⟨shown, x, y, m'⟩ := s
    simp only at hcol hrow hx hy hfits
    subst hx hy
    rw [processWritechar_backspace, processBackspace_eq (by omega) (by omega) (by omega)
      (by omega) (by omega), terminalWritechar_backspace,
      terminalBackspace_eq hcol hrow (by omega), if_pos hfits.1] at hcursor
    simp only at hcursor
    omega
  · subst htab
    exact h.tab_fits_of_revealedAs hshown
  · by_contra! hfits
    have hplain : c ∉ [newline, carriageReturn, formFeed, bell, backspace] := by
      simp only [List.mem_cons, List.not_mem_nil, or_false] at hline ⊢
      tauto
    have hplain' : c ∉ [newline, carriageReturn, formFeed, backspace] := by
      simp only [List.mem_cons, List.not_mem_nil, or_false] at hline ⊢
      tauto
    rw [processWritechar_plain hplain'] at hshown
    have hcursor := (processPlain_cursor h c attr colour' hshown).2.1
    obtain ⟨m, row, col⟩ := t
    obtain ⟨rfl, rfl⟩ : row = 24 ∧ col = 79 := by
      simp only at hcol hrow hfits
      omega
    rw [terminalWritechar_plain hcol hplain, if_neg htab, terminalPlain_last] at hcursor
    simp only at hcursor
    omega

/-! ## Printing and switching -/

/-- A character of `print`. -/
def printStep (t : Terminal) (c : UInt8) : Option Terminal :=
  some (terminalWritechar t c (terminalGetAttr t))

/-- A character on the terminal and on a buffer that is not shown. -/
def bothStep (attr : UInt8) (q : Terminal × Screen) (c : UInt8) : Option (Terminal × Screen) :=
  some (terminalWritechar q.1 c (terminalGetAttr q.1), processWritechar attr q.2 c attr)

lemma foldlM_bothStep (attr : UInt8) (message : List UInt8) (t : Terminal) (s : Screen) :
    message.foldlM (bothStep attr) (t, s) = some (print t message, printHidden attr s message) := by
  induction message generalizing t s with
  | nil => rfl
  | cons c message ih =>
    rw [List.foldlM_cons]
    exact ih _ _

/-- The two terminals do the same with every beginning of the message if and only if they do with
each of its characters. -/
lemma print_revealedAs_iff (h : Agree t s) (attr : UInt8) (message : List UInt8) :
    (∀ part, part <+: message → (printHidden attr s part).RevealedAs (print t part)) ↔
      Guarded printStep ShowFits t message := by
  have hruns : Always (bothStep attr) (fun q => q.2.RevealedAs q.1) (t, s) message ↔
      Guarded (bothStep attr) (fun q c => ShowFits q.1 c) (t, s) message := by
    refine always_iff_guarded (I := fun q : Terminal × Screen => Agree q.1 q.2)
      (L := fun _ _ => True)
      (fun q hq => hq.revealedAs) (fun q c hq _ hfits => ⟨_, rfl, hq.writechar hfits _ _ _⟩) ?_ h
      guarded_true
    rintro q c _ hq - hfits ⟨⟩ hshown
    exact hfits (hq.fits_of_revealedAs hshown)
  have hmap : Guarded printStep ShowFits t message ↔
      Guarded (bothStep attr) (fun q c => ShowFits q.1 c) (t, s) message :=
    guarded_map (s := (t, s)) Prod.fst fun _ _ => rfl
  rw [hmap, ← hruns, always_iff_prefix]
  refine forall_congr' fun part => imp_congr_right fun _ => ?_
  simp [foldlM_bothStep]

variable {st : Screens} {process : Ptr}

/-- The cursor of the buffer is on the screen. -/
structure Screen.CursorInside (s : Screen) : Prop where
  x_nonneg : 0 ≤ s.x
  x_lt : s.x < 80
  y_nonneg : 0 ≤ s.y
  y_lt : s.y < 25

lemma copyScreen_char (m src : CellMemory) {i : ℤ} (hi : OnScreen i) :
    (m.copyScreen src).char i = src.char i := by
  rw [char, CellMemory.copyScreen]
  simp only
  rw [if_pos ⟨hi.1, hi.2⟩]
  rfl

/-- What `process_switch` shows. -/
lemma Screens.processSwitch_terminal (hne : st.screenOf process ≠ st.screenOf st.current) :
    (st.processSwitch process).terminal =
      setCursor
        { st.terminal with
          video := st.terminal.video.copyScreen (st.screen (st.screenOf process)).video }
        (u16 (st.screen (st.screenOf process)).x) (u16 (st.screen (st.screenOf process)).y) := by
  simp only [Screens.processSwitch, processLoadVideo, processSaveVideo]
  rw [Function.update_of_ne hne]

/-- A buffer with its cursor on the screen is what is seen of the process. -/
lemma Screens.agree_processSwitch (hne : st.screenOf process ≠ st.screenOf st.current)
    (hcursor : (st.screen (st.screenOf process)).CursorInside) :
    Agree (st.processSwitch process).terminal (st.screen (st.screenOf process)) := by
  have hx := hcursor.x_nonneg
  have hx' := hcursor.x_lt
  have hy := hcursor.y_nonneg
  have hy' := hcursor.y_lt
  rw [Screens.processSwitch_terminal hne]
  refine ⟨?_, ?_, ?_, ?_, fun i hi => (copyScreen_char _ _ hi).symm⟩
  · rw [setCursor_col]
    omega
  · rw [setCursor_row]
    omega
  · rw [setCursor_col, u16]
    omega
  · rw [setCursor_row, u16]
    omega

/-- What is seen of the process after the switch is its buffer. -/
lemma Screens.processSwitch_shows_iff (hne : st.screenOf process ≠ st.screenOf st.current) :
    (st.processSwitch process).terminal.Shows t ↔
      (st.screen (st.screenOf process)).RevealedAs t := by
  rw [Screens.processSwitch_terminal hne]
  constructor
  · rintro ⟨hcol, hrow, hchar⟩
    exact ⟨hcol, hrow, fun i hi => (copyScreen_char _ _ hi).symm.trans (hchar i hi)⟩
  · rintro ⟨hcol, hrow, hchar⟩
    exact ⟨hcol, hrow, fun i hi => (copyScreen_char _ _ hi).trans (hchar i hi)⟩

/-- Each beginning of the message that is printed to the process shows the same when the process
is switched to as when it is printed behind the switch. -/
def PrintsAlike (st : Screens) (process : Ptr) (message : List UInt8) : Prop :=
  ∀ part, part <+: message →
    ((st.processPrint part process).processSwitch process).terminal.Shows
      ((st.processSwitch process).processPrint part process).terminal

/-- Printing to a process that is not shown, and switching to it, shows the same as printing
behind the switch, for each beginning of the message, if and only if each character fits where
the terminal has its cursor. -/
theorem process_print_switch_iff
    (hcurrent : (st.screen (st.screenOf st.current)).currentScreen = true)
    (hhidden : (st.screen (st.screenOf process)).currentScreen = false)
    (hcursor : (st.screen (st.screenOf process)).CursorInside) (message : List UInt8) :
    PrintsAlike st process message ↔
      Guarded printStep ShowFits (st.processSwitch process).terminal message := by
  have hne : st.screenOf process ≠ st.screenOf st.current := by
    intro heq
    rw [heq, hcurrent] at hhidden
    exact absurd hhidden (by decide)
  have hagree := Screens.agree_processSwitch hne hcursor
  rw [← print_revealedAs_iff hagree (terminalGetAttr st.terminal)]
  refine forall_congr' fun part => imp_congr_right fun _ => ?_
  -- the two states after the message
  have hprint : ((st.processSwitch process).processPrint part process).terminal =
      print (st.processSwitch process).terminal part := by
    have hshown : ((st.processSwitch process).screen
        ((st.processSwitch process).screenOf process)).currentScreen = true := by
      simp [Screens.processSwitch, Screens.processLoadVideo, Screens.processSaveVideo]
    rw [Screens.processPrint, if_pos hshown]
  have hhid : st.processPrint part process = { st with
      screen := Function.update st.screen (st.screenOf process)
        (printHidden (terminalGetAttr st.terminal) (st.screen (st.screenOf process)) part) } := by
    rw [Screens.processPrint, if_neg (by simp [hhidden])]
  rw [hprint, hhid, Screens.processSwitch_shows_iff (by exact hne)]
  simp only [Function.update_self]

/-- Two processes with blank screens; the second one is not shown, and its cursor is at the
beginning of the second line. -/
def twoScreens : Screens where
  terminal := ⟨blankCells, 0, 0⟩
  screen := fun p => if p = 0x3000 then ⟨true, 0, 0, blankCells⟩ else ⟨false, 0, 1, blankCells⟩
  screenOf := fun p => if p = 0x1000 then 0x3000 else 0x4000
  current := 0x1000

/-- A letter and a new line. -/
theorem process_print_switch_iff_letter :
    PrintsAlike twoScreens 0x2000 ['a'.toUInt8, newline] := by
  refine (process_print_switch_iff rfl rfl ⟨by decide, by decide, by decide, by decide⟩ _).mpr ?_
  refine ⟨by decide, ?_⟩
  rintro _ ⟨⟩
  exact ⟨by decide, fun _ _ => trivial⟩

/-- Going back over the beginning of a line. -/
theorem not_process_print_switch_backspace :
    (twoScreens.screen (twoScreens.screenOf twoScreens.current)).currentScreen = true ∧
      (twoScreens.screen (twoScreens.screenOf 0x2000)).currentScreen = false ∧
      (twoScreens.screen (twoScreens.screenOf 0x2000)).CursorInside ∧
      ¬ ((twoScreens.processPrint [backspace] 0x2000).processSwitch 0x2000).terminal.Shows
        ((twoScreens.processSwitch 0x2000).processPrint [backspace] 0x2000).terminal := by
  refine ⟨rfl, rfl, ⟨by decide, by decide, by decide, by decide⟩, fun h => ?_⟩
  exact absurd h.row_eq (by decide)

end SerpaeOS
