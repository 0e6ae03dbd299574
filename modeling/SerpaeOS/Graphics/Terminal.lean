import Mathlib.Data.UInt
import Mathlib.Logic.Function.Basic
import Mathlib.Tactic.SplitIfs
import SerpaeOS.Lib.StepRun

/-!
# The terminal

The text mode terminal of `graphics.c`: the video memory, whose cells hold a character and its
colour, and the cursor.  Nothing stops a function from writing outside the `80 × 25` cells of the
screen, so the memory is a function on all integer indices, and the indices written are recorded.
-/

namespace SerpaeOS

open StepRun

def vgaWidth : ℕ := 80
def vgaHeight : ℕ := 25

/-- The cells from the first one of a screen on. -/
structure CellMemory where
  cell : ℤ → UInt16
  /-- The indices written so far. -/
  written : List ℤ

namespace CellMemory

variable (m : CellMemory)

/-- The assignment `video[i] = value`. -/
def put (i : ℤ) (value : UInt16) : CellMemory :=
  { m with cell := Function.update m.cell i value, written := m.written ++ [i] }

/-- The character of a cell. -/
def char (i : ℤ) : UInt8 := (m.cell i).toUInt8

/-- `get_attribute` on these cells: the other byte. -/
def getAttribute (x y : ℕ) : UInt8 := (m.cell ((y * vgaWidth + x : ℕ) : ℤ) >>> 8).toUInt8

/-- `memcpy` of a line to the one above. -/
def copyLine (line : ℕ) : CellMemory :=
  (List.range vgaWidth).foldl (fun m j =>
    m.put ((line - 1) * vgaWidth + j : ℕ) (m.cell (line * vgaWidth + j : ℕ))) m

/-- The lines `1` to `24` copied to the ones above. -/
def copyLines : CellMemory :=
  (List.range (vgaHeight - 1)).foldl (fun m i => m.copyLine (i + 1)) m

/-- A value stored in each cell of the last line. -/
def fillLine (value : CellMemory → UInt16) : CellMemory :=
  (List.range vgaWidth).foldl (fun m i => m.put (24 * vgaWidth + i : ℕ) (value m)) m

end CellMemory

/-- `terminal_make_char`: a character is signed, and takes the colour's place when it is
negative. -/
def terminalMakeChar (c colour : UInt8) : UInt16 :=
  colour.toUInt16 <<< 8 ||| (if c < 0x80 then c.toUInt16 else 0xFF00 ||| c.toUInt16)

/-- The video memory and the cursor; the coordinates are of type `uint16_t`. -/
structure Terminal where
  video : CellMemory
  row : ℕ
  col : ℕ

def bell : UInt8 := 0x07
def backspace : UInt8 := 0x08
def tab : UInt8 := 0x09
def newline : UInt8 := 0x0A
def formFeed : UInt8 := 0x0C
def carriageReturn : UInt8 := 0x0D
def space : UInt8 := 0x20

/-- `terminal_get_attr`. -/
def terminalGetAttr (t : Terminal) : UInt8 := t.video.getAttribute t.col t.row

/-- `terminal_putchar`. -/
def terminalPutchar (t : Terminal) (x y : ℕ) (c colour : UInt8) : Terminal :=
  { t with video := t.video.put (y * vgaWidth + x : ℕ) (terminalMakeChar c colour) }

/-- `scroll_down`. -/
def scrollDown (t : Terminal) : Terminal :=
  { t with video := t.video.copyLines.fillLine fun m =>
      terminalMakeChar space (m.getAttribute t.col t.row) }

/-- The end of `terminal_writechar`: a character at the cursor, which goes on by a cell. -/
def terminalStore (t : Terminal) (c colour : UInt8) : Terminal :=
  let col := (t.col + 1) % 2 ^ 16
  { terminalPutchar t t.col t.row c colour with
    col := if col ≥ vgaWidth then 0 else col
    row := if col ≥ vgaWidth then (t.row + 1) % 2 ^ 16 else t.row }

/-- The rest of `terminal_writechar` behind the control characters. -/
def terminalPlain (t : Terminal) (c colour : UInt8) : Terminal :=
  terminalStore (if t.col = 79 ∧ t.row = 24 then scrollDown t else t) c colour

/-- `terminal_backspace`.  A space takes none of the branches for control characters. -/
def terminalBackspace (t : Terminal) : Terminal :=
  if t.row = 0 ∧ t.col = 0 then t
  else if t.col ≤ 0 then
    let t := { t with row := (t.row + 2 ^ 16 - 1) % 2 ^ 16, col := vgaWidth - 1 }
    let t := terminalPlain t space 15
    { t with row := (t.row + 2 ^ 16 - 1) % 2 ^ 16, col := vgaWidth - 1 }
  else
    let t := { t with col := (t.col + 2 ^ 16 - 1) % 2 ^ 16 }
    let t := terminalPlain t space 15
    { t with col := (t.col + 2 ^ 16 - 1) % 2 ^ 16 }

/-- `terminal_writechar`; `beep` does nothing to the screen. -/
def terminalWritechar (t : Terminal) (c colour : UInt8) : Terminal :=
  if (c = newline ∨ c = carriageReturn) ∧ t.row < vgaHeight then
    if t.row = 24 then { scrollDown t with col := 0 }
    else { t with row := (t.row + 1) % 2 ^ 16, col := 0 }
  else if c = formFeed ∧ t.row < vgaHeight then
    if t.row = 24 then scrollDown t else { t with row := (t.row + 1) % 2 ^ 16 }
  else if c = bell then t
  else if c = backspace then terminalBackspace t
  else
    let t := if c = tab then { t with col := if t.col = 75 then 79 else (t.col + 4) % 2 ^ 16 }
      else t
    terminalPlain t c colour

/-- `set_cursor`. -/
def setCursor (t : Terminal) (x y : ℕ) : Terminal :=
  { t with
    col := if x ≥ vgaWidth then vgaWidth - 1 else x
    row := if y ≥ vgaHeight then vgaHeight - 1 else y }

/-- `print`. -/
def print (t : Terminal) (message : List UInt8) : Terminal :=
  message.foldl (fun t c => terminalWritechar t c (terminalGetAttr t)) t

/-- `graphics_put`: the attribute of a cell. -/
def CellMemory.graphicsPut (m : CellMemory) (c : UInt8) (x y : ℕ) : CellMemory :=
  m.put (y * vgaWidth + x : ℕ)
    (c.toUInt16 <<< 8 ||| (m.char (y * vgaWidth + x : ℕ)).toUInt16)

/-- `graphics_draw_line`. -/
def CellMemory.graphicsDrawLine (m : CellMemory) (c : UInt8) (y : ℕ) : CellMemory :=
  (List.range vgaWidth).foldl (fun m i => m.graphicsPut c i y) m

/-- The inner loop of `clrscr`. -/
def clrscrLine (t : Terminal) (y : ℕ) : Terminal :=
  (List.range vgaWidth).foldl (fun t x => terminalPutchar t x y space (terminalGetAttr t)) t

/-- `clrscr`. -/
def clrscr (t : Terminal) (c : UInt8) : Terminal :=
  setCursor ((List.range vgaHeight).foldl (fun t y =>
    clrscrLine { t with video := t.video.graphicsDrawLine c y } y) t) 0 0

/-- `terminal_initialize`. -/
def terminalInitialize (t : Terminal) : Terminal := clrscr { t with row := 0, col := 0 } 15

/-! ## Lines -/

namespace CellMemory

variable {m : CellMemory}

/-- The index belongs to a cell of the screen. -/
def OnScreen (i : ℤ) : Prop := 0 ≤ i ∧ i < 2000

/-- Only cells of the screen were written. -/
def Inside (m : CellMemory) : Prop := ∀ i ∈ m.written, OnScreen i

lemma Inside.put (h : m.Inside) {i : ℤ} (hi : OnScreen i) (value : UInt16) :
    (m.put i value).Inside := by
  intro j hj
  rcases List.mem_append.mp hj with hj | hj
  · exact h j hj
  · rwa [List.mem_singleton.mp hj]

lemma Inside.copyLines (h : m.Inside) : m.copyLines.Inside := by
  refine List.foldlRecOn _ _ h fun m hm i hi => List.foldlRecOn _ _ hm fun m hm j hj => hm.put ?_ _
  have hi' := List.mem_range.mp hi
  have hj' := List.mem_range.mp hj
  rw [vgaHeight] at hi'
  rw [vgaWidth] at hj'
  constructor <;> (rw [vgaWidth]; omega)

lemma Inside.fillLine (h : m.Inside) (value : CellMemory → UInt16) :
    (m.fillLine value).Inside := by
  refine List.foldlRecOn _ _ h fun m hm j hj => hm.put ?_ _
  have hj' := List.mem_range.mp hj
  rw [vgaWidth] at hj'
  constructor <;> (rw [vgaWidth]; omega)

@[simp] lemma put_cell_self (i : ℤ) (value : UInt16) : (m.put i value).cell i = value :=
  Function.update_self _ _ _

lemma put_cell_of_ne {i k : ℤ} (h : k ≠ i) (value : UInt16) : (m.put i value).cell k = m.cell k :=
  Function.update_of_ne h _ _

lemma put_char (m : CellMemory) (i k : ℤ) (value : UInt16) :
    (m.put i value).char k = if k = i then value.toUInt8 else m.char k := by
  by_cases hk : k = i
  · rw [hk, if_pos rfl, char, put_cell_self]
  · rw [if_neg hk, char, put_cell_of_ne hk]
    rfl

/-- Cells copied to a place in front of them. -/
lemma copy_cell {a b n : ℕ} (hab : a + n ≤ b) (k : ℤ) :
    ((List.range n).foldl (fun m j => m.put (a + j : ℕ) (m.cell (b + j : ℕ))) m).cell k =
      if a ≤ k ∧ k < a + n then m.cell (k + (b - a)) else m.cell k := by
  induction n generalizing k with
  | zero =>
    rw [if_neg (by omega)]
    rfl
  | succ n ih =>
    rw [List.range_succ, List.foldl_append, List.foldl_cons, List.foldl_nil]
    by_cases hk : k = (a + n : ℕ)
    · subst hk
      -- the cell that is read was not written yet
      rw [put_cell_self, ih (by omega), if_neg (by omega), if_pos (by omega)]
      congr 1
      omega
    · rw [put_cell_of_ne hk, ih (by omega)]
      exact if_congr (by omega) rfl rfl

lemma copyLines_cell (k : ℤ) :
    m.copyLines.cell k = if 0 ≤ k ∧ k < 1920 then m.cell (k + 80) else m.cell k := by
  have hlines : ∀ n : ℕ, ∀ k : ℤ, ((List.range n).foldl (fun m i => m.copyLine (i + 1)) m).cell k =
      if 0 ≤ k ∧ k < n * 80 then m.cell (k + 80) else m.cell k := by
    intro n
    induction n with
    | zero => exact fun k => (if_neg (by omega)).symm
    | succ n ih =>
      intro k
      rw [List.range_succ, List.foldl_append, List.foldl_cons, List.foldl_nil, copyLine,
        copy_cell (by rw [vgaWidth]; omega), ih, ih]
      rw [vgaWidth]
      by_cases hline : ((n + 1 - 1) * 80 : ℕ) ≤ k ∧ k < ((n + 1 - 1) * 80 : ℕ) + (80 : ℕ)
      · rw [if_pos hline, if_neg (by omega), if_pos (by omega)]
        congr 1
        omega
      · rw [if_neg hline]
        exact if_congr (by omega) rfl rfl
  exact hlines 24 k

/-- The last line filled with one character. -/
lemma fillLine_char {value : CellMemory → UInt16} {c : UInt8}
    (hvalue : ∀ m, (value m).toUInt8 = c) (k : ℤ) :
    (m.fillLine value).char k = if 1920 ≤ k ∧ k < 2000 then c else m.char k := by
  have hfill : ∀ n : ℕ, ((List.range n).foldl (fun m i =>
      m.put (24 * vgaWidth + i : ℕ) (value m)) m).char k =
        if 1920 ≤ k ∧ k < 1920 + n then c else m.char k := by
    intro n
    induction n with
    | zero => exact (if_neg (by omega)).symm
    | succ n ih =>
      rw [List.range_succ, List.foldl_append, List.foldl_cons, List.foldl_nil]
      by_cases hk : k = (24 * vgaWidth + n : ℕ)
      · subst hk
        rw [char, put_cell_self, hvalue, vgaWidth, if_pos (by omega)]
      · rw [char, put_cell_of_ne hk]
        rw [vgaWidth] at hk
        exact ih.trans (if_congr (by omega) rfl rfl)
  exact hfill 80

/-- The characters after the screen has moved up by a line. -/
lemma scroll_char {value : CellMemory → UInt16} {c : UInt8}
    (hvalue : ∀ m, (value m).toUInt8 = c) {k : ℤ} (hk : OnScreen k) :
    (m.copyLines.fillLine value).char k = if k < 1920 then m.char (k + 80) else c := by
  rw [fillLine_char hvalue]
  by_cases hlast : k < 1920
  · rw [if_neg (by omega), if_pos hlast, char, copyLines_cell, if_pos ⟨hk.1, hlast⟩]
    rfl
  · rw [if_pos ⟨by omega, hk.2⟩, if_neg hlast]

end CellMemory

@[simp] lemma terminalMakeChar_toUInt8 (c colour : UInt8) :
    (terminalMakeChar c colour).toUInt8 = c := by
  have hcolour : (colour.toUInt16 <<< 8).toUInt8 = 0 := by
    rw [← UInt8.toBitVec_inj]
    ext i hi
    simp
  have hsign : (0xFF00 : UInt16).toUInt8 = 0 := rfl
  rw [terminalMakeChar]
  split_ifs
  · simp [hcolour]
  · rw [UInt16.toUInt8_or, UInt16.toUInt8_or, hcolour, hsign]
    simp

/-! ## The cursor -/

open CellMemory

/-- The cursor is on the screen, and only cells of the screen were written. -/
structure Terminal.Inside (t : Terminal) : Prop where
  col_lt : t.col < 80
  row_lt : t.row < 25
  video : t.video.Inside

/-- The character leaves the cursor on the screen: it is not stored in the last cell, and not
behind it. -/
def TerminalFits (t : Terminal) (c : UInt8) : Prop :=
  c ∈ [newline, carriageReturn, formFeed, bell, backspace] ∨
    if c = tab then t.row < 24 ∨ t.col < 75 else t.row < 24 ∨ t.col < 79

instance (t : Terminal) (c : UInt8) : Decidable (TerminalFits t c) :=
  inferInstanceAs (Decidable (_ ∨ ite _ _ _))

variable {t : Terminal} {c colour : UInt8}

lemma setCursor_col (t : Terminal) (x y : ℕ) : (setCursor t x y).col = min x 79 := by
  have hwidth : vgaWidth = 80 := rfl
  simp only [setCursor]
  split_ifs <;> omega

lemma setCursor_row (t : Terminal) (x y : ℕ) : (setCursor t x y).row = min y 24 := by
  have hheight : vgaHeight = 25 := rfl
  simp only [setCursor]
  split_ifs <;> omega

lemma scrollDown_video (t : Terminal) : (scrollDown t).video =
    t.video.copyLines.fillLine fun m => terminalMakeChar space (m.getAttribute t.col t.row) := by
  rw [scrollDown]

lemma Terminal.Inside.scrollDown (h : t.Inside) : (scrollDown t).Inside := by
  refine ⟨h.col_lt, h.row_lt, ?_⟩
  rw [scrollDown_video]
  exact h.video.copyLines.fillLine _

/-- A character that is stored in another cell than the last one. -/
lemma terminalPlain_eq {m : CellMemory} {row col : ℕ} (hcol : col < 100) (hrow : row < 25)
    (h : ¬ (col = 79 ∧ row = 24)) (c colour : UInt8) :
    terminalPlain ⟨m, row, col⟩ c colour =
      ⟨m.put (row * vgaWidth + col : ℕ) (terminalMakeChar c colour),
        if col < 79 then row else row + 1, if col < 79 then col + 1 else 0⟩ := by
  rw [terminalPlain, if_neg h, terminalStore]
  simp only [Nat.mod_eq_of_lt (by omega : col + 1 < 2 ^ 16),
    Nat.mod_eq_of_lt (by omega : row + 1 < 2 ^ 16), vgaWidth]
  by_cases hlast : col < 79
  · rw [if_neg (by omega), if_neg (by omega), if_pos hlast, if_pos hlast]
    rfl
  · rw [if_pos (by omega), if_pos (by omega), if_neg hlast, if_neg hlast]
    rfl

/-- A character in the last cell: the screen moves up, and the cursor leaves it. -/
lemma terminalPlain_last {m : CellMemory} (c colour : UInt8) :
    terminalPlain ⟨m, 24, 79⟩ c colour =
      ⟨(scrollDown ⟨m, 24, 79⟩).video.put 1999 (terminalMakeChar c colour), 25, 0⟩ := by
  rw [terminalPlain, if_pos ⟨rfl, rfl⟩, terminalStore, terminalPutchar]
  rfl

/-- Going back by a cell, over the beginning of a line or not: the space that is stored, and the
cursor. -/
lemma terminalBackspace_eq {m : CellMemory} {row col : ℕ} (hcol : col < 80) (hrow : row < 25)
    (h : ¬ (row = 0 ∧ col = 0)) : terminalBackspace ⟨m, row, col⟩ =
      ⟨m.put (row * vgaWidth + col - 1 : ℕ) (terminalMakeChar space 15),
        if col = 0 then row - 1 else row, if col = 0 then 79 else col - 1⟩ := by
  rw [terminalBackspace, if_neg h]
  by_cases h0 : col = 0
  · subst h0
    have hback : (row + 2 ^ 16 - 1) % 2 ^ 16 = row - 1 := by omega
    have hindex : (row - 1) * 80 + (80 - 1) = row * 80 + 0 - 1 := by omega
    have hrow' : (row - 1 + 1 + 2 ^ 16 - 1) % 2 ^ 16 = row - 1 := by omega
    simp only [le_refl, if_true, hback, vgaWidth]
    rw [terminalPlain_eq (by decide) (by omega) (by omega)]
    simp only [Nat.lt_irrefl, if_false, vgaWidth, hindex, hrow']
  · have hback : (col + 2 ^ 16 - 1) % 2 ^ 16 = col - 1 := by omega
    have hindex : row * 80 + (col - 1) = row * 80 + col - 1 := by omega
    have hcol' : (col - 1 + 1 + 2 ^ 16 - 1) % 2 ^ 16 = col - 1 := by omega
    simp only [Nat.le_zero, h0, if_false, hback]
    rw [terminalPlain_eq (by omega) hrow (by omega)]
    simp only [show col - 1 < 79 by omega, if_true, vgaWidth, hindex, hcol']

lemma terminalPlain_inside {m : CellMemory} {row col : ℕ} (hm : m.Inside) (hcol : col < 100)
    (h : row < 24 ∨ row < 25 ∧ col < 79) : (terminalPlain ⟨m, row, col⟩ c colour).Inside := by
  rw [terminalPlain_eq hcol (by omega) (by omega)]
  refine ⟨?_, ?_, hm.put ?_ _⟩
  · split_ifs <;> simp only <;> omega
  · split_ifs <;> simp only <;> omega
  · rw [vgaWidth]
    constructor <;> omega

/-- A character in the last cell or behind it takes the cursor off the screen. -/
lemma terminalPlain_leaves {m : CellMemory} {col : ℕ} (hcol : 79 ≤ col) (hcol' : col < 100) :
    (terminalPlain ⟨m, 24, col⟩ c colour).row = 25 := by
  rcases hcol.eq_or_lt with rfl | hlt
  · rw [terminalPlain_last]
  · rw [terminalPlain_eq hcol' (by omega) (by omega), if_neg (by omega)]

/-- What a tabulator does to the column. -/
def tabCol (col : ℕ) : ℕ := if col = 75 then 79 else col + 4

/-- The characters that are no control characters but the tabulator are stored. -/
lemma terminalWritechar_plain {m : CellMemory} {row col : ℕ} (hcol : col < 80)
    (hc : c ∉ [newline, carriageReturn, formFeed, bell, backspace]) :
    terminalWritechar ⟨m, row, col⟩ c colour =
      terminalPlain ⟨m, row, if c = tab then tabCol col else col⟩ c colour := by
  simp only [List.mem_cons, List.not_mem_nil, or_false, not_or] at hc
  obtain ⟨hn, hr, hf, ha, hb⟩ := hc
  have hmod : (col + 4) % 2 ^ 16 = col + 4 := by omega
  rw [terminalWritechar, if_neg (by simp [hn, hr]), if_neg (by simp [hf]), if_neg ha, if_neg hb]
  by_cases htab : c = tab
  · simp only [htab, if_true, hmod, tabCol]
  · simp only [htab, if_false]

/-- The control characters that go to the next line. -/
lemma terminalWritechar_line {m : CellMemory} {row col : ℕ} (hrow : row < 25)
    (hc : c ∈ [newline, carriageReturn, formFeed]) :
    terminalWritechar ⟨m, row, col⟩ c colour =
      ⟨if row = 24 then (scrollDown ⟨m, row, col⟩).video else m,
        if row = 24 then 24 else row + 1, if c = formFeed then col else 0⟩ := by
  have hmod : (row + 1) % 2 ^ 16 = row + 1 := by omega
  simp only [List.mem_cons, List.not_mem_nil, or_false] at hc
  rw [terminalWritechar]
  by_cases hf : c = formFeed
  · have hn : ¬ (c = newline ∨ c = carriageReturn) := by
      rw [hf]
      decide
    rw [if_neg fun h => hn h.1, if_pos ⟨hf, hrow⟩, if_pos hf]
    by_cases hlast : row = 24
    · simp only [hlast, if_true]
      rfl
    · simp only [hlast, if_false, hmod]
  · have hn : c = newline ∨ c = carriageReturn := by tauto
    rw [if_pos ⟨hn, hrow⟩, if_neg hf]
    by_cases hlast : row = 24
    · simp only [hlast, if_true]
      rfl
    · simp only [hlast, if_false, hmod]

lemma terminalWritechar_bell : terminalWritechar t bell colour = t := rfl

lemma terminalWritechar_backspace : terminalWritechar t backspace colour = terminalBackspace t :=
  rfl

/-- The control characters that are not stored keep the cursor on the screen. -/
lemma terminalWritechar_control (h : t.Inside)
    (hc : c ∈ [newline, carriageReturn, formFeed, bell, backspace]) :
    (terminalWritechar t c colour).Inside := by
  have hscroll := h.scrollDown.video
  have hinside := h
  obtain ⟨hcol, hrow, hvideo⟩ := h
  obtain ⟨m, row, col⟩ := t
  simp only at hcol hrow hvideo
  by_cases hline : c ∈ [newline, carriageReturn, formFeed]
  · rw [terminalWritechar_line hrow hline]
    refine ⟨?_, ?_, ?_⟩
    · split_ifs <;> simp only <;> omega
    · split_ifs <;> simp only <;> omega
    · by_cases hlast : row = 24
      · rw [if_pos hlast]
        exact hscroll
      · rw [if_neg hlast]
        exact hvideo
  · have hrest : c = bell ∨ c = backspace := by
      simp only [List.mem_cons, List.not_mem_nil, or_false] at hc hline
      tauto
    rcases hrest with rfl | rfl
    · rwa [terminalWritechar_bell]
    · rw [terminalWritechar_backspace]
      by_cases hzero : row = 0 ∧ col = 0
      · rwa [terminalBackspace, if_pos hzero]
      · rw [terminalBackspace_eq hcol hrow hzero]
        refine ⟨?_, ?_, hvideo.put ?_ _⟩
        · split_ifs <;> simp only <;> omega
        · split_ifs <;> simp only <;> omega
        · rw [vgaWidth]
          constructor <;> omega

lemma terminalWritechar_inside (h : t.Inside) (hfits : TerminalFits t c) :
    (terminalWritechar t c colour).Inside := by
  by_cases hc : c ∈ [newline, carriageReturn, formFeed, bell, backspace]
  · exact terminalWritechar_control h hc
  · obtain ⟨hcol, hrow, hvideo⟩ := h
    obtain ⟨m, row, col⟩ := t
    simp only [TerminalFits, hc, false_or] at hfits hcol hrow hvideo
    rw [terminalWritechar_plain hcol hc]
    by_cases htab : c = tab
    · rw [if_pos htab] at hfits ⊢
      refine terminalPlain_inside hvideo ?_ ?_ <;> (rw [tabCol]; split_ifs <;> omega)
    · rw [if_neg htab] at hfits ⊢
      exact terminalPlain_inside hvideo (by omega) (by omega)

lemma terminalWritechar_leaves (h : t.Inside) (hfits : ¬ TerminalFits t c) :
    (terminalWritechar t c colour).row = 25 := by
  obtain ⟨hcol, hrow, hvideo⟩ := h
  obtain ⟨m, row, col⟩ := t
  simp only at hcol hrow
  obtain ⟨hc, hfits⟩ := not_or.mp hfits
  rw [terminalWritechar_plain hcol hc]
  by_cases htab : c = tab
  · simp only [htab, if_true] at hfits ⊢
    obtain rfl : row = 24 := by omega
    refine terminalPlain_leaves ?_ ?_ <;> (rw [tabCol]; split_ifs <;> omega)
  · simp only [htab, if_false] at hfits ⊢
    obtain rfl : row = 24 := by omega
    exact terminalPlain_leaves (by omega) (by omega)

/-- A character with its colour, in a run of the terminal. -/
def terminalStep (t : Terminal) (w : UInt8 × UInt8) : Option Terminal :=
  some (terminalWritechar t w.1 w.2)

/-- The cursor stays on the screen and only cells of it are written, along a run, if and only if
each of the characters fits. -/
lemma terminal_inside_iff (h : t.Inside) (ws : List (UInt8 × UInt8)) :
    Always terminalStep Terminal.Inside t ws ↔
      Guarded terminalStep (fun t w => TerminalFits t w.1) t ws := by
  refine always_iff_guarded (L := fun _ _ => True) (fun _ h => h)
    (fun t w ht _ hfits => ⟨_, rfl, terminalWritechar_inside ht hfits⟩) ?_ h guarded_true
  rintro t w _ ht - hfits ⟨⟩ hin
  exact absurd (terminalWritechar_leaves ht hfits) hin.row_lt.ne

end SerpaeOS
