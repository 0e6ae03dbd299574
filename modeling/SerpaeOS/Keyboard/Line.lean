import SerpaeOS.Graphics.Terminal
import SerpaeOS.Keyboard.Buffer
import SerpaeOS.Lib.CString

/-!
# Lines from the keyboard

A program that calls `gets` polls its keyboard buffer with `getkey` while the driver pushes the
keys that are pressed, and other programs poll theirs.  Each character that it gets goes to the
string and is printed, and a backspace takes back the last one.  When the process is the one that
is shown, the terminal shows the line as it is in the memory of the program.
-/

namespace SerpaeOS

open Bytes Ring StepRun CellMemory

/-! ## `gets` -/

/-- `KEY_DOWN`: characters from it on are skipped. -/
def keyDownKey : UInt8 := 220

/-- The pointer `out`, the memory of the program, and whether the call has returned. -/
structure Gets where
  out : ℕ
  byte : ℕ → UInt8
  returned : Bool

/-- The loop of `gets` with the next character from `getchar`, and what it prints with
`putchar`. -/
def Gets.round (tmp : ℕ) (g : Gets) (c : UInt8) : Gets × List UInt8 :=
  if c = carriageReturn then
    ({ g with byte := Function.update g.byte g.out 0, returned := true }, [])
  else if c ≥ keyDownKey then (g, [])
  else if c = backspace then
    if g.out = tmp then (g, [])
    else
      ({ g with out := g.out - 1, byte := Function.update g.byte (g.out - 1) 0 }, [backspace])
  else ({ g with out := g.out + 1, byte := Function.update g.byte g.out c }, [c])

/-- The keyboard buffers, the terminal, and a call of `gets` by the process that is shown. -/
structure Console where
  keyboard : KeyboardRun
  terminal : Terminal
  gets : Gets

/-- A step of the driver or of a program.  While the call has not returned, `getchar` polls
`getkey` until the character is not zero; `print` is what `process_print` does to the screen that
is shown. -/
def consoleStep (tmp : ℕ) (process : Ptr) (s : Console) : KeyboardOp → Option Console
  | .push current c =>
    (keyboardStep s.keyboard (.push current c)).map fun keyboard => { s with keyboard := keyboard }
  | .pop task =>
    if task = some process then
      if s.gets.returned then some s
      else (keyboardStep s.keyboard (.pop task)).map fun keyboard =>
        let c := (keyboardPop s.keyboard.keyboards task).1
        if c = 0 then { s with keyboard := keyboard }
        else ⟨keyboard, print s.terminal (s.gets.round tmp c).2, (s.gets.round tmp c).1⟩
    else
      (keyboardStep s.keyboard (.pop task)).map fun keyboard => { s with keyboard := keyboard }

/-! ## Editing -/

/-- The line after a further key. -/
def editKey (line : List UInt8) (c : UInt8) : List UInt8 :=
  if c ≥ keyDownKey then line else if c = backspace then line.dropLast else line ++ [c]

/-- The line that is typed with the keys. -/
def editLine (keys : List UInt8) : List UInt8 := keys.foldl editKey []

variable {tmp : ℕ} {process : Ptr} {g : Gets} {byte : ℕ → UInt8} {keys line : List UInt8}
  {c : UInt8} {s s' : Console} {t t₀ : Terminal} {n : ℕ}

lemma editLine_concat : editLine (keys ++ [c]) = editKey (editLine keys) c := by
  rw [editLine, List.foldl_append]
  rfl

lemma editLine_subset : editLine keys ⊆ keys := by
  induction keys using List.reverseRecOn with
  | nil => exact List.Subset.refl []
  | append_singleton keys c ih =>
    have hsub : editLine keys ⊆ keys ++ [c] := fun x hx => List.mem_append_left _ (ih hx)
    rw [editLine_concat, editKey]
    split_ifs
    · exact hsub
    · exact fun x hx => hsub (List.dropLast_subset _ hx)
    · exact List.append_subset.mpr ⟨hsub, List.subset_append_right _ _⟩

/-! ## The string -/

/-- The line is in the memory of the program from `tmp` on, and at most the bytes for `n`
characters and a zero have changed. -/
structure Typed (byte : ℕ → UInt8) (tmp : ℕ) (line : List UInt8) (n : ℕ) (g : Gets) : Prop where
  out_eq : g.out = tmp + line.length
  line_eq : slice g.byte tmp line.length = line
  length_le : line.length ≤ n
  frame : ∀ a, a < tmp ∨ tmp + n < a → g.byte a = byte a

/-- A key that does not end the line. -/
lemma Typed.key (h : Typed byte tmp line n g) (hc : c ≠ carriageReturn) :
    Typed byte tmp (editKey line c) (n + 1) (g.round tmp c).1 := by
  obtain ⟨hout, hline, hlen, hframe⟩ := h
  rw [Gets.round, editKey, if_neg hc]
  by_cases hdown : c ≥ keyDownKey
  · rw [if_pos hdown, if_pos hdown]
    exact ⟨hout, hline, by omega, fun a ha => hframe a (by omega)⟩
  rw [if_neg hdown, if_neg hdown]
  by_cases hback : c = backspace
  · rw [if_pos hback, if_pos hback]
    rcases List.eq_nil_or_concat' line with rfl | ⟨init, last, rfl⟩
    · rw [if_pos (show g.out = tmp from hout)]
      exact ⟨hout, hline, Nat.zero_le _, fun a ha => hframe a (by omega)⟩
    · rw [List.length_append, List.length_singleton] at hout hlen
      rw [if_neg (by omega), List.dropLast_concat]
      refine ⟨?_, ?_, by omega, fun a ha => ?_⟩
      · change g.out - 1 = _
        omega
      · exact (slice_update_of_le (by omega)).trans (slice_eq_concat_iff.mp hline).1
      · exact (Function.update_of_ne (by omega) _ _).trans (hframe a (by omega))
  · rw [if_neg hback, if_neg hback]
    refine ⟨?_, slice_eq_concat_iff.mpr ⟨(slice_update_of_le (by omega)).trans hline, ?_⟩, ?_,
      fun a ha => ?_⟩
    · rw [List.length_append, List.length_singleton, hout]
      rfl
    · rw [← hout]
      exact Function.update_self _ _ _
    · rw [List.length_append, List.length_singleton]
      omega
    · exact (Function.update_of_ne (by omega) _ _).trans (hframe a (by omega))

/-- The key that ends the line puts a zero behind it. -/
lemma Typed.enter (h : Typed byte tmp line n g) (hne : 0 ∉ line) :
    Typed byte tmp line n (g.round tmp carriageReturn).1 ∧
      HasString (g.round tmp carriageReturn).1.byte tmp line := by
  obtain ⟨hout, hline, hlen, hframe⟩ := h
  have hround : g.round tmp carriageReturn =
      ({ g with byte := Function.update g.byte g.out 0, returned := true }, []) := if_pos rfl
  rw [hround]
  have hslice : slice (Function.update g.byte g.out 0) tmp line.length = line := by
    rw [slice_update_of_le (by omega), hline]
  refine ⟨⟨hout, hslice, hlen, fun a ha => ?_⟩, ?_⟩
  · exact (Function.update_of_ne (by omega) _ _).trans (hframe a ha)
  · refine hasString_of_slice hslice hne ?_
    rw [← hout]
    exact Function.update_self _ _ _

/-! ## The terminal -/

/-- The number of the cell at the cursor. -/
def Terminal.position (t : Terminal) : ℕ := t.row * vgaWidth + t.col

/-- The line is on the screen from the place on where the cursor was, and the cursor is behind it;
at most the cells for `n` characters have changed. -/
structure Shown (t₀ : Terminal) (line : List UInt8) (n : ℕ) (t : Terminal) : Prop where
  col_lt : t.col < 80
  row_lt : t.row < 25
  position_eq : t.position = t₀.position + line.length
  line_eq : ∀ i < line.length, t.video.char (t₀.position + i : ℕ) = line.getD i 0
  frame : ∀ k : ℤ, k < t₀.position ∨ t₀.position + n ≤ k → t.video.char k = t₀.video.char k

/-- The key takes back a character or is skipped, or its character is printed and does not go to
the last cell. -/
def EchoFits (t : Terminal) (c : UInt8) : Prop :=
  c ≥ keyDownKey ∨ c = backspace ∨ c ≥ space ∧ t.position < 1999

instance (t : Terminal) (c : UInt8) : Decidable (EchoFits t c) :=
  inferInstanceAs (Decidable (_ ∨ _ ∨ _ ∧ _))

lemma Shown.plain (h : Shown t₀ line n t) (hlen : line.length ≤ n) (hc : c ≥ space)
    (hroom : t.position < 1999) :
    Shown t₀ (line ++ [c]) (n + 1) (print t [c]) := by
  obtain ⟨hcol, hrow, hposition, hline, hframe⟩ := h
  obtain ⟨m, row, col⟩ := t
  have hspace : c ∉ [newline, carriageReturn, formFeed, bell, backspace] ∧ c ≠ tab := by
    constructor
    · intro hmem
      simp only [List.mem_cons, List.not_mem_nil, or_false] at hmem
      rcases hmem with rfl | rfl | rfl | rfl | rfl <;> exact absurd hc (by decide)
    · rintro rfl
      exact absurd hc (by decide)
  rw [Terminal.position, vgaWidth] at hroom hposition
  simp only at hcol hrow hroom hposition hline hframe
  have hprint : print ⟨m, row, col⟩ [c] =
      terminalPlain ⟨m, row, col⟩ c (terminalGetAttr ⟨m, row, col⟩) := by
    refine (terminalWritechar_plain hcol hspace.1).trans ?_
    rw [if_neg hspace.2]
  rw [hprint, terminalPlain_eq (by omega) hrow (by omega), vgaWidth, hposition]
  refine ⟨?_, ?_, ?_, fun i hi => ?_, fun k hk => ?_⟩
  · simp only
    split_ifs <;> omega
  · simp only
    split_ifs <;> omega
  · rw [Terminal.position, vgaWidth, List.length_append, List.length_singleton]
    simp only
    split_ifs <;> omega
  · rw [List.length_append, List.length_singleton] at hi
    simp only [CellMemory.put_char, terminalMakeChar_toUInt8]
    by_cases hlast : i = line.length
    · rw [if_pos (by omega), hlast, List.getD_append_right _ _ _ _ (Nat.le_refl _), Nat.sub_self]
      rfl
    · rw [if_neg (by omega), List.getD_append _ _ _ _ (by omega)]
      exact hline i (by omega)
  · simp only [CellMemory.put_char, terminalMakeChar_toUInt8]
    rw [if_neg (by omega)]
    exact hframe k (by omega)

lemma Shown.back {last : UInt8} (h : Shown t₀ (line ++ [last]) n t)
    (hlen : (line ++ [last]).length ≤ n) : Shown t₀ line (n + 1) (print t [backspace]) := by
  obtain ⟨hcol, hrow, hposition, hline, hframe⟩ := h
  obtain ⟨m, row, col⟩ := t
  rw [List.length_append, List.length_singleton] at hlen hposition hline
  rw [Terminal.position, vgaWidth] at hposition
  simp only at hcol hrow hposition hline hframe
  have hprint : print ⟨m, row, col⟩ [backspace] = terminalBackspace ⟨m, row, col⟩ := rfl
  rw [hprint, terminalBackspace_eq hcol hrow (by omega), vgaWidth, hposition]
  refine ⟨?_, ?_, ?_, fun i hi => ?_, fun k hk => ?_⟩
  · simp only
    split_ifs <;> omega
  · simp only
    split_ifs <;> omega
  · rw [Terminal.position, vgaWidth]
    simp only
    split_ifs <;> omega
  · simp only [CellMemory.put_char, terminalMakeChar_toUInt8]
    rw [if_neg (by omega), hline i (by omega), List.getD_append _ _ _ _ hi]
  · simp only [CellMemory.put_char, terminalMakeChar_toUInt8]
    rw [if_neg (by omega)]
    exact hframe k (by omega)

/-- The terminal follows a key that does not end the line. -/
lemma Shown.key (h : Shown t₀ line n t) (hg : Typed byte tmp line n g) (hc : c ≠ carriageReturn)
    (hfits : EchoFits t c) :
    Shown t₀ (editKey line c) (n + 1) (print t (g.round tmp c).2) := by
  have hsame : Shown t₀ line (n + 1) (print t []) :=
    ⟨h.col_lt, h.row_lt, h.position_eq, h.line_eq, fun k hk => h.frame k (by omega)⟩
  rw [Gets.round, editKey, if_neg hc]
  by_cases hdown : c ≥ keyDownKey
  · rw [if_pos hdown, if_pos hdown]
    exact hsame
  rw [if_neg hdown, if_neg hdown]
  by_cases hback : c = backspace
  · rw [if_pos hback, if_pos hback]
    have hout := hg.out_eq
    rcases List.eq_nil_or_concat' line with rfl | ⟨init, last, rfl⟩
    · rw [if_pos (show g.out = tmp from hout)]
      exact hsame
    · rw [List.length_append, List.length_singleton] at hout
      rw [if_neg (by omega), List.dropLast_concat]
      exact h.back hg.length_le
  · rw [if_neg hback, if_neg hback]
    obtain ⟨hspace, hroom⟩ := (hfits.resolve_left hdown).resolve_left hback
    exact h.plain hg.length_le hspace hroom

/-! ## Runs -/

/-- The driver pushes no character to the process while its buffer is full, and what a poll echoes
fits on the screen. -/
def ConsoleFits (process : Ptr) (s : Console) (op : KeyboardOp) : Prop :=
  KeyboardFits process s.keyboard op ∧
    let c := (keyboardPop s.keyboard.keyboards (some process)).1
    s.gets.returned = true ∨ c = 0 ∨ c = carriageReturn ∨ EchoFits s.terminal c

/-- What the keys that the process has popped have led to. -/
structure GetsInv (tmp : ℕ) (process : Ptr) (byte : ℕ → UInt8) (t₀ : Terminal) (keys : List UInt8)
    (s : Console) : Prop where
  keyboard : KeyboardInv process s.keyboard
  popped_eq : s.keyboard.popped process =
    keys ++ if s.gets.returned then [carriageReturn] else []
  notMem : carriageReturn ∉ keys ∧ 0 ∉ keys
  typed : Typed byte tmp (editLine keys) keys.length s.gets
  shown : Shown t₀ (editLine keys) keys.length s.terminal
  ended : s.gets.returned = true → HasString s.gets.byte tmp (editLine keys)

/-- The process has popped some of the keys that were pushed to it, in order; the line that they
are for is in its memory and on the screen.  The call returns with the first carriage return, and
the line is then a string; before, `getkey` returns zero only when no key is left. -/
def GetsOk (tmp : ℕ) (process : Ptr) (byte : ℕ → UInt8) (t₀ : Terminal) (s : Console) : Prop :=
  ∃ keys rest, carriageReturn ∉ keys ∧
    s.keyboard.pushed process =
      keys ++ (if s.gets.returned then [carriageReturn] else []) ++ rest ∧
    Typed byte tmp (editLine keys) keys.length s.gets ∧
    Shown t₀ (editLine keys) keys.length s.terminal ∧
    (s.gets.returned = true → HasString s.gets.byte tmp (editLine keys)) ∧
    ((keyboardPop s.keyboard.keyboards (some process)).1 = 0 ↔ rest = [])

lemma GetsInv.ok (h : GetsInv tmp process byte t₀ keys s) : GetsOk tmp process byte t₀ s := by
  obtain ⟨head, rest, hpushed, -⟩ := h.keyboard.queue
  have hpop := h.keyboard.pop_eq_zero_iff.1
  rw [hpushed, List.self_eq_append_right] at hpop
  rw [h.popped_eq] at hpushed
  exact ⟨keys, rest, h.notMem.1, hpushed, h.typed, h.shown, h.ended, hpop⟩

/-- A step that the call takes no part in. -/
lemma GetsInv.other (h : GetsInv tmp process byte t₀ keys s) {keyboard : KeyboardRun}
    (hk : KeyboardInv process keyboard)
    (hpopped : keyboard.popped process = s.keyboard.popped process) :
    GetsInv tmp process byte t₀ keys { s with keyboard := keyboard } :=
  ⟨hk, hpopped.trans h.popped_eq, h.notMem, h.typed, h.shown, h.ended⟩

/-- A poll of the process that gets a character. -/
lemma GetsInv.poll (h : GetsInv tmp process byte t₀ keys s) (hreturned : s.gets.returned = false)
    {keyboard : KeyboardRun} (hk : KeyboardInv process keyboard) (hne : c ≠ 0)
    (hpopped : keyboard.popped process = s.keyboard.popped process ++ [c])
    (hfits : c = carriageReturn ∨ EchoFits s.terminal c) :
    ∃ keys', GetsInv tmp process byte t₀ keys'
      ⟨keyboard, print s.terminal (s.gets.round tmp c).2, (s.gets.round tmp c).1⟩ := by
  have hpop := h.popped_eq
  rw [hreturned, if_neg Bool.false_ne_true, List.append_nil] at hpop
  rw [hpop] at hpopped
  by_cases hc : c = carriageReturn
  · subst hc
    obtain ⟨htyped, hstring⟩ := h.typed.enter fun hmem => h.notMem.2 (editLine_subset hmem)
    exact ⟨keys, hk, hpopped, h.notMem, htyped, h.shown, fun _ => hstring⟩
  · have hsame : (s.gets.round tmp c).1.returned = false := by
      rw [Gets.round, if_neg hc]
      split_ifs <;> exact hreturned
    refine ⟨keys ++ [c], hk, ?_, ?_, ?_, ?_, fun hret => ?_⟩
    · rw [hsame, if_neg Bool.false_ne_true, List.append_nil]
      exact hpopped
    · simp only [List.mem_append, List.mem_singleton, not_or]
      exact ⟨⟨h.notMem.1, Ne.symm hc⟩, h.notMem.2, Ne.symm hne⟩
    · rw [editLine_concat, List.length_append, List.length_singleton]
      exact h.typed.key hc
    · rw [editLine_concat, List.length_append, List.length_singleton]
      exact h.shown.key h.typed hc (hfits.resolve_left hc)
    · rw [hsame] at hret
      cases hret

lemma GetsInv.step {op : KeyboardOp} (h : GetsInv tmp process byte t₀ keys s) (hne : process ≠ 0)
    (hfits : ConsoleFits process s op) :
    ∃ s', consoleStep tmp process s op = some s' ∧
      ∃ keys', GetsInv tmp process byte t₀ keys' s' := by
  cases op with
  | push current c =>
    have hk := h.keyboard.step hne hfits.1 rfl
    exact ⟨_, rfl, keys, h.other hk rfl⟩
  | pop task =>
    have hk := h.keyboard.step hne hfits.1 rfl
    by_cases htask : task = some process
    · subst htask
      rw [consoleStep, if_pos rfl]
      cases hreturned : s.gets.returned with
      | true => exact ⟨s, rfl, keys, h⟩
      | false =>
        refine ⟨_, rfl, ?_⟩
        dsimp only at hk ⊢
        by_cases hc : (keyboardPop s.keyboard.keyboards (some process)).1 = 0
        · rw [if_pos hc]
          refine ⟨keys, h.other hk ?_⟩
          rw [hc, record, if_pos rfl]
        · rw [if_neg hc]
          refine h.poll hreturned hk hc (record_self hc) ?_
          rcases hfits.2 with hret | hzero | hfits
          · rw [hreturned] at hret
            cases hret
          · exact absurd hzero hc
          · exact hfits
    · rw [consoleStep, if_neg htask]
      refine ⟨_, rfl, keys, h.other hk ?_⟩
      cases task with
      | none => rfl
      | some p => exact record_other fun hp => htask (congrArg some hp)

/-- A call of `gets` by a process whose screen is shown, while keys are pressed and other programs
read theirs in any order: as long as the buffer does not overflow and the line fits on the screen,
the keys edit the line, in the order in which they were pressed, in the memory of the program and
on the screen, and the first carriage return makes it the string that is returned. -/
theorem gets_line {keyboards : Keyboards} {ops : List KeyboardOp} (hne : process ≠ 0)
    (hempty : (keyboards process).Empty) (hcol : t₀.col < 80) (hrow : t₀.row < 25)
    (hfits : Guarded (consoleStep tmp process) (ConsoleFits process)
      ⟨.start keyboards, t₀, tmp, byte, false⟩ ops) :
    Always (consoleStep tmp process) (GetsOk tmp process byte t₀)
      ⟨.start keyboards, t₀, tmp, byte, false⟩ ops := by
  refine always_of_guarded (I := fun s => ∃ keys, GetsInv tmp process byte t₀ keys s)
    (L := fun _ _ => True) (fun s ⟨keys, h⟩ => h.ok) (fun s op ⟨keys, h⟩ _ hop => h.step hne hop)
    ⟨[], keyboardInv_start hempty, rfl, ⟨by simp, by simp⟩, ?_, ?_, fun h => nomatch h⟩
    guarded_true hfits
  · exact ⟨rfl, rfl, Nat.le_refl 0, fun _ _ => rfl⟩
  · exact ⟨hcol, hrow, rfl, fun _ hi => absurd hi (Nat.not_lt_zero _), fun _ _ => rfl⟩

/-- A letter is typed and taken back behind the prompt, while another process gets a key. -/
theorem gets_line_backspace : Always (consoleStep 0x400000 1)
    (GetsOk 0x400000 1 (fun _ => 0) ⟨⟨fun _ => 0x0F20, []⟩, 0, 1⟩)
    ⟨.start fun _ => ⟨fun _ => 0, 0, 0⟩, ⟨⟨fun _ => 0x0F20, []⟩, 0, 1⟩,
      0x400000, fun _ => 0, false⟩
    [.push 1 0x61, .pop (some 1), .push 2 0x62, .push 1 backspace, .push 1 carriageReturn,
      .pop (some 1), .pop (some 1)] := by
  have hone : (1 : Ptr) ≠ 2 := by decide
  refine gets_line (by decide) ⟨fun _ _ => rfl, rfl⟩ (by decide) (by decide) ?_
  refine .cons rfl ⟨fun _ _ => by decide, by decide⟩ (.cons rfl ⟨trivial, by decide⟩ ?_)
  refine .cons rfl ⟨fun h => absurd h.symm hone, by decide⟩ ?_
  refine .cons rfl ⟨fun _ _ => by decide, by decide⟩ ?_
  refine .cons rfl ⟨fun _ _ => by decide, by decide⟩ ?_
  exact .cons rfl ⟨trivial, by decide⟩ (.cons rfl ⟨trivial, by decide⟩ guarded_nil)

end SerpaeOS
