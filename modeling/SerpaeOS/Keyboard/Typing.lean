import SerpaeOS.Keyboard.Buffer
import SerpaeOS.Keyboard.Classic

/-!
# Typing

From the interrupts of the keyboard to what a program reads: the driver makes characters of the
scancodes, which go to the buffer of the process that is shown.  Whatever state the driver is in,
there are keys for each text over certain characters, and no others ever come to a program.
-/

namespace SerpaeOS

open Ring StepRun

/-- The flags of the driver, and the buffers. -/
structure TypingRun where
  driver : ClassicKeyboard
  run : KeyboardRun

/-- An interrupt of the keyboard, with the current process, or a call of `keyboard_pop`. -/
inductive TypingOp
  | interrupt (current : Ptr) (scancode : UInt8)
  | pop (task : Option Ptr)

/-- The steps of the driver and of the programs.  The first one is
`classic_keyboard_handle_interrupt`. -/
def typingStep (r : TypingRun) : TypingOp → Option TypingRun
  | .interrupt current scancode =>
    let c := (r.driver.scancodeToChar scancode).1
    let driver := (r.driver.scancodeToChar scancode).2.2
    if c > 0 then (keyboardStep r.run (.push current c)).map fun run => ⟨driver, run⟩
    else some ⟨driver, r.run⟩
  | .pop task => (keyboardStep r.run (.pop task)).map fun run => ⟨r.driver, run⟩

/-- The characters that there is a key for: all that can be printed but the double quote, some
control characters, the arrows and `EOF`. -/
def Typeable (c : UInt8) : Prop :=
  (0x20 ≤ c ∧ c < 0x7F ∧ c ≠ '"'.toUInt8) ∨
    c ∈ [0x1B, 0x08, 0x09, 0x0D, keyDown, keyUp, keyLeft, keyRight, keyEof]

instance (c : UInt8) : Decidable (Typeable c) := inferInstanceAs (Decidable (_ ∨ _))

/-- The characters of a key. -/
def ClassicKey.chars : ClassicKey → List UInt8
  | .char c => [c.toUInt8]
  | .shifted c upper | .letter c upper => [c.toUInt8, upper.toUInt8]
  | .q => ['q'.toUInt8, 'Q'.toUInt8]
  | .d => [keyEof, 'd'.toUInt8, 'D'.toUInt8]
  | .backspace => [0x08]
  | .enter => [0x0D]
  | .home => ['7'.toUInt8]
  | .arrow digit code => [digit.toUInt8, code]
  | _ => []

variable {process : Ptr} {k k' k'' : ClassicKeyboard} {r r' : TypingRun} {c : UInt8}
  {keyboards : Keyboards} {shift ctrl prefixed : Bool}

/-- Each key has characters that can be typed only, and each of these has a key. -/
lemma typeable_iff_key : Typeable c ↔ ∃ scancode, c ∈ (classicKey scancode).chars := by
  have hkeys : ∀ n < 256, ∀ c ∈ (classicKey (UInt8.ofNat n)).chars, Typeable c := by
    decide +kernel
  have hchars : ∀ n < 256, Typeable (UInt8.ofNat n) →
      ∃ m < 84, UInt8.ofNat n ∈ (classicKey (UInt8.ofNat m)).chars := by
    decide +kernel
  constructor
  · intro h
    obtain ⟨m, -, hm⟩ := hchars c.toNat c.toNat_lt (by simpa using h)
    exact ⟨UInt8.ofNat m, by simpa using hm⟩
  · rintro ⟨scancode, h⟩
    exact hkeys scancode.toNat scancode.toNat_lt c (by simpa using h)

namespace ClassicKeyboard

lemma press_mem_chars (k : ClassicKeyboard) (key : ClassicKey) :
    (k.press key).1 = 0 ∨ (k.press key).1 ∈ key.chars := by
  have hfirst : ∀ (a : UInt8) (as : List UInt8), a = 0 ∨ a ∈ a :: as := fun _ _ =>
    Or.inr List.mem_cons_self
  have hsecond : ∀ (a b : UInt8) (as : List UInt8), b = 0 ∨ b ∈ a :: b :: as := fun _ _ _ =>
    Or.inr (List.mem_cons_of_mem _ List.mem_cons_self)
  have hthird : ∀ a b c : UInt8, c = 0 ∨ c ∈ [a, b, c] := fun _ _ _ =>
    Or.inr (List.mem_cons_of_mem _ (List.mem_cons_of_mem _ List.mem_cons_self))
  cases key with
  | char a => exact hfirst _ _
  | backspace | enter => exact hfirst _ _
  | shifted a b =>
    simp only [press, shifted]
    split_ifs
    exacts [hsecond _ _ _, hfirst _ _]
  | letter a b =>
    simp only [press, letter]
    split_ifs
    exacts [hsecond _ _ _, hfirst _ _]
  | q =>
    simp only [press, letter]
    split_ifs
    exacts [Or.inl rfl, hsecond _ _ _, hfirst _ _]
  | d =>
    simp only [press, letter]
    split_ifs
    exacts [hfirst _ _, hthird _ _ _, hsecond _ _ _]
  | home =>
    simp only [press]
    split_ifs
    exacts [Or.inl rfl, hfirst _ _]
  | arrow digit code =>
    simp only [press]
    split_ifs
    exacts [hsecond _ _ _, hfirst _ _]
  | super | superReleased =>
    simp only [press]
    split_ifs <;> exact Or.inl rfl
  | _ => exact Or.inl rfl

/-- The flags that the character of a key depends on; caps is off. -/
structure Flags (k : ClassicKeyboard) (shift ctrl prefixed : Bool) : Prop where
  shift_eq : k.shiftPressed = shift
  caps_eq : k.capsPressed = false
  ctrl_eq : k.ctrlPressed = ctrl
  e0_eq : k.e0Check = prefixed

lemma Flags.eq (h : k.Flags shift ctrl prefixed) : k = { k with
    shiftPressed := shift, capsPressed := false, ctrlPressed := ctrl, e0Check := prefixed } := by
  rw [← h.shift_eq, ← h.caps_eq, ← h.ctrl_eq, ← h.e0_eq]

/-- Each character of a key comes with some state of the flags. -/
lemma exists_press {key : ClassicKey} (h : c ∈ key.chars) : ∃ shift ctrl prefixed,
    ∀ k : ClassicKeyboard, k.Flags shift ctrl prefixed → (k.press key).1 = c := by
  cases key with
  | char a | backspace | enter =>
    rw [List.mem_singleton.mp h]
    exact ⟨false, false, false, fun _ _ => rfl⟩
  | shifted a b | letter a b | q =>
    rcases List.mem_cons.mp h with hc | h
    · exact ⟨false, false, false, fun k hk => by rw [hk.eq, hc]; rfl⟩
    · exact ⟨true, false, false, fun k hk => by rw [hk.eq, List.mem_singleton.mp h]; rfl⟩
  | d =>
    rcases List.mem_cons.mp h with hc | h
    · exact ⟨false, true, false, fun k hk => by rw [hk.eq, hc]; rfl⟩
    rcases List.mem_cons.mp h with hc | h
    · exact ⟨false, false, false, fun k hk => by rw [hk.eq, hc]; rfl⟩
    · exact ⟨true, false, false, fun k hk => by rw [hk.eq, List.mem_singleton.mp h]; rfl⟩
  | home =>
    rw [List.mem_singleton.mp h]
    exact ⟨false, false, false, fun k hk => by rw [hk.eq]; rfl⟩
  | arrow digit code =>
    rcases List.mem_cons.mp h with hc | h
    · exact ⟨false, false, false, fun k hk => by rw [hk.eq, hc]; rfl⟩
    · exact ⟨false, false, true, fun k hk => by rw [hk.eq, List.mem_singleton.mp h]; rfl⟩
  | _ => exact absurd h List.not_mem_nil

/-- A character that the driver returns can be typed. -/
lemma typeable_of_ne (k : ClassicKeyboard) (scancode : UInt8)
    (h : (k.scancodeToChar scancode).1 ≠ 0) : Typeable (k.scancodeToChar scancode).1 :=
  typeable_iff_key.mpr ⟨scancode, (k.press_mem_chars (classicKey scancode)).resolve_left h⟩

/-- Some interrupts lead from one state of the driver to another, and give no character. -/
def SilentTo (k k' : ClassicKeyboard) : Prop :=
  ∃ codes : List UInt8, ∀ (process : Ptr) (run : KeyboardRun),
    (codes.map (TypingOp.interrupt process)).foldlM typingStep ⟨k, run⟩ = some ⟨k', run⟩

lemma silentTo_refl (k : ClassicKeyboard) : SilentTo k k := ⟨[], fun _ _ => rfl⟩

lemma SilentTo.trans (h : SilentTo k k') (h' : SilentTo k' k'') : SilentTo k k'' := by
  obtain ⟨codes, hcodes⟩ := h
  obtain ⟨codes', hcodes'⟩ := h'
  refine ⟨codes ++ codes', fun process run => ?_⟩
  rw [List.map_append, List.foldlM_append, hcodes]
  exact hcodes' process run

/-- A scancode that gives no character. -/
lemma silentTo_of_eq (scancode : UInt8) {call : Option KeyboardCall}
    (h : k.scancodeToChar scancode = (0, call, k')) : SilentTo k k' := by
  refine ⟨[scancode], fun process run => ?_⟩
  simp [typingStep, h]

/-- The flags can be set without a character. -/
lemma exists_silentTo (k : ClassicKeyboard) (shift ctrl prefixed : Bool) :
    ∃ k', SilentTo k k' ∧ k'.Flags shift ctrl prefixed := by
  -- the super key takes a prefix that is pending
  obtain ⟨k₁, h₁, he₁⟩ : ∃ k₁, SilentTo k k₁ ∧ k₁.e0Check = false := by
    cases he : k.e0Check with
    | false => exact ⟨k, silentTo_refl k, he⟩
    | true =>
      have hsuper : k.scancodeToChar 0x5B =
          (0, none, { k with e0Check := false, superkeyPressed := true }) := if_pos he
      exact ⟨_, silentTo_of_eq 0x5B hsuper, rfl⟩
  have hctrl : SilentTo k₁ { k₁ with ctrlPressed := ctrl } := by
    cases ctrl with
    | false => exact silentTo_of_eq 0x9D rfl
    | true => exact silentTo_of_eq 0x1D rfl
  have hshift : SilentTo { k₁ with ctrlPressed := ctrl }
      { k₁ with ctrlPressed := ctrl, shiftPressed := shift } := by
    cases shift with
    | false => exact silentTo_of_eq 0xAA rfl
    | true => exact silentTo_of_eq 0x2A rfl
  obtain ⟨k₂, h₂, hflags⟩ : ∃ k₂,
      SilentTo { k₁ with ctrlPressed := ctrl, shiftPressed := shift } k₂ ∧
        k₂.Flags shift ctrl false := by
    cases hcaps : k₁.capsPressed with
    | false => exact ⟨_, silentTo_refl _, rfl, rfl, rfl, he₁⟩
    | true => exact ⟨_, silentTo_of_eq 0x3A rfl, rfl, rfl, rfl, he₁⟩
  have hset := h₁.trans (hctrl.trans (hshift.trans h₂))
  cases prefixed with
  | false => exact ⟨k₂, hset, hflags⟩
  | true =>
    exact ⟨{ k₂ with e0Check := true }, hset.trans (silentTo_of_eq 0xE0 rfl), hflags.shift_eq,
      hflags.caps_eq, hflags.ctrl_eq, rfl⟩

end ClassicKeyboard

open ClassicKeyboard

/-! ## Runs -/

/-- A process that has read all there was pops the next character that is pushed to it. -/
lemma KeyboardInv.push_pop {run : KeyboardRun} (h : KeyboardInv process run) (hne : process ≠ 0)
    (hread : run.popped process = run.pushed process) (hc : c ≠ 0) :
    ∃ run₁ run₂, keyboardStep run (.push process c) = some run₁ ∧
      keyboardStep run₁ (.pop (some process)) = some run₂ ∧ KeyboardInv process run₂ ∧
      run₂.popped process = run₂.pushed process ∧
      run₂.popped process = run.popped process ++ [c] := by
  have hroom : run.unread process < keyboardBufferSize := by
    rw [KeyboardRun.unread, hread, Nat.sub_self]
    decide
  have hpushed := h.push hne hc hroom
  have hpopped := hpushed.pop
  refine ⟨_, _, by rw [keyboardStep, if_neg hne], rfl, hpopped, ?_⟩
  have hpop : (keyboardPop (keyboardPush run.keyboards process c) (some process)).1 ≠ 0 := by
    rw [Ne, hpushed.pop_eq_zero_iff.1]
    simp only [record_self hc, hread]
    exact fun heq => List.cons_ne_nil c [] (List.self_eq_append_right.mp heq)
  obtain ⟨-, q, hq, -⟩ := hpopped.queue
  simp only [record_self hc, record_self hpop, hread, List.append_assoc, List.append_cancel_left_eq]
    at hq ⊢
  obtain ⟨hchar, -⟩ := List.cons.inj hq
  rw [← hchar]
  exact ⟨rfl, rfl⟩

/-- A character is typed and read. -/
lemma exists_typed {run : KeyboardRun} (h : KeyboardInv process run) (hne : process ≠ 0)
    (hread : run.popped process = run.pushed process) (k : ClassicKeyboard) (hc : Typeable c) :
    ∃ (ops : List TypingOp) (r : TypingRun), ops.foldlM typingStep ⟨k, run⟩ = some r ∧
      KeyboardInv process r.run ∧ r.run.popped process = r.run.pushed process ∧
        r.run.popped process = run.popped process ++ [c] := by
  obtain ⟨scancode, hkey⟩ := typeable_iff_key.mp hc
  obtain ⟨shift, ctrl, prefixed, hpress⟩ := exists_press hkey
  obtain ⟨k', ⟨codes, hcodes⟩, hflags⟩ := exists_silentTo k shift ctrl prefixed
  have hzero : c ≠ 0 := by
    rintro rfl
    exact absurd hc (by decide)
  have hchar : (k'.scancodeToChar scancode).1 = c := hpress k' hflags
  obtain ⟨run₁, run₂, hpush, hpop, hinv, hread', htext⟩ := h.push_pop hne hread hzero
  refine ⟨codes.map (TypingOp.interrupt process) ++
    [.interrupt process scancode, .pop (some process)],
    ⟨(k'.scancodeToChar scancode).2.2, run₂⟩, ?_, hinv, hread', htext⟩
  have hpos : c > 0 := UInt8.pos_iff_ne_zero.mpr hzero
  have hpressed : typingStep ⟨k', run⟩ (.interrupt process scancode) =
      some ⟨(k'.scancodeToChar scancode).2.2, run₁⟩ := by
    rw [typingStep]
    simp only [hchar]
    rw [if_pos hpos, hpush]
    rfl
  have hpopped : typingStep ⟨(k'.scancodeToChar scancode).2.2, run₁⟩ (.pop (some process)) =
      some ⟨(k'.scancodeToChar scancode).2.2, run₂⟩ := by
    rw [typingStep, hpop]
    rfl
  rw [List.foldlM_append, hcodes, Option.bind_eq_bind, Option.bind_some, List.foldlM_cons,
    hpressed, Option.bind_eq_bind, Option.bind_some, List.foldlM_cons, hpopped]
  rfl

/-- A text is typed and read, a character after the other. -/
lemma exists_typed_text {text : List UInt8} (htext : ∀ c ∈ text, Typeable c)
    (hne : process ≠ 0) :
    ∀ {run : KeyboardRun} (k : ClassicKeyboard), KeyboardInv process run →
      run.popped process = run.pushed process →
      ∃ (ops : List TypingOp) (r : TypingRun), ops.foldlM typingStep ⟨k, run⟩ = some r ∧
        r.run.popped process = run.popped process ++ text := by
  induction text with
  | nil => exact fun k _ _ => ⟨[], _, rfl, (List.append_nil _).symm⟩
  | cons c text ih =>
    intro run k h hread
    obtain ⟨ops, r, hrun, hinv, hread', hchar⟩ :=
      exists_typed h hne hread k (htext c List.mem_cons_self)
    obtain ⟨ops', r', hrun', htext'⟩ :=
      ih (fun c hc => htext c (List.mem_cons_of_mem _ hc)) r.driver hinv hread'
    refine ⟨ops ++ ops', r', ?_, ?_⟩
    · rw [List.foldlM_append, hrun]
      exact hrun'
    · rw [htext', hchar, List.append_assoc]
      rfl

/-- All that a process may find in its buffer, and all it has read. -/
structure TypedInv (process : Ptr) (r : TypingRun) : Prop where
  buffer : ∀ i < keyboardBufferSize, (r.run.keyboards process).buffer i = 0 ∨
    Typeable ((r.run.keyboards process).buffer i)
  popped : ∀ c ∈ r.run.popped process, Typeable c

lemma keyboardPush_buffer (keyboards : Keyboards) (current : Ptr) (c : UInt8) (i : ℕ) :
    (keyboardPush keyboards current c process).buffer i = (keyboards process).buffer i ∨
      (keyboardPush keyboards current c process).buffer i = c := by
  by_cases hcurrent : current = process
  · subst hcurrent
    rw [keyboardPush]
    split_ifs
    · exact Or.inl rfl
    · exact Or.inl rfl
    · simp only [Function.update_self]
      by_cases hi : i = keyboardGetTailIndex (keyboards current)
      · exact Or.inr (by rw [hi, Function.update_self])
      · exact Or.inl (Function.update_of_ne hi _ _)
  · rw [keyboardPush_other hcurrent]
    exact Or.inl rfl

lemma keyboardPop_buffer (keyboards : Keyboards) (task : Option Ptr) (i : ℕ) :
    ((keyboardPop keyboards task).2 process).buffer i = (keyboards process).buffer i ∨
      ((keyboardPop keyboards task).2 process).buffer i = 0 := by
  by_cases htask : task = some process
  · subst htask
    simp only [keyboardPop]
    split_ifs
    · exact Or.inl rfl
    · simp only [Function.update_self]
      by_cases hi : i = keyboardIndex (keyboards process).head
      · exact Or.inr (by rw [hi, Function.update_self])
      · exact Or.inl (Function.update_of_ne hi _ _)
  · rw [keyboardPop_other htask]
    exact Or.inl rfl

lemma keyboardPop_fst (keyboards : Keyboards) : (keyboardPop keyboards (some process)).1 =
    (keyboards process).buffer (keyboardIndex (keyboards process).head) := by
  simp only [keyboardPop]
  split_ifs with hzero
  · exact hzero.symm
  · rfl

/-- An interrupt puts only characters into the buffer that can be typed. -/
lemma TypedInv.interrupt (h : TypedInv process r) (current : Ptr) (scancode : UInt8) :
    ∃ r', typingStep r (.interrupt current scancode) = some r' ∧ TypedInv process r' := by
  rw [typingStep]
  split_ifs with hpos
  · have hc := typeable_of_ne r.driver scancode (UInt8.pos_iff_ne_zero.mp hpos)
    refine ⟨_, rfl, fun i hi => ?_, h.popped⟩
    rcases keyboardPush_buffer r.run.keyboards current (r.driver.scancodeToChar scancode).1 i with
      heq | heq
    · exact heq.symm ▸ h.buffer i hi
    · exact Or.inr (heq.symm ▸ hc)
  · exact ⟨_, rfl, h.buffer, h.popped⟩

/-- A program reads what is in its buffer. -/
lemma TypedInv.pop (h : TypedInv process r) (task : Option Ptr) :
    ∃ r', typingStep r (.pop task) = some r' ∧ TypedInv process r' := by
  refine ⟨_, rfl, fun i hi => ?_, ?_⟩
  · rcases keyboardPop_buffer r.run.keyboards task i with heq | heq
    · exact heq.symm ▸ h.buffer i hi
    · exact Or.inl heq
  · by_cases htask : task = some process
    · subst htask
      by_cases hzero : (keyboardPop r.run.keyboards (some process)).1 = 0
      · simp only [record, if_pos hzero]
        exact h.popped
      · simp only [record_self hzero]
        intro c hc
        rcases List.mem_append.mp hc with hc | hc
        · exact h.popped c hc
        · rw [List.mem_singleton.mp hc]
          rw [keyboardPop_fst] at hzero ⊢
          exact (h.buffer _ (Nat.mod_lt _ (by decide))).resolve_left hzero
    · cases task with
      | none => exact h.popped
      | some p =>
        simp only [record_other fun hp => htask (congrArg some hp)]
        exact h.popped

lemma TypedInv.step {op : TypingOp} (h : TypedInv process r) :
    ∃ r', typingStep r op = some r' ∧ TypedInv process r' := by
  cases op with
  | interrupt current scancode => exact h.interrupt current scancode
  | pop task => exact h.pop task

/-- A process reads a text in some run of key presses and of its own calls, from any state of the
driver, if and only if there is a key for each of its characters. -/
theorem typing_iff (hne : process ≠ 0) (hempty : (keyboards process).Empty) (k : ClassicKeyboard)
    (text : List UInt8) :
    (∃ (ops : List TypingOp) (r : TypingRun),
      ops.foldlM typingStep ⟨k, .start keyboards⟩ = some r ∧ r.run.popped process = text) ↔
      ∀ c ∈ text, Typeable c := by
  constructor
  · -- what was read came through the buffer
    rintro ⟨ops, r, hrun, rfl⟩
    have hstart : TypedInv process ⟨k, .start keyboards⟩ :=
      ⟨fun i hi => Or.inl (hempty.buffer_eq i hi), fun c hc => absurd hc List.not_mem_nil⟩
    have hall : Always typingStep (TypedInv process) ⟨k, .start keyboards⟩ ops :=
      always_of_guarded (L := fun _ _ => True) (C := fun _ _ => True) (fun _ h => h)
        (fun _ _ h _ _ => h.step) hstart guarded_true guarded_true
    obtain ⟨r', hrun', hr'⟩ := hall.last
    obtain rfl : r = r' := Option.some.inj (hrun.symm.trans hrun')
    exact hr'.popped
  · intro htext
    obtain ⟨ops, r, hrun, hr⟩ := exists_typed_text htext hne k (keyboardInv_start hempty) rfl
    exact ⟨ops, r, hrun, hr⟩

/-- Buffers that are empty. -/
def noKeyboards : Keyboards := fun _ => ⟨fun _ => 0, 0, 0⟩

lemma noKeyboards_empty (process : Ptr) : (noKeyboards process).Empty := ⟨fun _ _ => rfl, rfl⟩

/-- A double quote cannot be typed. -/
theorem typing_iff_quote :
    (∃ (ops : List TypingOp) (r : TypingRun),
      ops.foldlM typingStep ⟨{}, .start noKeyboards⟩ = some r ∧
        r.run.popped 1 = ['H'.toUInt8, 'i'.toUInt8, '!'.toUInt8]) ∧
      ¬ ∃ (ops : List TypingOp) (r : TypingRun),
        ops.foldlM typingStep ⟨{}, .start noKeyboards⟩ = some r ∧
          r.run.popped 1 = ['"'.toUInt8] := by
  have htyping : ∀ text, _ ↔ ∀ c ∈ text, Typeable c := fun text =>
    typing_iff Nat.one_ne_zero (noKeyboards_empty 1) {} text
  exact ⟨(htyping _).mpr (by decide +kernel), (htyping _).not.mpr (by decide +kernel)⟩

end SerpaeOS
