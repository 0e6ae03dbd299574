import SerpaeOS.Config
import SerpaeOS.Lib.Ring
import SerpaeOS.Lib.StepRun
import SerpaeOS.Lib.Word

/-!
# Keyboard buffers

`keyboard_push` and `keyboard_pop` of `keyboard.c`.  Each process has a buffer of characters.
The driver pushes to the buffer of the current process, and a program pops from that of the
process of the current task.  A buffer is a ring whose counters of type `int` are never
compared: a slot without a character holds zero.  A character that is pushed to a full buffer
takes the place of the oldest one.
-/

namespace SerpaeOS

open Ring StepRun Word

def keyboardBufferSize : ℕ := 1024

/-- `struct keyboard_buffer`. -/
structure KeyboardBuffer where
  buffer : ℕ → UInt8
  tail : ℤ
  head : ℤ

/-- The keyboard buffers of the processes. -/
abbrev Keyboards := Ptr → KeyboardBuffer

/-- The index of a counter: the remainder by `sizeof` is that of an unsigned number. -/
def keyboardIndex (counter : ℤ) : ℕ := u32 counter % keyboardBufferSize

/-- `keyboard_get_tail_index`. -/
def keyboardGetTailIndex (b : KeyboardBuffer) : ℕ := keyboardIndex b.tail

/-- `keyboard_push`; `current` is the result of `process_current`. -/
def keyboardPush (keyboards : Keyboards) (current : Ptr) (c : UInt8) : Keyboards :=
  if current = 0 then keyboards
  else if c = 0 then keyboards
  else
    let b := keyboards current
    Function.update keyboards current
      { b with
        buffer := Function.update b.buffer (keyboardGetTailIndex b) c
        tail := i32 (b.tail + 1) }

/-- `keyboard_pop`; `task` is the process of the current task, if there is a task. -/
def keyboardPop (keyboards : Keyboards) (task : Option Ptr) : UInt8 × Keyboards :=
  match task with
  | none => (0, keyboards)
  | some process =>
    let b := keyboards process
    let realIndex := keyboardIndex b.head
    let c := b.buffer realIndex
    if c = 0 then (0, keyboards)
    else
      (c, Function.update keyboards process
        { b with
          buffer := Function.update b.buffer realIndex 0
          head := i32 (b.head + 1) })

/-! ## Runs -/

/-- The keyboard buffers, and for each process the characters that were pushed to it and those
other than zero that it has popped. -/
structure KeyboardRun where
  keyboards : Keyboards
  pushed : Ptr → List UInt8
  popped : Ptr → List UInt8

/-- A call by the driver or by a program. -/
inductive KeyboardOp
  | push (current : Ptr) (c : UInt8)
  | pop (task : Option Ptr)

/-- The record of the characters after one more of a process; zero is not a character. -/
def record (chars : Ptr → List UInt8) (process : Ptr) (c : UInt8) : Ptr → List UInt8 :=
  if c = 0 then chars else Function.update chars process (chars process ++ [c])

def keyboardStep (r : KeyboardRun) : KeyboardOp → Option KeyboardRun
  | .push current c =>
    some ⟨keyboardPush r.keyboards current c,
      if current = 0 then r.pushed else record r.pushed current c, r.popped⟩
  | .pop task =>
    some ⟨(keyboardPop r.keyboards task).2, r.pushed,
      match task with
      | none => r.popped
      | some process => record r.popped process (keyboardPop r.keyboards task).1⟩

/-- A run starts with buffers in any state and nothing recorded. -/
def KeyboardRun.start (keyboards : Keyboards) : KeyboardRun := ⟨keyboards, fun _ => [], fun _ => []⟩

/-- The buffer is empty: its slots are zero, and its counters agree. -/
structure KeyboardBuffer.Empty (b : KeyboardBuffer) : Prop where
  buffer_eq : ∀ i < keyboardBufferSize, b.buffer i = 0
  counters_eq : b.tail = b.head

/-- The number of characters pushed to the process that it has not popped. -/
def KeyboardRun.unread (r : KeyboardRun) (process : Ptr) : ℕ :=
  (r.pushed process).length - (r.popped process).length

/-- No character is pushed to the process while `keyboardBufferSize` of them are unread. -/
def KeyboardFits (process : Ptr) (r : KeyboardRun) : KeyboardOp → Prop
  | .push current c => current = process → c ≠ 0 → r.unread process < keyboardBufferSize
  | .pop _ => True

/-! ## The queue of a buffer -/

/-- The buffer of a process holds the characters that were pushed and not popped. -/
structure KeyboardInv (process : Ptr) (r : KeyboardRun) : Prop where
  queue : ∃ (h : ℕ) (q : List UInt8), r.pushed process = r.popped process ++ q ∧
    u32 (r.keyboards process).head = h % 2 ^ 32 ∧
    u32 (r.keyboards process).tail = (h + q.length) % 2 ^ 32 ∧
    Queued keyboardBufferSize 0 (r.keyboards process).buffer h q

variable {process : Ptr} {r r' : KeyboardRun} {b : KeyboardBuffer} {keyboards : Keyboards}

/-- The size of a buffer divides the number of the values of a counter. -/
lemma mod_keyboardBufferSize (h : ℕ) : h % 2 ^ 32 % keyboardBufferSize = h % keyboardBufferSize :=
  Nat.mod_mod_of_dvd h ⟨2 ^ 22, by decide⟩

lemma u32_i32_succ {x : ℤ} {h : ℕ} (hx : u32 x = h % 2 ^ 32) :
    u32 (i32 (x + 1)) = (h + 1) % 2 ^ 32 := by
  have hmod : i32 (x + 1) % 2 ^ 32 = (x + 1) % 2 ^ 32 := Int.bmod_emod
  rw [u32, hmod]
  rw [u32] at hx
  omega

lemma keyboardPush_eq {c : UInt8} (hne : process ≠ 0) (hc : c ≠ 0) :
    keyboardPush keyboards process c = Function.update keyboards process
      ⟨Function.update (keyboards process).buffer (keyboardGetTailIndex (keyboards process)) c,
        i32 ((keyboards process).tail + 1), (keyboards process).head⟩ := by
  rw [keyboardPush, if_neg hne, if_neg hc]

lemma keyboardPop_eq {c : UInt8} (hc : c ≠ 0)
    (h : (keyboards process).buffer (keyboardIndex (keyboards process).head) = c) :
    keyboardPop keyboards (some process) = (c, Function.update keyboards process
      ⟨Function.update (keyboards process).buffer (keyboardIndex (keyboards process).head) 0,
        (keyboards process).tail, i32 ((keyboards process).head + 1)⟩) := by
  simp only [keyboardPop, h, if_neg hc]

lemma keyboardPush_other {current : Ptr} {c : UInt8} (hne : current ≠ process) :
    keyboardPush keyboards current c process = keyboards process := by
  rw [keyboardPush]
  split_ifs
  · rfl
  · rfl
  · exact Function.update_of_ne hne.symm _ _

lemma keyboardPop_other {task : Option Ptr} (hne : task ≠ some process) :
    (keyboardPop keyboards task).2 process = keyboards process := by
  cases task with
  | none => rfl
  | some p =>
    have hp : process ≠ p := fun h => hne (congrArg some h.symm)
    simp only [keyboardPop]
    split_ifs
    · rfl
    · exact Function.update_of_ne hp _ _

lemma record_other {chars : Ptr → List UInt8} {p : Ptr} {c : UInt8} (hne : p ≠ process) :
    record chars p c process = chars process := by
  rw [record]
  split_ifs
  · rfl
  · exact Function.update_of_ne hne.symm _ _

lemma record_self {chars : Ptr → List UInt8} {c : UInt8} (hc : c ≠ 0) :
    record chars process c process = chars process ++ [c] := by
  rw [record, if_neg hc, Function.update_self]

/-- Only the buffer and the records of the process matter. -/
lemma KeyboardInv.congr (h : KeyboardInv process r)
    (hk : r'.keyboards process = r.keyboards process)
    (hpushed : r'.pushed process = r.pushed process)
    (hpopped : r'.popped process = r.popped process) : KeyboardInv process r' := by
  obtain ⟨head, q, hq⟩ := h.queue
  refine ⟨head, q, ?_⟩
  rw [hk, hpushed, hpopped]
  exact hq

lemma keyboardInv_start (h : (keyboards process).Empty) :
    KeyboardInv process (KeyboardRun.start keyboards) := by
  refine ⟨u32 (keyboards process).head, [], rfl, ?_, ?_, queued_nil h.buffer_eq⟩
  · exact (Nat.mod_eq_of_lt (u32_lt _)).symm
  · rw [List.length_nil, Nat.add_zero]
    change u32 (keyboards process).tail = _
    rw [h.counters_eq]
    exact (Nat.mod_eq_of_lt (u32_lt _)).symm

/-- A character is appended to the queue when there is room. -/
lemma KeyboardInv.push {c : UInt8} (h : KeyboardInv process r) (hne : process ≠ 0) (hc : c ≠ 0)
    (hroom : r.unread process < keyboardBufferSize) :
    KeyboardInv process ⟨keyboardPush r.keyboards process c, record r.pushed process c,
      r.popped⟩ := by
  obtain ⟨head, q, hpushed, hhead, htail, hq⟩ := h.queue
  have hlen : q.length < keyboardBufferSize := by
    rw [KeyboardRun.unread, hpushed, List.length_append] at hroom
    omega
  have hindex : keyboardGetTailIndex (r.keyboards process) =
      (head + q.length) % keyboardBufferSize := by
    rw [keyboardGetTailIndex, keyboardIndex, htail, mod_keyboardBufferSize]
  rw [keyboardPush_eq hne hc, hindex]
  refine ⟨head, q ++ [c], ?_⟩
  simp only [Function.update_self, record_self hc]
  refine ⟨?_, hhead, ?_, hq.push hlen hc⟩
  · rw [hpushed, List.append_assoc]
  · rw [List.length_append, List.length_singleton, ← Nat.add_assoc]
    exact u32_i32_succ htail

/-- The result of `keyboard_pop` is the first character of the queue. -/
lemma KeyboardInv.pop (h : KeyboardInv process r) :
    KeyboardInv process ⟨(keyboardPop r.keyboards (some process)).2, r.pushed,
      record r.popped process (keyboardPop r.keyboards (some process)).1⟩ := by
  obtain ⟨head, q, hpushed, hhead, htail, hq⟩ := h.queue
  have hindex : keyboardIndex (r.keyboards process).head = head % keyboardBufferSize := by
    rw [keyboardIndex, hhead, mod_keyboardBufferSize]
  cases q with
  | nil =>
    have hzero : (r.keyboards process).buffer (keyboardIndex (r.keyboards process).head) = 0 := by
      rw [hindex]
      exact (hq.head_empty_iff (by decide)).mpr rfl
    have hpop : keyboardPop r.keyboards (some process) = (0, r.keyboards) := if_pos hzero
    rw [hpop]
    exact h
  | cons c q =>
    obtain ⟨hc, hrest⟩ := hq.pop
    have hne : c ≠ 0 := hq.ne_empty c List.mem_cons_self
    rw [keyboardPop_eq hne (hindex ▸ hc), hindex]
    refine ⟨head + 1, q, ?_⟩
    simp only [record_self hne, Function.update_self]
    refine ⟨?_, u32_i32_succ hhead, ?_, hrest⟩
    · rw [hpushed, List.append_assoc]
      rfl
    · rw [htail, List.length_cons]
      congr 1
      omega

/-- A call that does not overflow the buffer of the process. -/
lemma KeyboardInv.step {op : KeyboardOp} (h : KeyboardInv process r) (hne : process ≠ 0)
    (hfits : KeyboardFits process r op) (hstep : keyboardStep r op = some r') :
    KeyboardInv process r' := by
  cases op with
  | push current c =>
    cases hstep
    by_cases hcur : current = process
    · subst hcur
      rw [if_neg hne]
      by_cases hc : c = 0
      · rw [keyboardPush, if_neg hne, if_pos hc, record, if_pos hc]
        exact h
      · exact h.push hne hc (hfits rfl hc)
    · refine h.congr (keyboardPush_other hcur) ?_ rfl
      change (if current = 0 then r.pushed else record r.pushed current c) process = _
      split_ifs
      · rfl
      · exact record_other hcur
  | pop task =>
    cases hstep
    by_cases htask : task = some process
    · subst htask
      exact h.pop
    · refine h.congr (keyboardPop_other htask) rfl ?_
      cases task with
      | none => rfl
      | some p => exact record_other fun hp => htask (congrArg some hp)

/-! ## What programs read -/

/-- The process has popped a prefix of what was pushed to it, and the next call returns zero
exactly if that is all of it. -/
def KeyboardInOrder (process : Ptr) (r : KeyboardRun) : Prop :=
  r.popped process <+: r.pushed process ∧
    ((keyboardPop r.keyboards (some process)).1 = 0 ↔ r.popped process = r.pushed process)

lemma KeyboardInv.pop_eq_zero_iff (h : KeyboardInv process r) :
    ((keyboardPop r.keyboards (some process)).1 = 0 ↔ r.popped process = r.pushed process) ∧
      ((keyboardPop r.keyboards (some process)).1 = 0 →
        ∀ i < keyboardBufferSize, (r.keyboards process).buffer i = 0) := by
  obtain ⟨head, q, hpushed, hhead, -, hq⟩ := h.queue
  have hindex : keyboardIndex (r.keyboards process).head = head % keyboardBufferSize := by
    rw [keyboardIndex, hhead, mod_keyboardBufferSize]
  have hpop : (keyboardPop r.keyboards (some process)).1 = 0 ↔ q = [] := by
    rw [← hq.head_empty_iff (by decide), ← hindex]
    simp only [keyboardPop]
    split_ifs with hzero
    · exact iff_of_true rfl hzero
    · exact Iff.rfl
  refine ⟨?_, fun hzero => ?_⟩
  · rw [hpop, hpushed]
    exact List.self_eq_append_right.symm
  · rw [hpop] at hzero
    subst hzero
    exact hq.all_empty

/-- While at most `keyboardBufferSize` characters are unread, a process reads what was pushed to
it, in order. -/
theorem keyboard_in_order {ops : List KeyboardOp} (hne : process ≠ 0)
    (hempty : (keyboards process).Empty)
    (hfits : Guarded keyboardStep (KeyboardFits process) (.start keyboards) ops) :
    Always keyboardStep (KeyboardInOrder process) (.start keyboards) ops := by
  refine always_of_guarded (I := KeyboardInv process) (L := fun _ _ => True) (fun r h => ?_)
    (fun r op h _ hop => ?_) (keyboardInv_start hempty) ?_ hfits
  · obtain ⟨head, q, hpushed, -⟩ := h.queue
    exact ⟨⟨q, hpushed.symm⟩, h.pop_eq_zero_iff.1⟩
  · cases op with
    | push current c => exact ⟨_, rfl, h.step hne hop rfl⟩
    | pop task => exact ⟨_, rfl, h.step hne hop rfl⟩
  · exact guarded_true

/-- Two characters, one of them read by a process after its counters have passed the largest
`int`. -/
theorem keyboard_in_order_wrapped : Always keyboardStep (KeyboardInOrder 1)
    (.start fun _ => ⟨fun _ => 0, 2 ^ 31 - 1, 2 ^ 31 - 1⟩)
    [.push 1 0x61, .push 1 0x62, .pop (some 1)] := by
  refine keyboard_in_order Nat.one_ne_zero ⟨fun _ _ => rfl, rfl⟩ ⟨fun _ _ => ?_, fun r hr => ?_⟩
  · exact Nat.zero_lt_succ _
  · cases hr
    refine ⟨fun _ _ => ?_, fun r hr => ⟨trivial, fun _ _ => trivial⟩⟩
    decide

/-! ## Full buffers -/

/-- The process has popped some of what was pushed to it, in order, and a call returns zero only
if there is no character in the buffer. -/
def KeyboardSynchronised (process : Ptr) (r : KeyboardRun) : Prop :=
  ((keyboardPop r.keyboards (some process)).1 = 0 →
    ∀ i < keyboardBufferSize, (r.keyboards process).buffer i = 0) ∧
  (r.popped process).Sublist (r.pushed process)

/-- A character is only pushed to the process when the slot that it is stored to is empty. -/
def KeyboardSlotFree (process : Ptr) (r : KeyboardRun) : KeyboardOp → Prop
  | .push current c => current = process → c ≠ 0 →
      (r.keyboards process).buffer (keyboardGetTailIndex (r.keyboards process)) = 0
  | .pop _ => True

lemma KeyboardInv.fits_of_slotFree {op : KeyboardOp} (h : KeyboardInv process r)
    (hfree : KeyboardSlotFree process r op) : KeyboardFits process r op := by
  cases op with
  | pop task => trivial
  | push current c =>
    intro hcur hc
    have hslot := hfree hcur hc
    obtain ⟨head, q, hpushed, -, htail, hq⟩ := h.queue
    rw [KeyboardRun.unread, hpushed, List.length_append, Nat.add_sub_cancel_left]
    refine lt_of_le_of_ne hq.length_le fun hfull => ?_
    -- the slot at the tail is that at the head
    rw [keyboardGetTailIndex, keyboardIndex, htail, mod_keyboardBufferSize, hfull,
      Nat.add_mod_right, hq.head_empty_iff (by decide)] at hslot
    rw [hslot] at hfull
    exact absurd hfull (by decide)

/-- As long as no character is pushed to a slot that holds another one, the counters do not lose
the characters. -/
theorem keyboard_synchronised {ops : List KeyboardOp} (hne : process ≠ 0)
    (hempty : (keyboards process).Empty)
    (hfree : Guarded keyboardStep (KeyboardSlotFree process) (.start keyboards) ops) :
    Always keyboardStep (KeyboardSynchronised process) (.start keyboards) ops := by
  refine always_of_guarded (I := KeyboardInv process) (L := fun _ _ => True) (fun r h => ?_)
    (fun r op h _ hop => ?_) (keyboardInv_start hempty) ?_ hfree
  · obtain ⟨head, q, hpushed, -⟩ := h.queue
    refine ⟨h.pop_eq_zero_iff.2, ?_⟩
    rw [hpushed]
    exact List.sublist_append_left _ _
  · have hfits := h.fits_of_slotFree hop
    cases op with
    | push current c => exact ⟨_, rfl, h.step hne hfits rfl⟩
    | pop task => exact ⟨_, rfl, h.step hne hfits rfl⟩
  · exact guarded_true

/-- A character that is pushed and popped. -/
theorem keyboard_synchronised_one : Always keyboardStep (KeyboardSynchronised 1)
    (.start fun _ => ⟨fun _ => 0, 0, 0⟩) [.push 1 0x61, .pop (some 1)] :=
  keyboard_synchronised Nat.one_ne_zero ⟨fun _ _ => rfl, rfl⟩
    ⟨fun _ _ => rfl, fun _ _ => ⟨trivial, fun _ _ => trivial⟩⟩

/-- A run after `n` characters `a`, none of which has been popped. -/
def keyboardFilled (n : ℕ) : KeyboardRun where
  keyboards := Function.update (fun _ => ⟨fun _ => 0, 0, 0⟩) 1
    ⟨fun i => if i < n then 0x61 else 0, n, 0⟩
  pushed := Function.update (fun _ => []) 1 (List.replicate n 0x61)
  popped _ := []

lemma keyboardFilled_step {n : ℕ} (hn : n < keyboardBufferSize) :
    keyboardStep (keyboardFilled n) (.push 1 0x61) = some (keyboardFilled (n + 1)) := by
  rw [keyboardBufferSize] at hn
  have hindex : keyboardIndex n = n := by
    rw [keyboardIndex, u32_of_lt (by omega), keyboardBufferSize, Nat.mod_eq_of_lt hn]
  have htail : i32 ((n : ℤ) + 1) = (n + 1 : ℕ) := i32_of_lt (by omega) (by omega)
  have hbuffer : Function.update (fun i : ℕ => if i < n then (0x61 : UInt8) else 0) n 0x61 =
      fun i => if i < n + 1 then 0x61 else 0 := by
    funext i
    by_cases hi : i = n
    · rw [hi, Function.update_self, if_pos (Nat.lt_succ_self n)]
    · rw [Function.update_of_ne hi]
      simp only [show i < n + 1 ↔ i < n by omega]
  simp only [keyboardStep, keyboardPush, record, keyboardFilled, Function.update_self,
    keyboardGetTailIndex, hindex, htail, hbuffer, Function.update_idem, Nat.one_ne_zero, if_false,
    List.replicate_succ', if_neg (by decide : ¬ (0x61 : UInt8) = 0)]

lemma keyboardFilled_run : ∀ n ≤ keyboardBufferSize,
    (List.replicate n (KeyboardOp.push 1 0x61)).foldlM keyboardStep
      (.start fun _ => ⟨fun _ => 0, 0, 0⟩) = some (keyboardFilled n) := by
  intro n
  induction n with
  | zero =>
    intro _
    have hstart : KeyboardRun.start (fun _ => ⟨fun _ => 0, 0, 0⟩) = keyboardFilled 0 := by
      have hzero : ((0 : ℕ) : ℤ) = 0 := rfl
      simp only [KeyboardRun.start, keyboardFilled, Nat.not_lt_zero, if_false, hzero,
        List.replicate_zero, Function.update_eq_self]
    rw [hstart]
    rfl
  | succ n ih =>
    intro hn
    rw [List.replicate_succ', List.foldlM_append, ih (by omega)]
    exact (Option.bind_some _ _).trans
      ((Option.bind_some _ _).trans (keyboardFilled_step (by omega)))

/-- What a push does to the buffer and the records of its process. -/
lemma keyboardStep_push {c : UInt8} (hne : process ≠ 0) (hc : c ≠ 0)
    (hb : r.keyboards process = b) : ∃ r', keyboardStep r (.push process c) = some r' ∧
      r'.keyboards process = ⟨Function.update b.buffer (keyboardGetTailIndex b) c,
        i32 (b.tail + 1), b.head⟩ ∧
      r'.pushed process = r.pushed process ++ [c] ∧ r'.popped process = r.popped process := by
  refine ⟨_, rfl, ?_, ?_, rfl⟩
  · simp only [keyboardPush_eq hne hc, Function.update_self, hb]
  · simp only [if_neg hne, record_self hc]

/-- What a pop does to the buffer and the records of its process. -/
lemma keyboardStep_pop {c : UInt8} (hc : c ≠ 0) (hb : r.keyboards process = b)
    (h : b.buffer (keyboardIndex b.head) = c) :
    ∃ r', keyboardStep r (.pop (some process)) = some r' ∧
      r'.keyboards process = ⟨Function.update b.buffer (keyboardIndex b.head) 0, b.tail,
        i32 (b.head + 1)⟩ ∧
      r'.pushed process = r.pushed process ∧ r'.popped process = r.popped process ++ [c] := by
  subst hb
  refine ⟨_, rfl, ?_, rfl, ?_⟩
  · simp only [keyboardPop_eq hc h, Function.update_self]
  · simp only [keyboardPop_eq hc h, record_self hc]

/-- The character that overflows the buffer is read first. -/
theorem not_keyboard_synchronised_full : ¬ Always keyboardStep (KeyboardSynchronised 1)
    (.start fun _ => ⟨fun _ => 0, 0, 0⟩)
    (List.replicate keyboardBufferSize (.push 1 0x61) ++
      [.push 1 0x62, .pop (some 1), .pop (some 1)]) := by
  intro h
  have hrest := h.of_append (keyboardFilled_run keyboardBufferSize le_rfl)
  have hfull : (keyboardFilled keyboardBufferSize).keyboards 1 =
      ⟨fun i => if i < keyboardBufferSize then 0x61 else 0, keyboardBufferSize, 0⟩ := by
    simp only [keyboardFilled, Function.update_self]
  have htail : keyboardIndex keyboardBufferSize = 0 := by decide
  -- the character goes to the slot at the head
  obtain ⟨r₁, h₁, hk₁, hpushed₁, hpopped₁⟩ :=
    keyboardStep_push (c := 0x62) Nat.one_ne_zero (by decide) hfull
  simp only [keyboardGetTailIndex, htail] at hk₁
  obtain ⟨r₂, h₂, hk₂, hpushed₂, hpopped₂⟩ :=
    keyboardStep_pop (c := 0x62) (by decide) hk₁ (by decide)
  obtain ⟨r₃, h₃, -, hpushed₃, hpopped₃⟩ :=
    keyboardStep_pop (c := 0x61) (by decide) hk₂ (by decide)
  have hsub : (r₃.popped 1).Sublist (r₃.pushed 1) := by
    obtain ⟨-, s₁, hs₁, -, s₂, hs₂, -, s₃, hs₃, hend⟩ := hrest
    cases h₁.symm.trans hs₁
    cases h₂.symm.trans hs₂
    cases h₃.symm.trans hs₃
    exact hend.2
  have hpushed : (keyboardFilled keyboardBufferSize).pushed 1 =
      List.replicate keyboardBufferSize 0x61 := by
    simp only [keyboardFilled, Function.update_self]
  rw [hpushed₃, hpushed₂, hpushed₁, hpushed, hpopped₃, hpopped₂, hpopped₁] at hsub
  obtain ⟨l₁, l₂, hl, hl₁, hl₂⟩ := List.sublist_append_iff.mp hsub
  cases l₁ with
  | nil =>
    have hlen := hl₂.length_le
    rw [List.nil_append] at hl
    rw [← hl] at hlen
    exact absurd hlen (by decide)
  | cons c l₁ =>
    have hc : c ∈ List.replicate keyboardBufferSize (0x61 : UInt8) :=
      hl₁.subset List.mem_cons_self
    have heq : (0x62 : UInt8) = c := (List.cons.inj hl).1
    rw [← heq] at hc
    exact absurd (List.eq_of_mem_replicate hc) (by decide)

end SerpaeOS
