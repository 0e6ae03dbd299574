import SerpaeOS.Keyboard.Classic
import SerpaeOS.Lib.StepRun

/-!
# The modifier keys

The keyboard sends a make code when a key is pressed, and a break code, the make code with the
highest bit set, when it is released.  Some keys send a prefix in front of both: `0xE0` belongs to
the next scancode, `0xE1` to the next two.  The driver keeps one flag for the two shift keys and one
for the two ctrl keys, and looks at no prefix there.
-/

namespace SerpaeOS

/-- The prefix that a scancode belongs to. -/
inductive ScancodePrefix
  | plain
  | e0
  | e1
  /-- the second scancode behind `0xE1` -/
  | e1Second
deriving DecidableEq

/-- A key, by the prefix and the make code that it sends. -/
structure PhysicalKey where
  pre : ScancodePrefix
  code : UInt8
deriving DecidableEq

/-- The keyboard: the keys that are held, and the prefix in front of the next scancode. -/
structure PhysicalKeyboard where
  held : PhysicalKey → Bool := fun _ => false
  pending : ScancodePrefix := .plain

namespace PhysicalKeyboard

variable (p : PhysicalKeyboard)

/-- The key that sends the scancode. -/
def keyOf (scancode : UInt8) : PhysicalKey := ⟨p.pending, scancode &&& 0x7F⟩

/-- The keyboard behind a scancode. -/
def next (scancode : UInt8) : PhysicalKeyboard :=
  if scancode = 0xE0 then { p with pending := .e0 }
  else if scancode = 0xE1 then { p with pending := .e1 }
  else {
    held := Function.update p.held (p.keyOf scancode) (scancode < 0x80)
    pending := if p.pending = .e1 then .e1Second else .plain }

/-- The scancode is a prefix, or that of a key which is only released while it is held. -/
def Sends (scancode : UInt8) : Prop :=
  scancode = 0xE0 ∨ scancode = 0xE1 ∨ (0x80 ≤ scancode → p.held (p.keyOf scancode) = true)

end PhysicalKeyboard

/-- A modifier: the make codes at which the driver sets its flag, and its keys. -/
structure Modifier where
  codes : List UInt8
  keys : List PhysicalKey
  code_mem : ∀ key ∈ keys, key.code ∈ codes
  not_prefix : 0x60 ∉ codes ∧ 0x61 ∉ codes

def shiftModifier : Modifier where
  codes := [0x2A, 0x36]
  keys := [⟨.plain, 0x2A⟩, ⟨.plain, 0x36⟩]
  code_mem := by simp
  not_prefix := by simp

def ctrlModifier : Modifier where
  codes := [0x1D]
  keys := [⟨.plain, 0x1D⟩, ⟨.e0, 0x1D⟩]
  code_mem := by simp
  not_prefix := by simp

namespace Modifier

variable (m : Modifier)

/-- A key of the modifier is held. -/
def held (p : PhysicalKeyboard) : Bool := m.keys.any p.held

/-- What the driver sets the flag of the modifier to at a scancode. -/
def flagAt (scancode : UInt8) : Option Bool :=
  if scancode &&& 0x7F ∈ m.codes then some (scancode < 0x80) else none

/-- A make code of the modifier comes from one of its keys, or while one of them is held; a break
code comes while none of its keys is held but the one that sends it. -/
def Sound (p : PhysicalKeyboard) (scancode : UInt8) : Prop :=
  scancode &&& 0x7F ∈ m.codes →
    if scancode < 0x80 then p.keyOf scancode ∈ m.keys ∨ m.held p = true
    else ∀ key ∈ m.keys, p.held key = true → key = p.keyOf scancode

end Modifier

/-! ## The driver at the keyboard -/

/-- The keyboard and the flags of the driver. -/
structure KeyboardSystem where
  driver : ClassicKeyboard := {}
  keyboard : PhysicalKeyboard := {}

/-- The keyboard sends a scancode to the driver. -/
def KeyboardSystem.step (s : KeyboardSystem) (scancode : UInt8) : Option KeyboardSystem :=
  some ⟨(s.driver.scancodeToChar scancode).2.2, s.keyboard.next scancode⟩

/-- The flags say which modifiers are held. -/
def KeyboardSystem.Agrees (s : KeyboardSystem) : Prop :=
  s.driver.shiftPressed = shiftModifier.held s.keyboard ∧
  s.driver.ctrlPressed = ctrlModifier.held s.keyboard

/-- The scancode tells the truth about both modifiers. -/
def KeyboardSystem.Sound (s : KeyboardSystem) (scancode : UInt8) : Prop :=
  shiftModifier.Sound s.keyboard scancode ∧ ctrlModifier.Sound s.keyboard scancode

/-- A sequence of scancodes that a keyboard can send, beginning with no key held. -/
def ConsistentScancodes (scancodes : List UInt8) : Prop :=
  StepRun.Guarded KeyboardSystem.step (fun s scancode => s.keyboard.Sends scancode) {} scancodes

/-! ## The keys of a modifier -/

namespace Modifier

variable {m : Modifier} {p : PhysicalKeyboard} {scancode : UInt8}

lemma held_congr {p' : PhysicalKeyboard} (h : ∀ key ∈ m.keys, p'.held key = p.held key) :
    m.held p' = m.held p := by
  rw [held, held, Bool.eq_iff_iff, List.any_eq_true, List.any_eq_true]
  exact exists_congr fun key => and_congr_right fun hkey => by rw [h key hkey]

lemma held_next_of_notMem (h : scancode &&& 0x7F ∉ m.codes) :
    m.held (p.next scancode) = m.held p := by
  refine held_congr fun key hkey => ?_
  rw [PhysicalKeyboard.next]
  split_ifs with h0 h1
  · rfl
  · rfl
  all_goals
    refine Function.update_of_ne ?_ _ _
    rintro rfl
    exact h (m.code_mem _ hkey)

/-- At a scancode of the modifier, what it says about the keys is right if and only if it is
sound. -/
lemma held_next_iff (h : scancode &&& 0x7F ∈ m.codes) :
    m.held (p.next scancode) = decide (scancode < 0x80) ↔ m.Sound p scancode := by
  have h0 : scancode ≠ 0xE0 := by
    rintro rfl
    exact m.not_prefix.1 h
  have h1 : scancode ≠ 0xE1 := by
    rintro rfl
    exact m.not_prefix.2 h
  rw [Sound, held, PhysicalKeyboard.next, if_neg h0, if_neg h1]
  simp only [h, forall_const]
  by_cases hmake : scancode < 0x80
  · simp only [hmake, decide_true, if_true, List.any_eq_true, held]
    constructor
    · rintro ⟨key, hkey, hheld⟩
      by_cases heq : key = p.keyOf scancode
      · exact .inl (heq ▸ hkey)
      · rw [Function.update_of_ne heq] at hheld
        exact .inr ⟨key, hkey, hheld⟩
    · rintro (hkey | ⟨key, hkey, hheld⟩)
      · exact ⟨_, hkey, Function.update_self _ _ _⟩
      · refine ⟨key, hkey, ?_⟩
        rw [Function.update_apply]
        split_ifs
        · rfl
        · exact hheld
  · simp only [hmake, decide_false, if_false, List.any_eq_false]
    refine forall₂_congr fun key _ => ?_
    by_cases heq : key = p.keyOf scancode
    · simp [heq]
    · simp [heq]

/-- A flag that says whether the modifier is held goes on to do so at sound scancodes only. -/
lemma flag_iff {flag : Bool} (hflag : flag = m.held p) :
    (m.flagAt scancode).getD flag = m.held (p.next scancode) ↔ m.Sound p scancode := by
  rw [flagAt]
  by_cases h : scancode &&& 0x7F ∈ m.codes
  · rw [if_pos h, Option.getD_some, ← held_next_iff h]
    exact eq_comm
  · rw [if_neg h, Option.getD_none, held_next_of_notMem h]
    exact iff_of_true hflag fun hc => absurd hc h

end Modifier

/-! ## The flags of the driver -/

/-- What a key sets the flag for shift to. -/
def ClassicKey.shiftTo : ClassicKey → Option Bool
  | .shift => some true
  | .shiftReleased => some false
  | _ => none

/-- What a key sets the flag for ctrl to. -/
def ClassicKey.ctrlTo : ClassicKey → Option Bool
  | .ctrl => some true
  | .ctrlReleased => some false
  | _ => none

lemma classicKey_modifiers (scancode : UInt8) :
    (classicKey scancode).shiftTo = shiftModifier.flagAt scancode ∧
      (classicKey scancode).ctrlTo = ctrlModifier.flagAt scancode := by
  have hall : ∀ n < 256,
      (classicKey (UInt8.ofNat n)).shiftTo = shiftModifier.flagAt (UInt8.ofNat n) ∧
      (classicKey (UInt8.ofNat n)).ctrlTo = ctrlModifier.flagAt (UInt8.ofNat n) := by
    decide +kernel
  simpa using hall scancode.toNat scancode.toNat_lt

lemma ClassicKeyboard.press_modifiers (k : ClassicKeyboard) (key : ClassicKey) :
    (k.press key).2.2.shiftPressed = key.shiftTo.getD k.shiftPressed ∧
      (k.press key).2.2.ctrlPressed = key.ctrlTo.getD k.ctrlPressed := by
  cases key with
  | home | super | superReleased | q | d =>
    simp only [press]
    split_ifs <;> exact ⟨rfl, rfl⟩
  | _ => exact ⟨rfl, rfl⟩

/-- A step keeps the flags right exactly at sound scancodes. -/
lemma KeyboardSystem.agrees_step_iff {s s' : KeyboardSystem} {scancode : UInt8} (hs : s.Agrees)
    (hstep : s.step scancode = some s') : s'.Agrees ↔ s.Sound scancode := by
  obtain rfl := Option.some.inj hstep
  obtain ⟨hshift, hctrl⟩ := s.driver.press_modifiers (classicKey scancode)
  obtain ⟨hshiftTo, hctrlTo⟩ := classicKey_modifiers scancode
  rw [hshiftTo] at hshift
  rw [hctrlTo] at hctrl
  rw [Agrees, Sound, ClassicKeyboard.scancodeToChar, hshift, hctrl]
  exact and_congr (Modifier.flag_iff hs.1) (Modifier.flag_iff hs.2)

/-- Along a sequence of scancodes the flags always say which modifiers are held if and only if no
scancode of a modifier is misleading in the state of the keyboard in which it is sent. -/
theorem modifier_flags_iff (scancodes : List UInt8) :
    StepRun.Always KeyboardSystem.step KeyboardSystem.Agrees {} scancodes ↔
      StepRun.Guarded KeyboardSystem.step KeyboardSystem.Sound {} scancodes := by
  refine StepRun.always_iff_guarded (I := KeyboardSystem.Agrees) (L := fun _ _ => True)
    (fun _ h => h) (fun s scancode hs _ hsound => ?_) (fun s scancode s' hs _ hsound hstep => ?_)
    ⟨rfl, rfl⟩ StepRun.guarded_true
  · exact ⟨_, rfl, (KeyboardSystem.agrees_step_iff hs rfl).mpr hsound⟩
  · exact (KeyboardSystem.agrees_step_iff hs hstep).not.mpr hsound

/-- The right shift key is still held when the left one is released. -/
theorem not_modifier_flags : ¬ ∀ scancodes, ConsistentScancodes scancodes →
    StepRun.Always KeyboardSystem.step KeyboardSystem.Agrees {} scancodes := by
  intro h
  have hsends : ConsistentScancodes [0x2A, 0x36, 0xAA] := by
    refine ⟨.inr (.inr ?_), fun s₁ h₁ => ⟨.inr (.inr ?_), fun s₂ h₂ => ⟨.inr (.inr ?_), ?_⟩⟩⟩
    · exact fun hc => absurd hc (by decide)
    · exact fun hc => absurd hc (by decide)
    · obtain rfl := Option.some.inj h₁
      obtain rfl := Option.some.inj h₂
      exact fun _ => rfl
    · exact fun _ _ => trivial
  obtain ⟨s, hrun, hagrees⟩ := (h _ hsends).last
  obtain rfl := Option.some.inj hrun
  exact absurd hagrees.1 (by decide)

end SerpaeOS
