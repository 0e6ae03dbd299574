import Mathlib.Data.List.Induction
import Mathlib.Tactic.SplitIfs

/-!
# The classic keyboard

`classic_keyboard_scancode_to_char` of `classic.c`.  The driver keeps the state of the keyboard
in flags.  The flag `e0_check` says that the prefix `0xE0` was read: it is set there, but cleared
only at the keys that ask for it, so that a prefix before any other key waits for one of these.
-/

namespace SerpaeOS

/-- The flags of the driver. -/
structure ClassicKeyboard where
  shiftPressed : Bool := false
  capsPressed : Bool := false
  backspacePressed : Bool := false
  altPressed : Bool := false
  ctrlPressed : Bool := false
  enterPressed : Bool := false
  dirOn : Bool := false
  superkeyPressed : Bool := false
  superkeyWasUsed : Bool := false
  e0Check : Bool := false
deriving DecidableEq

/-- A call from the driver to the rest of the kernel. -/
inductive KeyboardCall
  | processFlip (id : ℕ)
  | processTerminate
  | showDirectory
  | hideDirectory
deriving DecidableEq

def keyDown : UInt8 := 220
def keyUp : UInt8 := 221
def keyRight : UInt8 := 223
def keyLeft : UInt8 := 224

/-- `EOF`, as a character. -/
def keyEof : UInt8 := 0xFF

/-- What the driver does at a scancode. -/
inductive ClassicKey
  /-- a key with one character -/
  | char (c : Char)
  /-- a key with another character while shift is pressed -/
  | shifted (c upper : Char)
  /-- a key with another character while shift or caps is pressed -/
  | letter (c upper : Char)
  | q
  | d
  | backspace
  | enter
  | ctrl
  | ctrlReleased
  | shift
  | shiftReleased
  | alt
  | caps
  | function (id : ℕ)
  | home
  | super
  | superReleased
  /-- a key of the keypad with another code behind the prefix -/
  | arrow (digit : Char) (code : UInt8)
  | prefixE0
  | other
deriving DecidableEq

/-- The branches of `classic_keyboard_scancode_to_char`.  Those of the keypad for `0x34`, `37` and
`0x1C` are never reached. -/
def classicKey : UInt8 → ClassicKey
  | 0xE0 => .prefixE0
  | 0x01 => .char '\x1b'
  | 0x02 => .shifted '1' '!'
  | 0x03 => .shifted '2' '@'
  | 0x04 => .shifted '3' '#'
  | 0x05 => .shifted '4' '$'
  | 0x06 => .shifted '5' '%'
  | 0x07 => .shifted '6' '^'
  | 0x08 => .shifted '7' '&'
  | 0x09 => .shifted '8' '*'
  | 0x0A => .shifted '9' '('
  | 0x0B => .shifted '0' ')'
  | 0x0C => .shifted '-' '_'
  | 0x0D => .shifted '=' '+'
  | 0x0E => .backspace
  | 0x0F => .char '\t'
  | 0x10 => .q
  | 0x11 => .letter 'w' 'W'
  | 0x12 => .letter 'e' 'E'
  | 0x13 => .letter 'r' 'R'
  | 0x14 => .letter 't' 'T'
  | 0x15 => .letter 'y' 'Y'
  | 0x16 => .letter 'u' 'U'
  | 0x17 => .letter 'i' 'I'
  | 0x18 => .letter 'o' 'O'
  | 0x19 => .letter 'p' 'P'
  | 0x1A => .shifted '[' '{'
  | 0x1B => .shifted ']' '}'
  | 0x1C => .enter
  | 0x1D => .ctrl
  | 0x9D => .ctrlReleased
  | 0x1E => .letter 'a' 'A'
  | 0x1F => .letter 's' 'S'
  | 0x20 => .d
  | 0x21 => .letter 'f' 'F'
  | 0x22 => .letter 'g' 'G'
  | 0x23 => .letter 'h' 'H'
  | 0x24 => .letter 'j' 'J'
  | 0x25 => .letter 'k' 'K'
  | 0x26 => .letter 'l' 'L'
  | 0x27 => .shifted ';' ':'
  | 0x28 => .shifted '\'' '|'
  | 0x29 => .shifted '`' '~'
  | 0x2A => .shift
  | 0x36 => .shift
  | 0x2B => .shifted '\\' '|'
  | 0x2C => .letter 'z' 'Z'
  | 0x2D => .letter 'x' 'X'
  | 0x2E => .letter 'c' 'C'
  | 0x2F => .letter 'v' 'V'
  | 0x30 => .letter 'b' 'B'
  | 0x31 => .letter 'n' 'N'
  | 0x32 => .letter 'm' 'M'
  | 0x33 => .shifted ',' '<'
  | 0x34 => .shifted '.' '>'
  | 0x35 => .shifted '/' '?'
  | 0x38 => .alt
  | 0x39 => .char ' '
  | 0x3A => .caps
  | 0xAA => .shiftReleased
  | 0xB6 => .shiftReleased
  | 0x3B => .function 1
  | 0x3C => .function 2
  | 0x3D => .function 3
  | 0x3E => .function 4
  | 0x3F => .function 5
  | 0x40 => .function 6
  | 0x41 => .function 7
  | 0x42 => .function 8
  | 0x43 => .function 9
  | 0x44 => .function 10
  | 0x45 => .function 11
  | 0x46 => .function 12
  | 0x47 => .home
  | 0x5B => .super
  | 0x5C => .super
  | 0xDB => .superReleased
  | 0xDC => .superReleased
  | 0x4A => .char '-'
  | 0x4E => .char '+'
  | 0x53 => .char '.'
  | 0x52 => .char '0'
  | 0x4F => .char '1'
  | 0x50 => .arrow '2' keyDown
  | 0x51 => .char '3'
  | 0x4B => .arrow '4' keyLeft
  | 0x4C => .char '5'
  | 0x4D => .arrow '6' keyRight
  | 0x48 => .arrow '8' keyUp
  | 0x49 => .char '9'
  | _ => .other

namespace ClassicKeyboard

variable (k : ClassicKeyboard)

/-- The character of a key that looks at shift only. -/
def shifted (c upper : Char) : UInt8 := if k.shiftPressed then upper.toUInt8 else c.toUInt8

/-- The character of a letter. -/
def letter (c upper : Char) : UInt8 :=
  if k.shiftPressed || k.capsPressed then upper.toUInt8 else c.toUInt8

/-- One branch of the function: the character, a call of the rest of the kernel and the flags.
A call that does not return leaves the flags so, and no character. -/
def press : ClassicKey → UInt8 × Option KeyboardCall × ClassicKeyboard
  | .char c => (c.toUInt8, none, k)
  | .shifted c upper => (k.shifted c upper, none, k)
  | .letter c upper => (k.letter c upper, none, k)
  | .q =>
    if k.ctrlPressed && !k.shiftPressed then (0, some .processTerminate, k)
    else (k.letter 'q' 'Q', none, k)
  | .d =>
    if k.ctrlPressed && !k.shiftPressed then (keyEof, none, k) else (k.letter 'd' 'D', none, k)
  | .backspace => ('\x08'.toUInt8, none, { k with backspacePressed := true })
  | .enter => ('\r'.toUInt8, none, { k with enterPressed := true })
  | .ctrl => (0, none, { k with ctrlPressed := true })
  | .ctrlReleased => (0, none, { k with ctrlPressed := false })
  | .shift => (0, none, { k with shiftPressed := true })
  | .shiftReleased => (0, none, { k with shiftPressed := false })
  | .alt => (0, none, { k with altPressed := true })
  | .caps => (0, none, { k with capsPressed := !k.capsPressed })
  | .function id => (0, some (.processFlip id), k)
  | .home =>
    if k.e0Check then (0, some (.processFlip 0), { k with e0Check := false })
    else ('7'.toUInt8, none, k)
  | .super =>
    if k.e0Check then (0, none, { k with e0Check := false, superkeyPressed := true })
    else (0, none, k)
  | .superReleased =>
    if k.e0Check then
      let k := { k with e0Check := false, superkeyPressed := false }
      if !k.superkeyWasUsed then
        let k := { k with dirOn := !k.dirOn }
        (0, some (if !k.dirOn then .hideDirectory else .showDirectory),
          { k with superkeyWasUsed := false })
      else (0, none, { k with superkeyWasUsed := false })
    else (0, none, k)
  | .arrow digit code =>
    (if k.e0Check then code else digit.toUInt8, none, { k with e0Check := false })
  | .prefixE0 => (0, none, { k with e0Check := true })
  | .other => (0, none, k)

/-- `classic_keyboard_scancode_to_char`. -/
def scancodeToChar (scancode : UInt8) : UInt8 × Option KeyboardCall × ClassicKeyboard :=
  k.press (classicKey scancode)

/-- The flags after a sequence of scancodes. -/
def feed (codes : List UInt8) : ClassicKeyboard :=
  codes.foldl (fun k scancode => (k.scancodeToChar scancode).2.2) k

end ClassicKeyboard

/-! ## The prefix -/

/-- The scancodes at which the driver returns another character behind the prefix. -/
def navigationCodes : List UInt8 := [0x47, 0x48, 0x4B, 0x4D, 0x50]

/-- The scancodes at which the driver clears `e0_check`. -/
def clearingCodes : List UInt8 := navigationCodes ++ [0x5B, 0x5C, 0xDB, 0xDC]

/-- A prefix was read, and since then no scancode at which the driver clears `e0_check`. -/
def prefixPending (codes : List UInt8) : Bool :=
  codes.foldl (fun pending scancode =>
    if scancode = 0xE0 then true else if scancode ∈ clearingCodes then false else pending) false

/-- The prefix is the last of the scancodes. -/
def prefixLast (codes : List UInt8) : Bool := codes.getLast? = some 0xE0

/-- The character that the states of shift, caps and ctrl and the prefix give a scancode. -/
def charOf (shift caps ctrl prefixed : Bool) (scancode : UInt8) : UInt8 :=
  (({ shiftPressed := shift, capsPressed := caps, ctrlPressed := ctrl, e0Check := prefixed } :
    ClassicKeyboard).scancodeToChar scancode).1

/-- Each scancode gives the character of the states of shift, caps and ctrl, and of whether the
scancode just before it was the prefix. -/
def PrefixLocal (codes : List UInt8) : Prop :=
  ∀ before scancode, before ++ [scancode] <+: codes →
    let k := ClassicKeyboard.feed {} before
    (k.scancodeToChar scancode).1 =
      charOf k.shiftPressed k.capsPressed k.ctrlPressed (prefixLast before) scancode

/-- No prefix is pending at the scancode of a navigation key, unless it is just before it. -/
def PrefixesTaken (codes : List UInt8) : Prop :=
  ∀ before scancode, before ++ [scancode] <+: codes → scancode ∈ navigationCodes →
    prefixLast before = true ∨ prefixPending before = false

/-- The driver clears `e0_check` at the key. -/
def ClassicKey.clearsPrefix : ClassicKey → Bool
  | .home | .super | .superReleased | .arrow _ _ => true
  | _ => false

/-- The character of the key depends on `e0_check`. -/
def ClassicKey.readsPrefix : ClassicKey → Bool
  | .home | .arrow _ _ => true
  | _ => false

variable {k : ClassicKeyboard} {scancode : UInt8} {codes before : List UInt8}
  {shift caps ctrl prefixed : Bool}

/-- The scancodes at which the prefix is set, cleared and read. -/
lemma classicKey_codes (scancode : UInt8) :
    (classicKey scancode = .prefixE0 ↔ scancode = 0xE0) ∧
      ((classicKey scancode).clearsPrefix = true ↔ scancode ∈ clearingCodes) ∧
      ((classicKey scancode).readsPrefix = true ↔ scancode ∈ navigationCodes) := by
  have hall : ∀ n < 256, (classicKey (UInt8.ofNat n) = .prefixE0 ↔ UInt8.ofNat n = 0xE0) ∧
      ((classicKey (UInt8.ofNat n)).clearsPrefix = true ↔ UInt8.ofNat n ∈ clearingCodes) ∧
      ((classicKey (UInt8.ofNat n)).readsPrefix = true ↔ UInt8.ofNat n ∈ navigationCodes) := by
    decide +kernel
  simpa using hall scancode.toNat scancode.toNat_lt

namespace ClassicKeyboard

lemma press_e0Check (key : ClassicKey) : (k.press key).2.2.e0Check =
    if key = .prefixE0 then true else if key.clearsPrefix then false else k.e0Check := by
  cases key with
  | home | super => cases he : k.e0Check <;> simp [press, he, ClassicKey.clearsPrefix]
  | superReleased =>
    cases he : k.e0Check <;> cases hused : k.superkeyWasUsed <;>
      simp [press, he, hused, ClassicKey.clearsPrefix]
  | q | d => cases hquit : k.ctrlPressed && !k.shiftPressed <;> simp [press, hquit,
      ClassicKey.clearsPrefix]
  | _ => rfl

/-- The flag is set while a prefix is pending. -/
lemma feed_e0Check (codes : List UInt8) : (feed {} codes).e0Check = prefixPending codes := by
  induction codes using List.reverseRecOn with
  | nil => rfl
  | append_singleton codes scancode ih =>
    obtain ⟨hsets, hclears, -⟩ := classicKey_codes scancode
    rw [prefixPending] at ih ⊢
    rw [feed] at ih ⊢
    rw [List.foldl_append, List.foldl_append, List.foldl_cons, List.foldl_nil, List.foldl_cons,
      List.foldl_nil, scancodeToChar, press_e0Check, ih]
    simp only [hsets, hclears]

/-- The other flags do not matter. -/
lemma scancodeToChar_eq_charOf (k : ClassicKeyboard) (scancode : UInt8) :
    (k.scancodeToChar scancode).1 =
      charOf k.shiftPressed k.capsPressed k.ctrlPressed k.e0Check scancode := by
  rw [charOf, scancodeToChar, scancodeToChar]
  cases classicKey scancode with
  | home | super | superReleased =>
    simp only [press]
    split_ifs <;> rfl
  | q | d =>
    simp only [press, letter]
    split_ifs <;> rfl
  | _ => rfl

end ClassicKeyboard

open ClassicKeyboard

lemma charOf_of_notMem (h : scancode ∉ navigationCodes) (prefixed prefixed' : Bool) :
    charOf shift caps ctrl prefixed scancode = charOf shift caps ctrl prefixed' scancode := by
  have hreads := (classicKey_codes scancode).2.2.not.mpr h
  rw [charOf, charOf, scancodeToChar, scancodeToChar]
  cases hkey : classicKey scancode with
  | home | arrow =>
    rw [hkey] at hreads
    exact absurd rfl hreads
  | super | superReleased =>
    simp only [press]
    split_ifs <;> rfl
  | q | d =>
    simp only [press, letter]
    split_ifs <;> rfl
  | _ => rfl

lemma charOf_ne_of_mem (h : scancode ∈ navigationCodes) :
    charOf shift caps ctrl true scancode ≠ charOf shift caps ctrl false scancode := by
  simp only [navigationCodes, List.mem_cons, List.not_mem_nil, or_false] at h
  revert shift caps ctrl
  rcases h with rfl | rfl | rfl | rfl | rfl <;> decide

lemma prefixPending_of_last (h : prefixLast codes = true) : prefixPending codes = true := by
  obtain ⟨before, rfl⟩ : ∃ before, codes = before ++ [0xE0] := by
    rw [prefixLast, decide_eq_true_eq, List.getLast?_eq_some_iff] at h
    exact h
  rw [prefixPending, List.foldl_append, List.foldl_cons, if_pos rfl, List.foldl_nil]

/-- The characters along a sequence of scancodes do not depend on older prefixes if and only if
each prefix is taken before the next navigation key. -/
theorem classic_keyboard_prefix_iff (codes : List UInt8) :
    PrefixLocal codes ↔ PrefixesTaken codes := by
  refine forall_congr' fun before => forall_congr' fun scancode => imp_congr_right fun _ => ?_
  simp only [scancodeToChar_eq_charOf, feed_e0Check]
  by_cases hmem : scancode ∈ navigationCodes
  · simp only [hmem, forall_const]
    cases hlast : prefixLast before with
    | true => simp [prefixPending_of_last hlast]
    | false =>
      cases hpending : prefixPending before with
      | true => simpa using charOf_ne_of_mem hmem
      | false => simp
  · exact iff_of_true (charOf_of_notMem hmem _ _) fun h => absurd h hmem

/-- Enter of the keypad comes with a prefix that the driver keeps: the `2` behind it is a
`KEY_DOWN`. -/
theorem not_classic_keyboard_prefix_enter :
    ¬ ∃ f : Bool → Bool → Bool → Bool → UInt8 → UInt8, ∀ before scancode,
      ((feed {} before).scancodeToChar scancode).1 =
        f (feed {} before).shiftPressed (feed {} before).capsPressed (feed {} before).ctrlPressed
          (prefixLast before) scancode := by
  rintro ⟨f, h⟩
  have hfirst := h [] 0x50
  have hlater := h [0xE0, 0x1C] 0x50
  exact absurd (hfirst.trans hlater.symm) (by decide)

end SerpaeOS
