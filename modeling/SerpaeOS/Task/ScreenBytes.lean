import SerpaeOS.Task.Switch

/-!
# The bytes of the screens

`process_switch` is modelled on the screens of the processes, and on the memory in which they lie.
As long as the screens lie apart, and off the structures of the processes, the bytes that the
switches store are those of the screens.
-/

namespace SerpaeOS

open Bytes Word

/-- The bytes from the address on are those of the `struct screen`. -/
structure HoldsScreen (byte : ℕ → UInt8) (a : ℕ) (screen : Screen) : Prop where
  shown : byte a = if screen.currentScreen then 1 else 0
  x_eq : u32le byte (a + 4) = u32 screen.x
  y_eq : u32le byte (a + 8) = u32 screen.y
  cells : ∀ i < 2000, u16le byte (a + 12 + 2 * i) = (screen.video.cell i).toNat

/-- The memory has the screens of these processes, and the terminal is the one shown. -/
structure Screens.Mirrors (P : Ptr → Prop) (st : Screens) (s : System) : Prop where
  terminal_eq : st.terminal = s.terminal
  current_eq : st.current = s.currentProcess
  screenOf_eq : ∀ q, P q → st.screenOf q = (s.process q).screen
  screen : ∀ q, P q → HoldsScreen s.memory.byte (s.process q).screen (st.screen (st.screenOf q))

/-- Two of these processes have the same screen, or their screens lie apart; none lies over the
structure of a process. -/
structure ScreensDisjoint (P : Ptr → Prop) (s : System) : Prop
    extends ScreensApart P (fun _ => False) s where
  disjoint : ∀ q r, P q → P r → (s.process q).screen = (s.process r).screen ∨
    OffScreen (s.process q).screen (s.process r).screen screenSize

variable {P : Ptr → Prop} {s t : System} {st : Screens} {sc : Screen} {byte byte' : ℕ → UInt8}
  {a p q screen : ℕ} {l : List UInt8}

/-- Only the bytes of the structure matter. -/
lemma HoldsScreen.congr (h : HoldsScreen byte a sc)
    (hbyte : ∀ i < screenSize, byte' (a + i) = byte (a + i)) : HoldsScreen byte' a sc := by
  have hsize : screenSize = 4012 := rfl
  refine ⟨(hbyte 0 (by omega)).trans h.shown, ?_, ?_, fun i hi => ?_⟩
  · rw [← h.x_eq]
    exact u32le_congr fun i hi => by
      rw [Nat.add_assoc]
      exact hbyte (4 + i) (by omega)
  · rw [← h.y_eq]
    exact u32le_congr fun i hi => by
      rw [Nat.add_assoc]
      exact hbyte (8 + i) (by omega)
  · rw [← h.cells i hi]
    exact u16le_congr fun j hj => by
      rw [Nat.add_assoc, Nat.add_assoc]
      exact hbyte (12 + (2 * i + j)) (by omega)

/-- A store elsewhere. -/
lemma HoldsScreen.store_off (h : HoldsScreen byte a sc) {x : ℕ}
    (hoff : ¬ Overlap x l.length a screenSize) : HoldsScreen (store byte x l) a sc := by
  refine h.congr fun i hi => store_of_lt ?_
  simp only [Overlap] at hoff
  omega

/-- The copy of a screen that the memory holds is the copy of the screen. -/
lemma HoldsScreen.copyScreen (h : HoldsScreen byte a sc) (m : CellMemory) :
    m.copyScreen (screenCells byte a) = m.copyScreen sc.video := by
  have hcell : ∀ i : ℤ, 0 ≤ i → i < 2000 → (screenCells byte a).cell i = sc.video.cell i := by
    intro i hpos hlt
    obtain ⟨i, rfl⟩ := Int.eq_ofNat_of_zero_le hpos
    rw [screenCells]
    simp only [Int.toNat_natCast]
    rw [h.cells i (by omega), UInt16.ofNat_toNat]
  rw [CellMemory.copyScreen, CellMemory.copyScreen]
  congr 1
  funext i
  split_ifs with hi
  · exact hcell i hi.1 hi.2
  · rfl

/-- The cursor of a screen that the memory holds, as `set_cursor` gets it. -/
lemma HoldsScreen.cursor (h : HoldsScreen byte a sc) :
    u16le byte (a + 4) = u16 sc.x ∧ u16le byte (a + 8) = u16 sc.y := by
  have hlow : ∀ b, u16le byte b = u32le byte b % 2 ^ 16 := by
    intro b
    have := u16le_lt byte b
    rw [u32le]
    omega
  rw [hlow, hlow, h.x_eq, h.y_eq, u16, u16, u32, u32]
  omega

lemma u16_bytes (c : UInt16) : c.toUInt8.toNat + 256 * (c >>> 8).toUInt8.toNat = c.toNat := by
  have hlt := c.toNat_lt
  have hhigh : (c >>> 8).toNat = c.toNat / 2 ^ 8 := by
    rw [UInt16.toNat_shiftRight, Nat.shiftRight_eq_div_pow]
    rfl
  rw [UInt16.toNat_toUInt8, UInt16.toNat_toUInt8, hhigh]
  omega

lemma CellMemory.u16le_screenBytes (m : CellMemory) {i : ℕ} (hi : i < 2000) :
    u16le (store byte a m.screenBytes) (a + 2 * i) = (m.cell i).toNat := by
  have hbyte : ∀ k < 4000, store byte a m.screenBytes (a + k) =
      if k % 2 = 0 then (m.cell ((k / 2 : ℕ) : ℤ)).toUInt8
      else (m.cell ((k / 2 : ℕ) : ℤ) >>> 8).toUInt8 := by
    intro k hk
    rw [store_add (by rw [length_screenBytes]; exact hk), screenBytes]
    simp [List.getD, hk]
  have hlow := hbyte (2 * i) (by omega)
  have hhigh := hbyte (2 * i + 1) (by omega)
  rw [if_pos (by omega), show 2 * i / 2 = i by omega] at hlow
  rw [if_neg (by omega), show (2 * i + 1) / 2 = i by omega, ← Nat.add_assoc] at hhigh
  rw [u16le, hlow, hhigh, u16_bytes]

/-- The bytes of a saved screen. -/
lemma holdsScreen_saved (byte : ℕ → UInt8) (a col row : ℕ) (m v : CellMemory) :
    HoldsScreen (store (store (store (store byte (a + 12) m.screenBytes) (a + 4)
      (numberBytes 4 col)) (a + 8) (numberBytes 4 row)) a [0]) a
      ⟨false, col, row, v.copyScreen m⟩ := by
  have hu32 : ∀ n : ℕ, u32 (n : ℤ) = n % 2 ^ 32 := by
    intro n
    rw [u32]
    omega
  refine ⟨store_add (i := 0) (by simp), ?_, ?_, fun i hi => ?_⟩
  · rw [u32le_eq_number, slice_store_of_disjoint (by simp), slice_store_of_disjoint (by omega),
      ← u32le_eq_number, u32le_store_mod, hu32]
  · rw [u32le_eq_number, slice_store_of_disjoint (by simp), ← u32le_eq_number, u32le_store_mod,
      hu32]
  · have hcell : (v.copyScreen m).cell (i : ℕ) = m.cell i := by
      simp only [CellMemory.copyScreen]
      rw [if_pos ⟨by omega, by omega⟩]
    rw [hcell, ← m.u16le_screenBytes hi, u16le_eq_number,
      slice_store_of_disjoint (by rw [List.length_singleton]; omega),
      slice_store_of_disjoint (by rw [length_numberBytes]; omega),
      slice_store_of_disjoint (by rw [length_numberBytes]; omega), ← u16le_eq_number]

lemma ScreensDisjoint.congr (h : ScreensDisjoint P s)
    (hscreen : ∀ q, P q → (t.process q).screen = (s.process q).screen) : ScreensDisjoint P t := by
  refine ⟨h.toScreensApart.congr hscreen, fun q r hq hr => ?_⟩
  rw [hscreen q hq, hscreen r hr]
  exact h.disjoint q r hq hr

/-- The bytes of a screen that is marked as shown. -/
lemma HoldsScreen.setShown (h : HoldsScreen byte a sc) :
    HoldsScreen (store byte a [1]) a { sc with currentScreen := true } := by
  have hoff : ∀ {x n : ℕ}, a < x → slice (store byte a [1]) x n = slice byte x n := fun hx =>
    slice_store_of_disjoint (Or.inr (by simpa using Nat.succ_le_of_lt hx))
  refine ⟨store_add (i := 0) (by simp), ?_, ?_, fun i hi => ?_⟩
  · rw [u32le_eq_number, hoff (by omega), ← u32le_eq_number, h.x_eq]
  · rw [u32le_eq_number, hoff (by omega), ← u32le_eq_number, h.y_eq]
  · rw [u16le_eq_number, hoff (by omega), ← u16le_eq_number, h.cells i hi]

/-- The memory behind `process_save_video`. -/
lemma System.processSaveVideo_byte (hscreen : (s.process p).screen = screen)
    (hp : OffScreen screen p processSize) : (s.processSaveVideo p).memory.byte =
      store (store (store (store s.memory.byte (screen + 12) s.terminal.video.screenBytes)
        (screen + 4) (numberBytes 4 s.terminal.col)) (screen + 8)
        (numberBytes 4 s.terminal.row)) screen [0] := by
  have hstore : ∀ {t : System} {k : ℕ} {l : List UInt8}, (t.process p).screen = screen →
      k + l.length ≤ screenSize → ((t.storeBytes (screen + k) l).process p).screen = screen :=
    fun ht hk => (congrArg Process.screen (overlaid_of_not (hp.part hk))).trans ht
  have h₁ := hstore hscreen (k := 12) (l := s.terminal.video.screenBytes) (by simp [screenSize])
  have h₂ := hstore h₁ (k := 4) (l := numberBytes 4 s.terminal.col) (by simp [screenSize])
  have h₃ := hstore h₂ (k := 8) (l := numberBytes 4 s.terminal.row) (by simp [screenSize])
  have hterminal : ∀ {t : System} {a : ℕ} {l : List UInt8},
      (t.storeBytes a l).terminal = t.terminal := rfl
  have hbyte : ∀ {t : System} {a : ℕ} {l : List UInt8},
      (t.storeBytes a l).memory.byte = store t.memory.byte a l := rfl
  simp only [System.processSaveVideo, hscreen, hterminal, h₁, h₂, h₃, hbyte]

namespace Screens.Mirrors

/-- Screens that lie apart are different ones. -/
lemma screenOf_ne (h : st.Mirrors P s) (hp : P p) (hq : P q)
    (hapart : OffScreen (s.process p).screen (s.process q).screen screenSize) :
    st.screenOf q ≠ st.screenOf p := by
  rw [h.screenOf_eq p hp, h.screenOf_eq q hq]
  intro hsame
  rw [hsame] at hapart
  exact hapart ⟨by simp [screenSize], by simp [screenSize]⟩

/-- The screens of the two models agree behind `process_save_video`. -/
lemma processSaveVideo (h : st.Mirrors P s) (hs : ScreensDisjoint P s) (hp : P p) :
    (st.processSaveVideo p).Mirrors P (s.processSaveVideo p) := by
  have hoff := hs.process_off p p hp hp
  have hpaint := s.painted_processSaveVideo rfl hoff
  have hscreen : ∀ q, P q → ((s.processSaveVideo p).process q).screen = (s.process q).screen :=
    fun q hq => congrArg Process.screen (hpaint.process_eq q (hs.process_off p q hp hq))
  refine ⟨h.terminal_eq, h.current_eq, fun q hq => ?_, fun q hq => ?_⟩
  · rw [hscreen q hq]
    exact h.screenOf_eq q hq
  · rw [hscreen q hq, s.processSaveVideo_byte rfl hoff]
    change HoldsScreen _ _ (Function.update st.screen (st.screenOf p) _ (st.screenOf q))
    rcases hs.disjoint p q hp hq with hsame | hapart
    · rw [h.screenOf_eq p hp, h.screenOf_eq q hq, ← hsame, Function.update_self, h.terminal_eq]
      exact holdsScreen_saved _ _ _ _ _ _
    · rw [Function.update_of_ne (h.screenOf_ne hp hq hapart)]
      have hpart : ∀ {k n : ℕ}, k + n ≤ screenSize →
          ¬ Overlap ((s.process p).screen + k) n (s.process q).screen screenSize :=
        fun hk => hapart.part hk
      exact ((((h.screen q hq).store_off (hpart (by simp [screenSize]))).store_off
        (hpart (by simp [screenSize]))).store_off (hpart (by simp [screenSize]))).store_off
          (hpart (k := 0) (by simp [screenSize]))

/-- So do they behind `process_load_video`. -/
lemma processLoadVideo (h : st.Mirrors P s) (hs : ScreensDisjoint P s) (hp : P p) :
    (st.processLoadVideo p).Mirrors P (s.processLoadVideo p) := by
  have hpaint := s.painted_processLoadVideo (p := p) rfl
  have hscreen : ∀ q, P q → ((s.processLoadVideo p).process q).screen = (s.process q).screen :=
    fun q hq => congrArg Process.screen (hpaint.process_eq q (hs.process_off p q hp hq))
  have hheld := h.screen p hp
  refine ⟨?_, h.current_eq, fun q hq => ?_, fun q hq => ?_⟩
  · change setCursor _ _ _ = setCursor _ _ _
    obtain ⟨hx, hy⟩ := hheld.cursor
    rw [hheld.copyScreen, hx, hy, h.terminal_eq]
  · rw [hscreen q hq]
    exact h.screenOf_eq q hq
  · rw [hscreen q hq]
    change HoldsScreen (store s.memory.byte (s.process p).screen [1]) _
      (Function.update st.screen (st.screenOf p) _ (st.screenOf q))
    rcases hs.disjoint p q hp hq with hsame | hapart
    · rw [h.screenOf_eq q hq, ← hsame, ← h.screenOf_eq p hp, Function.update_self]
      rw [← h.screenOf_eq p hp] at hheld
      exact hheld.setShown
    · rw [Function.update_of_ne (h.screenOf_ne hp hq hapart)]
      exact (h.screen q hq).store_off (hapart.part (k := 0) (by simp [screenSize]))

/-- So do they behind a switch between two of the processes. -/
lemma processSwitch (h : st.Mirrors P s) (hs : ScreensDisjoint P s) (hcurrent : P s.currentProcess)
    (hp : P p) : (st.processSwitch p).Mirrors P (s.switchTo p) := by
  have hsave := h.processSaveVideo hs hcurrent
  have hs' := hs.congr fun q hq => congrArg Process.screen
    ((s.painted_processSaveVideo rfl (hs.process_off _ _ hcurrent hcurrent)).process_eq q
      (hs.process_off _ q hcurrent hq))
  have hload := hsave.processLoadVideo hs' hp
  rw [Screens.processSwitch, h.current_eq]
  exact ⟨hload.terminal_eq, rfl, hload.screenOf_eq, hload.screen⟩

/-- **Switching.**  The stores of the switches between processes whose screens lie apart, or are
the same, are what the switches do to the screens. -/
theorem switches {l : List Ptr} (h : st.Mirrors P s) (hs : ScreensDisjoint P s)
    (hcurrent : P s.currentProcess) (hl : ∀ p ∈ l, P p) :
    (l.foldl Screens.processSwitch st).Mirrors P (l.foldl System.switchTo s) := by
  induction l generalizing st s with
  | nil => exact h
  | cons p l ih =>
    obtain ⟨hp, hl⟩ := List.forall_mem_cons.mp hl
    have hscreen : ∀ q, P q → ((s.switchTo p).process q).screen = (s.process q).screen :=
      fun q hq => congrArg Process.screen
        ((hs.painted_switchTo hcurrent hp).process_eq q (Or.inl ⟨rfl, hq⟩))
    exact ih (h.processSwitch hs hcurrent hp) (hs.congr hscreen) hp hl

end Screens.Mirrors

end SerpaeOS
