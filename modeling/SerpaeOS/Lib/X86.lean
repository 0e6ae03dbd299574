import Mathlib.Algebra.Ring.Nat
import Mathlib.Data.Nat.Notation
import Mathlib.Logic.Function.Basic
import Mathlib.Tactic.Common

/-!
# Straight-line code of a 32-bit x86

The instructions by which a kernel is entered and left: the stack, the general registers, the
segment registers and the flags.  The memory is a function from the addresses of its words, and
`Words` says that a list of words lies in it from an address on; a stack is such a list from `esp`
on.  Stacks do not wrap around, and the flags that arithmetic sets are left out.
-/

namespace X86

/-- The general registers. -/
inductive Reg
  | eax | ecx | edx | ebx | esp | ebp | esi | edi
deriving DecidableEq, Repr

/-- The segment registers. -/
inductive Seg
  | cs | ss | ds | es | fs | gs
deriving DecidableEq, Repr

structure Machine where
  reg : Reg → ℕ
  seg : Seg → ℕ
  eip : ℕ
  eflags : ℕ
  /-- The page directory. -/
  cr3 : ℕ
  mem : ℕ → ℕ

/-! ## Words in the memory -/

section Words

variable {mem mem' : ℕ → ℕ} {a b v : ℕ} {ws ws' : List ℕ}

/-- The words lie in the memory one after the other. -/
def Words (mem : ℕ → ℕ) : ℕ → List ℕ → Prop
  | _, [] => True
  | a, w :: ws => mem a = w ∧ Words mem (a + 4) ws

lemma words_iff : Words mem a ws ↔ ∀ i (hi : i < ws.length), mem (a + 4 * i) = ws[i] := by
  induction ws generalizing a with
  | nil => exact ⟨fun _ i hi => absurd hi (Nat.not_lt_zero i), fun _ => trivial⟩
  | cons w ws ih =>
    rw [Words, ih]
    constructor
    · rintro ⟨hw, hws⟩ i hi
      cases i with
      | zero => exact hw
      | succ i =>
        have := hws i (Nat.lt_of_succ_lt_succ hi)
        rwa [Nat.add_assoc, Nat.add_comm 4 (4 * i)] at this
    · intro h
      refine ⟨h 0 (Nat.succ_pos _), fun i hi => ?_⟩
      rw [Nat.add_assoc, Nat.add_comm 4 (4 * i)]
      exact h (i + 1) (Nat.succ_lt_succ hi)

lemma Words.congr (h : Words mem a ws) (heq : ∀ i < ws.length, mem' (a + 4 * i) = mem (a + 4 * i)) :
    Words mem' a ws :=
  words_iff.mpr fun i hi => (heq i hi).trans (words_iff.mp h i hi)

lemma Words.update (h : Words mem a ws) (hb : ∀ i < ws.length, a + 4 * i ≠ b) :
    Words (Function.update mem b v) a ws :=
  h.congr fun i hi => Function.update_of_ne (hb i hi) _ _

end Words

namespace Machine

variable {m : Machine} {v : ℕ} {vs ws : List ℕ} {r : Reg}

def setReg (m : Machine) (r : Reg) (v : ℕ) : Machine :=
  { m with reg := Function.update m.reg r v }

def setSeg (m : Machine) (s : Seg) (v : ℕ) : Machine :=
  { m with seg := Function.update m.seg s v }

@[simp] lemma setReg_reg_self (m : Machine) (r : Reg) (v : ℕ) : (m.setReg r v).reg r = v := by
  simp only [setReg, Function.update_self]

lemma setReg_reg_of_ne (m : Machine) {r r' : Reg} (h : r' ≠ r) (v : ℕ) :
    (m.setReg r v).reg r' = m.reg r' := by
  simp only [setReg, Function.update_of_ne h]

def push (m : Machine) (v : ℕ) : Machine :=
  { m with
    reg := Function.update m.reg .esp (m.reg .esp - 4)
    mem := Function.update m.mem (m.reg .esp - 4) v }

/-- The words are pushed one after the other. -/
def pushAll (m : Machine) (vs : List ℕ) : Machine := vs.foldl push m

/-- The word on top of the stack. -/
def top (m : Machine) : ℕ := m.mem (m.reg .esp)

/-- The top word is dropped. -/
def drop (m : Machine) : Machine := m.setReg .esp (m.reg .esp + 4)

/-- The top word is popped to a register. -/
def pop (m : Machine) (r : Reg) : Machine := m.drop.setReg r m.top

/-- The words on top of the stack. -/
def Stack (m : Machine) (ws : List ℕ) : Prop := Words m.mem (m.reg .esp) ws

lemma Stack.push (h : m.Stack ws) (hesp : 4 ≤ m.reg .esp) : (m.push v).Stack (v :: ws) := by
  have hadd : m.reg .esp - 4 + 4 = m.reg .esp := Nat.sub_add_cancel hesp
  simp only [Stack, Machine.push, Function.update_self, Words, true_and, hadd]
  exact Words.update h fun i _ => by omega

/-- What pushing does to the machine. -/
lemma pushAll_spec (vs : List ℕ) (hesp : 4 * vs.length ≤ m.reg .esp) (h : m.Stack ws) :
    (m.pushAll vs).Stack (vs.reverse ++ ws) ∧
      m.pushAll vs = { m with
        reg := Function.update m.reg .esp (m.reg .esp - 4 * vs.length)
        mem := (m.pushAll vs).mem } ∧
      ∀ a, (a < m.reg .esp - 4 * vs.length ∨ m.reg .esp ≤ a) → (m.pushAll vs).mem a = m.mem a := by
  induction vs generalizing m ws with
  | nil =>
    refine ⟨h, ?_, fun _ _ => rfl⟩
    rw [pushAll, List.foldl_nil, List.length_nil, Nat.mul_zero, Nat.sub_zero,
      Function.update_eq_self]
  | cons v vs ih =>
    rw [List.length_cons] at hesp
    have hpush : (m.push v).reg .esp = m.reg .esp - 4 := by
      simp only [Machine.push, Function.update_self]
    obtain ⟨hstack, heq, hmem⟩ := ih (by omega) (h.push (v := v) (by omega))
    have hsub : m.reg .esp - 4 * (vs.length + 1) = (m.push v).reg .esp - 4 * vs.length := by omega
    refine ⟨?_, ?_, fun a ha => ?_⟩
    · rwa [List.reverse_cons, List.append_assoc, List.singleton_append]
    · rw [pushAll, List.foldl_cons, ← pushAll, heq, List.length_cons, hsub]
      simp only [Machine.push, Function.update_idem]
    · rw [List.length_cons] at ha
      rw [pushAll, List.foldl_cons, ← pushAll, hmem a (by omega)]
      exact Function.update_of_ne (by omega) _ _

lemma Stack.top_eq (h : m.Stack (v :: ws)) : m.top = v := h.1

lemma Stack.drop (h : m.Stack (v :: ws)) : m.drop.Stack ws := by
  simp only [Stack, Machine.drop, setReg, Function.update_self]
  exact h.2

lemma Stack.setReg (h : m.Stack ws) (hr : r ≠ .esp) : (m.setReg r v).Stack ws := by
  simp only [Stack, Machine.setReg, Function.update_of_ne hr.symm]
  exact h

lemma Stack.pop (h : m.Stack (v :: ws)) (hr : r ≠ .esp) : (m.pop r).Stack ws := h.drop.setReg hr

end Machine

/-! ## Instructions -/

inductive Operand
  | reg (r : Reg)
  | imm (n : ℕ)
  | mem (base : Reg) (disp : ℕ)
  | label (a : ℕ)

inductive Instr
  | push (src : Operand)
  | pushf
  | pushad
  | pop (dst : Reg)
  | popad
  | mov (dst : Reg) (src : Operand)
  | store (a : ℕ) (src : Reg)
  /-- A move to the lower half of a register. -/
  | mov16 (dst : Reg) (src : Operand)
  | movSeg (dst : Seg) (src : Reg)
  | movCr3 (src : Reg)
  | or (dst : Reg) (n : ℕ)
  | add (dst : Reg) (n : ℕ)
  | ret
  | iretd

def Operand.value (m : Machine) : Operand → ℕ
  | .reg r => m.reg r
  | .imm n => n
  | .mem base disp => m.mem (m.reg base + disp)
  | .label a => m.mem a

/-- `popad` skips the word of the stack pointer. -/
def Machine.popad (m : Machine) : Machine :=
  let m := ((m.pop .edi).pop .esi).pop .ebp
  let m := m.drop
  (((m.pop .ebx).pop .edx).pop .ecx).pop .eax

/-- `iretd` to a lower privilege also pops the stack pointer and the stack segment. -/
def Machine.iretd (m : Machine) : Machine :=
  let cpl := m.seg .cs % 4
  let (ip, m) := (m.top, m.drop)
  let (cs, m) := (m.top, m.drop)
  let (flags, m) := (m.top, m.drop)
  let m := { m.setSeg .cs cs with eip := ip, eflags := flags }
  if cs % 4 ≤ cpl then m
  else
    let (sp, m) := (m.top, m.drop)
    let (ss, m) := (m.top, m.drop)
    (m.setSeg .ss ss).setReg .esp sp

def Instr.exec (m : Machine) : Instr → Machine
  | .push src => m.push (src.value m)
  | .pushf => m.push m.eflags
  | .pushad => m.pushAll [m.reg .eax, m.reg .ecx, m.reg .edx, m.reg .ebx, m.reg .esp, m.reg .ebp,
      m.reg .esi, m.reg .edi]
  | .pop dst => m.pop dst
  | .popad => m.popad
  | .mov dst src => m.setReg dst (src.value m)
  | .store a src => { m with mem := Function.update m.mem a (m.reg src) }
  | .mov16 dst src => m.setReg dst (m.reg dst / 2 ^ 16 * 2 ^ 16 + src.value m % 2 ^ 16)
  | .movSeg dst src => m.setSeg dst (m.reg src % 2 ^ 16)
  | .movCr3 src => { m with cr3 := m.reg src }
  | .or dst n => m.setReg dst (m.reg dst ||| n)
  | .add dst n => m.setReg dst (m.reg dst + n)
  | .ret => { m.drop with eip := m.top }
  | .iretd => m.iretd

/-- The instructions are executed one after the other. -/
def exec (code : List Instr) (m : Machine) : Machine := code.foldl Instr.exec m

/-- A call of a routine from which `ret` has to lead back. -/
def Machine.call (m : Machine) (returnAddress : ℕ) (routine : List Instr) : Option Machine :=
  let m := exec routine (m.push returnAddress)
  if m.eip = returnAddress then some m else none

/-- An interrupt of a program: the processor takes the stack of the kernel, turns interrupts off,
as for an interrupt gate, and pushes what `iretd` takes back, with an error code for some
exceptions. -/
def Machine.interrupt (m : Machine) (cs ss esp : ℕ) (error : Option ℕ) : Machine :=
  let m' := ((m.setSeg .cs cs).setSeg .ss ss).setReg .esp esp
  { m' with eflags := m.eflags &&& 0xfffcbcff }.pushAll
    ([m.seg .ss, m.reg .esp, m.eflags, m.seg .cs, m.eip] ++ error.toList)

/-! ## Entering and leaving -/

namespace Machine

variable {m : Machine} {ws : List ℕ} {edi esi ebp x ebx edx ecx eax ip cs flags sp ss : ℕ}

/-- `popad` of the words that `pushad` leaves. -/
lemma popad_spec (h : m.Stack (edi :: esi :: ebp :: x :: ebx :: edx :: ecx :: eax :: ws)) :
    m.popad.Stack ws ∧ m.popad = { m with reg := m.popad.reg } ∧
      m.popad.reg .edi = edi ∧ m.popad.reg .esi = esi ∧ m.popad.reg .ebp = ebp ∧
      m.popad.reg .ebx = ebx ∧ m.popad.reg .edx = edx ∧ m.popad.reg .ecx = ecx ∧
      m.popad.reg .eax = eax := by
  have h₁ := h.pop (r := .edi) (by decide)
  have h₂ := h₁.pop (r := .esi) (by decide)
  have h₃ := h₂.pop (r := .ebp) (by decide)
  have h₄ := h₃.drop
  have h₅ := h₄.pop (r := .ebx) (by decide)
  have h₆ := h₅.pop (r := .edx) (by decide)
  have h₇ := h₆.pop (r := .ecx) (by decide)
  refine ⟨h₇.pop (by decide), rfl, h.top_eq, h₁.top_eq, h₂.top_eq, h₄.top_eq, h₅.top_eq,
    h₆.top_eq, h₇.top_eq⟩

/-- What `pushad` leaves. -/
lemma pushad_spec (h : m.Stack ws) (hesp : 32 ≤ m.reg .esp) :
    ∃ m', Instr.pushad.exec m = m' ∧
      m'.Stack (m.reg .edi :: m.reg .esi :: m.reg .ebp :: m.reg .esp :: m.reg .ebx ::
        m.reg .edx :: m.reg .ecx :: m.reg .eax :: ws) ∧
      m'.reg = Function.update m.reg .esp (m.reg .esp - 32) ∧ m'.seg = m.seg ∧
      ∀ a, m.reg .esp ≤ a → m'.mem a = m.mem a := by
  obtain ⟨hstack, heq, hmem⟩ := pushAll_spec [m.reg .eax, m.reg .ecx, m.reg .edx, m.reg .ebx,
    m.reg .esp, m.reg .ebp, m.reg .esi, m.reg .edi] hesp h
  refine ⟨_, rfl, hstack, ?_, ?_, fun a ha => hmem a (Or.inr ha)⟩
  · rw [Instr.exec, heq]
    rfl
  · rw [Instr.exec, heq]

/-- What an interrupt leaves on the stack of the kernel. -/
lemma interrupt_spec (cs ss : ℕ) {esp : ℕ} (hesp : 24 ≤ esp) (error : Option ℕ) :
    ∃ m', m.interrupt cs ss esp error = m' ∧
      m'.Stack (error.toList ++ [m.eip, m.seg .cs, m.eflags, m.reg .esp, m.seg .ss]) ∧
      m'.reg = Function.update m.reg .esp (esp - 4 * (5 + error.toList.length)) ∧
      m'.seg .cs = cs ∧ ∀ a, esp ≤ a → m'.mem a = m.mem a := by
  obtain ⟨m₀, hm₀⟩ : ∃ m₀ : Machine, m₀ = { ((m.setSeg .cs cs).setSeg .ss ss).setReg .esp esp with
    eflags := m.eflags &&& 0xfffcbcff } := ⟨_, rfl⟩
  have hreg₀ : m₀.reg = Function.update m.reg .esp esp := by rw [hm₀, setReg]; rfl
  have hesp₀ : m₀.reg .esp = esp := by rw [hreg₀, Function.update_self]
  have hcs₀ : m₀.seg .cs = cs := by
    rw [hm₀]
    simp (disch := decide) only [setReg, setSeg, Function.update_of_ne, Function.update_self]
  have hlen : ([m.seg .ss, m.reg .esp, m.eflags, m.seg .cs, m.eip] ++ error.toList).length =
      5 + error.toList.length := by
    rw [List.length_append]
    rfl
  have hsmall : error.toList.length ≤ 1 := by
    cases error with
    | none => exact Nat.zero_le 1
    | some _ => exact Nat.le_refl 1
  have hempty : m₀.Stack [] := trivial
  obtain ⟨hstack, heq, hmem⟩ :=
    pushAll_spec ([m.seg .ss, m.reg .esp, m.eflags, m.seg .cs, m.eip] ++ error.toList)
      (by rw [hlen]; omega) hempty
  refine ⟨_, rfl, ?_, ?_, ?_, fun a ha => ?_⟩
  · rw [interrupt, ← hm₀]
    rw [List.append_nil, List.reverse_append] at hstack
    cases error with
    | none => exact hstack
    | some _ => exact hstack
  · rw [interrupt, ← hm₀, heq, hlen, hesp₀, hreg₀]
    exact Function.update_idem _ _ _
  · rw [interrupt, ← hm₀, heq]
    exact hcs₀
  · rw [interrupt, ← hm₀, hmem a (by omega), hm₀]
    rfl

/-- `iretd` from the kernel to a program. -/
lemma iretd_spec (h : m.Stack [ip, cs, flags, sp, ss]) (hkernel : m.seg .cs % 4 = 0)
    (huser : cs % 4 = 3) : m.iretd = { m with
      reg := Function.update m.reg .esp sp
      seg := Function.update (Function.update m.seg .cs cs) .ss ss
      eip := ip
      eflags := flags } := by
  obtain ⟨h₁, h₂, h₃, h₄, h₅, -⟩ := h
  simp only [iretd, top, drop, setReg, setSeg, Function.update_self, Function.update_idem, h₁, h₂,
    h₃, h₄, h₅, hkernel, huser]
  rfl

end Machine

end X86
