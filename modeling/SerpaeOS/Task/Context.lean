import SerpaeOS.Lib.X86
import SerpaeOS.Task.List

/-!
# Switching between tasks

An interrupt or a system call pushes the registers of the running task on the kernel's stack,
`task_save_state` copies them to the structure of the task, and `task_return` loads those of the
next task.  The routines of `idt.asm` and `task.asm` are lists of instructions here.
-/

namespace SerpaeOS

open X86 TaskList StepRun

/-! ## Layouts -/

/-- `struct registers` as the words that it is made of. -/
def TaskList.Registers.words (r : Registers) : List ℕ :=
  [r.edi, r.esi, r.ebp, r.ebx, r.edx, r.ecx, r.eax, r.ip, r.cs, r.flags, r.esp, r.ss]

namespace Context

/-- The offset of `registers` in `struct task`. -/
def registersOffset : ℕ := 4

/-- The assignments of `task_save_state` in their order: offsets in `struct registers` and in
`struct interrupt_frame`. -/
def savedFields : List (ℕ × ℕ) :=
  [(28, 32), (32, 36), (36, 40), (40, 44), (44, 48), (24, 28), (8, 8), (12, 16), (20, 24), (0, 0),
    (16, 20), (4, 4)]

/-- `task_save_state` over the words of the memory. -/
def taskSaveState (task frame : ℕ) (mem : ℕ → ℕ) : ℕ → ℕ :=
  savedFields.foldl (fun mem field =>
    Function.update mem (task + registersOffset + field.1) (mem (frame + field.2))) mem

def kernelCodeSelector : ℕ := 0x08
def kernelDataSelector : ℕ := 0x10

/-- The stack that the task state segment names for interrupts of programs. -/
def kernelStack : ℕ := 0x600000

/-! ## The routines -/

/-- The macro `interrupt` up to the call of `interrupt_handler`. -/
def interruptEntry (n : ℕ) : List Instr := [.pushad, .push (.reg .esp), .push (.imm n)]

/-- The macro `interrupt` behind the call. -/
def interruptExit : List Instr := [.add .esp 8, .popad, .iretd]

/-- `isr80h_wrapper` up to the call of `isr80h_handler`. -/
def isr80hEntry : List Instr := [.pushad, .push (.reg .esp), .push (.reg .eax)]

/-- `isr80h_wrapper` behind the call; `tmpRes` is the address of `tmp_res`. -/
def isr80hExit (tmpRes : ℕ) : List Instr :=
  [.store tmpRes .eax, .add .esp 8, .popad, .mov .eax (.label tmpRes), .iretd]

def restoreGeneralPurposeRegisters : List Instr :=
  [.push (.reg .ebp), .mov .ebp (.reg .esp), .mov .ebx (.mem .ebp 8), .mov .edi (.mem .ebx 0),
    .mov .esi (.mem .ebx 4), .mov .ebp (.mem .ebx 8), .mov .edx (.mem .ebx 16),
    .mov .ecx (.mem .ebx 20), .mov .eax (.mem .ebx 24), .mov .ebx (.mem .ebx 12), .add .esp 4,
    .ret]

/-- `task_return` up to the call of `restore_general_purpose_registers`. -/
def taskReturnHead : List Instr :=
  [.mov .ebp (.reg .esp), .mov .ebx (.mem .ebp 4), .push (.mem .ebx 44), .push (.mem .ebx 40),
    .pushf, .pop .eax, .or .eax 0x200, .push (.reg .eax), .push (.mem .ebx 32),
    .push (.mem .ebx 28), .mov16 .eax (.mem .ebx 44), .movSeg .ds .eax, .movSeg .es .eax,
    .movSeg .fs .eax, .movSeg .gs .eax, .push (.mem .ebp 4)]

/-- `task_return`; `returnAddress` is the one of its call in the middle. -/
def taskReturn (returnAddress : ℕ) (m : Machine) : Option Machine :=
  (exec taskReturnHead m).call returnAddress restoreGeneralPurposeRegisters |>.map
    (exec [.add .esp 4, .iretd])

def userRegisters : List Instr :=
  [.mov16 .eax (.imm 0x23), .movSeg .ds .eax, .movSeg .es .eax, .movSeg .fs .eax,
    .movSeg .gs .eax]

def kernelRegisters : List Instr :=
  [.mov16 .eax (.imm 0x10), .movSeg .ds .eax, .movSeg .es .eax, .movSeg .gs .eax,
    .movSeg .fs .eax]

/-! ## What the routines do -/

/-- The registers that a program has. -/
def registersOf (m : Machine) : Registers where
  edi := m.reg .edi
  esi := m.reg .esi
  ebp := m.reg .ebp
  ebx := m.reg .ebx
  edx := m.reg .edx
  ecx := m.reg .ecx
  eax := m.reg .eax
  ip := m.eip
  cs := m.seg .cs
  flags := m.eflags
  esp := m.reg .esp
  ss := m.seg .ss

variable {m : Machine} {R : Registers} {regs ra e : ℕ}

/-- The words from `regs` on that `task_return` reads. -/
lemma words_registers (h : Words m.mem regs R.words) :
    m.mem regs = R.edi ∧ m.mem (regs + 4) = R.esi ∧ m.mem (regs + 8) = R.ebp ∧
      m.mem (regs + 12) = R.ebx ∧ m.mem (regs + 16) = R.edx ∧ m.mem (regs + 20) = R.ecx ∧
      m.mem (regs + 24) = R.eax ∧ m.mem (regs + 28) = R.ip ∧ m.mem (regs + 32) = R.cs ∧
      m.mem (regs + 40) = R.esp ∧ m.mem (regs + 44) = R.ss := by
  obtain ⟨h₀, h₁, h₂, h₃, h₄, h₅, h₆, h₇, h₈, -, h₁₀, h₁₁, -⟩ := h
  exact ⟨h₀, h₁, h₂, h₃, h₄, h₅, h₆, h₇, h₈, h₁₀, h₁₁⟩

/-- The segment registers for data all hold the selector. -/
def DataSegments (m : Machine) (selector : ℕ) : Prop :=
  m.seg .ds = selector ∧ m.seg .es = selector ∧ m.seg .fs = selector ∧ m.seg .gs = selector

lemma taskReturnHead_spec (hstack : m.Stack [ra, regs]) (hwords : Words m.mem regs R.words)
    (he : m.reg .esp = e) (hlow : 64 ≤ e) (hhigh : e ≤ kernelStack) (hregs : kernelStack ≤ regs) :
    ∃ m', exec taskReturnHead m = m' ∧
      m'.Stack [regs, R.ip, R.cs, m.eflags ||| 0x200, R.esp, R.ss] ∧ m'.reg .esp = e - 24 ∧
      m'.cr3 = m.cr3 ∧ m'.seg .cs = m.seg .cs ∧ DataSegments m' (R.ss % 2 ^ 16) ∧
      ∀ a, kernelStack ≤ a → m'.mem a = m.mem a := by
  obtain ⟨-, harg, -⟩ := hstack
  obtain ⟨-, -, -, -, -, -, -, hip, hcs, hesp, hss⟩ := words_registers hwords
  rw [he] at harg
  rw [kernelStack] at *
  have haddr : ∀ k, 4 ≤ k → k ≤ 64 → e - k + 4 = e - (k - 4) := fun k _ _ => by omega
  refine ⟨_, rfl, ?_, ?_, ?_, ?_, ?_, fun a ha => ?_⟩
  all_goals simp (disch := first | decide | omega) only [exec, taskReturnHead, List.foldl_cons,
    List.foldl_nil, Instr.exec, Operand.value, Machine.push, Machine.pop, Machine.drop,
    Machine.setReg, Machine.setSeg, Machine.top, Function.update_self, Function.update_of_ne, he,
    harg, hip, hcs, hesp, hss, Machine.Stack, Words, Nat.sub_sub, Nat.reduceAdd, Nat.reduceSub,
    haddr, and_self, DataSegments, Nat.mul_add_mod', Nat.mod_mod]

/-- The general registers, but for the stack pointer. -/
def HasGeneral (m : Machine) (R : Registers) : Prop :=
  m.reg .edi = R.edi ∧ m.reg .esi = R.esi ∧ m.reg .ebp = R.ebp ∧ m.reg .ebx = R.ebx ∧
    m.reg .edx = R.edx ∧ m.reg .ecx = R.ecx ∧ m.reg .eax = R.eax

lemma restoreGeneralPurposeRegisters_spec (hwords : Words m.mem regs R.words)
    (harg : m.mem e = regs) (he : m.reg .esp = e) (hlow : 32 ≤ e) (hhigh : e ≤ kernelStack)
    (hregs : kernelStack ≤ regs) :
    ∃ m', m.call ra restoreGeneralPurposeRegisters = some m' ∧ HasGeneral m' R ∧
      m'.reg .esp = e ∧ m'.cr3 = m.cr3 ∧ m'.seg = m.seg ∧ ∀ a, e ≤ a → m'.mem a = m.mem a := by
  obtain ⟨hedi, hesi, hebp, hebx, hedx, hecx, heax, -⟩ := words_registers hwords
  rw [kernelStack] at *
  have haddr : ∀ k, 4 ≤ k → k ≤ 32 → e - k + 4 = e - (k - 4) := fun k _ _ => by omega
  have harg' : e - 8 + 8 = e := by omega
  refine ⟨_, if_pos ?_, ?_, ?_, ?_, ?_, fun a ha => ?_⟩
  all_goals simp (disch := first | decide | omega) only [exec, restoreGeneralPurposeRegisters,
    List.foldl_cons, List.foldl_nil, Instr.exec, Operand.value, Machine.push,
    Machine.drop, Machine.setReg, Machine.top, Function.update_self, Function.update_of_ne, he,
    harg, harg', hedi, hesi, hebp, hebx, hedx, hecx, heax, HasGeneral,
    Nat.sub_sub, Nat.reduceAdd, Nat.reduceSub, haddr, Nat.add_zero, Nat.sub_zero, and_self]

/-- `task_return` leads to a program with the saved registers, but for the flags: these are the ones
of the kernel, with interrupts on. -/
lemma taskReturn_spec (hstack : m.Stack [ra, regs]) (hwords : Words m.mem regs R.words)
    (hlow : 64 ≤ m.reg .esp) (hhigh : m.reg .esp ≤ kernelStack) (hregs : kernelStack ≤ regs)
    (hcs : m.seg .cs % 4 = 0) (huser : R.cs % 4 = 3) (ra' : ℕ) :
    ∃ m', taskReturn ra' m = some m' ∧
      registersOf m' = { R with flags := m.eflags ||| 0x200 } ∧ m'.cr3 = m.cr3 ∧
      DataSegments m' (R.ss % 2 ^ 16) ∧ ∀ a, kernelStack ≤ a → m'.mem a = m.mem a := by
  obtain ⟨m₁, hm₁, hstack₁, hesp₁, hcr3₁, hcs₁, hseg₁, hmem₁⟩ :=
    taskReturnHead_spec hstack hwords rfl hlow hhigh hregs
  obtain ⟨m₂, hm₂, hgeneral, hesp₂, hcr3₂, hseg₂, hmem₂⟩ :=
    @restoreGeneralPurposeRegisters_spec m₁ R regs ra' _
      (hwords.congr fun i _ => hmem₁ _ (by omega)) (by rw [← hesp₁]; exact hstack₁.top_eq) hesp₁
      (by omega) (by omega) hregs
  have hstack₂ : m₂.Stack [regs, R.ip, R.cs, m.eflags ||| 0x200, R.esp, R.ss] := by
    rw [Machine.Stack, hesp₂, ← hesp₁]
    exact Words.congr hstack₁ fun i _ => hmem₂ _ (by omega)
  have hdrop : exec [.add .esp 4, .iretd] m₂ = m₂.drop.iretd := rfl
  have hiret := Machine.iretd_spec hstack₂.drop (by rw [← hcs₁, ← hseg₂] at hcs; exact hcs) huser
  refine ⟨m₂.drop.iretd, ?_, ?_, ?_, ?_, fun a ha => ?_⟩
  · rw [taskReturn, hm₁, hm₂, Option.map_some, hdrop]
  · obtain ⟨hedi, hesi, hebp, hebx, hedx, hecx, heax⟩ := hgeneral
    rw [hiret]
    simp (disch := decide) only [registersOf, Machine.drop, Machine.setReg, Function.update_self,
      Function.update_of_ne, hedi, hesi, hebp, hebx, hedx, hecx, heax]
  · rw [hiret, ← hcr3₁, ← hcr3₂]
    rfl
  · rw [hiret]
    simp (disch := decide) only [DataSegments, Machine.drop, Machine.setReg, Function.update_of_ne,
      hseg₂]
    exact hseg₁
  · rw [hiret]
    exact (hmem₂ a (by omega)).trans (hmem₁ a ha)

/-- The frame of an interrupt as the words that it is made of, with the error code of some
exceptions in the middle. -/
def frameWords (R : Registers) (sp : ℕ) (error : Option ℕ) : List ℕ :=
  [R.edi, R.esi, R.ebp, sp, R.ebx, R.edx, R.ecx, R.eax] ++ error.toList ++
    [R.ip, R.cs, R.flags, R.esp, R.ss]

/-- The kernel behind the entry of an interrupt: the arguments of the handler and the frame are on
its stack. -/
structure KernelEntered (user m : Machine) (argument : ℕ) (error : Option ℕ) (e : ℕ) : Prop where
  stack : ∃ sp, m.Stack (argument :: (e + 8) :: frameWords (registersOf user) sp error)
  esp_eq : m.reg .esp = e
  range : e + 60 + 4 * error.toList.length = kernelStack
  cs_eq : m.seg .cs = kernelCodeSelector
  mem_eq : ∀ a, kernelStack ≤ a → m.mem a = user.mem a

/-- The entries of the macro `interrupt` and of `isr80h_wrapper`. -/
lemma kernelEntered (user : Machine) (error : Option ℕ) {src : Operand} {argument : ℕ}
    (hsrc : src = .imm argument ∨ src = .reg .eax ∧ argument = user.reg .eax) :
    ∃ m e, exec [.pushad, .push (.reg .esp), .push src]
        (user.interrupt kernelCodeSelector kernelDataSelector kernelStack error) = m ∧
      KernelEntered user m argument error e := by
  have hsmall : error.toList.length ≤ 1 := by
    cases error with
    | none => exact Nat.zero_le 1
    | some _ => exact Nat.le_refl 1
  obtain ⟨m₁, hm₁, hstack₁, hreg₁, hcs₁, hmem₁⟩ :=
    user.interrupt_spec kernelCodeSelector kernelDataSelector
      (show 24 ≤ kernelStack by decide) error
  have hesp₁ : m₁.reg .esp = kernelStack - 4 * (5 + error.toList.length) := by
    rw [hreg₁, Function.update_self]
  have hroom : kernelStack = 0x600000 := rfl
  obtain ⟨m₂, hm₂, hstack₂, hreg₂, hseg₂, hmem₂⟩ := Machine.pushad_spec hstack₁ (by omega)
  have hesp₂ : m₂.reg .esp = m₁.reg .esp - 32 := by rw [hreg₂, Function.update_self]
  have hstack₃ := hstack₂.push (v := m₂.reg .esp) (by omega)
  have hesp₃ : (m₂.push (m₂.reg .esp)).reg .esp = m₂.reg .esp - 4 := by
    simp only [Machine.push, Function.update_self]
  have hstack₄ := hstack₃.push (v := argument) (by omega)
  have hvalue : src.value (m₂.push (m₂.reg .esp)) = argument := by
    rcases hsrc with rfl | ⟨rfl, rfl⟩
    · rfl
    · simp (disch := decide) only [Operand.value, Machine.push, Function.update_of_ne, hreg₂, hreg₁]
  refine ⟨(m₂.push (m₂.reg .esp)).push argument, m₂.reg .esp - 8, ?_, ⟨m₁.reg .esp, ?_⟩, ?_, ?_, ?_,
    fun a ha => ?_⟩
  · rw [hm₁, exec, List.foldl_cons, hm₂, List.foldl_cons, List.foldl_cons, List.foldl_nil]
    exact congrArg (Machine.push (m₂.push (m₂.reg .esp))) hvalue
  · rw [show m₂.reg .esp - 8 + 8 = m₂.reg .esp by omega, frameWords]
    simp (disch := decide) only [hreg₁, Function.update_of_ne] at hstack₄ ⊢
    exact hstack₄
  · simp only [Machine.push, Function.update_self]
    omega
  · omega
  · rw [← hcs₁, ← hseg₂]
    rfl
  · rw [← hmem₁ a ha, ← hmem₂ a (by omega)]
    simp (disch := omega) only [Machine.push, Function.update_self, Function.update_of_ne]

/-- The arguments and the registers of the frame are popped. -/
lemma popFrame_spec {argument x sp : ℕ}
    (hstack : m.Stack (argument :: x :: frameWords R sp none)) :
    ∃ m', exec [.add .esp 8, .popad] m = m' ∧ m'.Stack [R.ip, R.cs, R.flags, R.esp, R.ss] ∧
      HasGeneral m' R ∧ m' = { m with reg := m'.reg } := by
  have hdrop : exec [.add .esp 8, .popad] m = m.drop.drop.popad := by
    simp only [exec, List.foldl_cons, List.foldl_nil, Instr.exec, Machine.drop, Machine.setReg,
      Function.update_self, Function.update_idem, Nat.add_assoc]
  obtain ⟨hstack', heq, hedi, hesi, hebp, hebx, hedx, hecx, heax⟩ :=
    Machine.popad_spec hstack.drop.drop
  refine ⟨_, hdrop, hstack', ⟨hedi, hesi, hebp, hebx, hedx, hecx, heax⟩, ?_⟩
  rw [heq]
  rfl

/-- Back to the program, with `eax` as it is now. -/
lemma iretd_frame {v : ℕ} (hstack : m.Stack [R.ip, R.cs, R.flags, R.esp, R.ss])
    (hgeneral : HasGeneral m R) (hcs : m.seg .cs % 4 = 0) (huser : R.cs % 4 = 3) :
    ∃ m', (m.setReg .eax v).iretd = m' ∧ registersOf m' = { R with eax := v } ∧
      m'.cr3 = m.cr3 ∧ m'.mem = m.mem ∧ ∀ s, s ≠ .cs → s ≠ .ss → m'.seg s = m.seg s := by
  have hiret := Machine.iretd_spec (hstack.setReg (r := .eax) (v := v) (by decide)) hcs huser
  obtain ⟨hedi, hesi, hebp, hebx, hedx, hecx, -⟩ := hgeneral
  refine ⟨_, hiret, ?_, rfl, rfl, fun s hs hss => ?_⟩
  · simp (disch := decide) only [registersOf, Machine.setReg, Function.update_self,
      Function.update_of_ne, hedi, hesi, hebp, hebx, hedx, hecx]
  · simp only [Machine.setReg, Function.update_of_ne hs, Function.update_of_ne hss]

/-- The exit of the macro `interrupt`. -/
lemma interruptExit_spec {argument x sp : ℕ}
    (hstack : m.Stack (argument :: x :: frameWords R sp none)) (hcs : m.seg .cs % 4 = 0)
    (huser : R.cs % 4 = 3) :
    ∃ m', exec interruptExit m = m' ∧ registersOf m' = R ∧ m'.cr3 = m.cr3 ∧ m'.mem = m.mem ∧
      ∀ s, s ≠ .cs → s ≠ .ss → m'.seg s = m.seg s := by
  obtain ⟨m₁, hm₁, hstack₁, hgeneral, heq⟩ := popFrame_spec hstack
  have heax : m₁.setReg .eax R.eax = m₁ := by
    rw [Machine.setReg, ← hgeneral.2.2.2.2.2.2, Function.update_eq_self]
  obtain ⟨m₂, hm₂, hregs, hcr3, hmem, hseg⟩ :=
    iretd_frame (v := R.eax) hstack₁ hgeneral (by rwa [heq]) huser
  rw [heax] at hm₂
  rw [heq] at hcr3 hmem hseg
  refine ⟨m₂, ?_, hregs, hcr3, hmem, hseg⟩
  rw [← hm₂, ← hm₁]
  rfl

/-- The exit of `isr80h_wrapper`: the result is kept in `tmp_res` meanwhile. -/
lemma isr80hExit_spec {argument x sp tmpRes : ℕ}
    (hstack : m.Stack (argument :: x :: frameWords R sp none)) (hcs : m.seg .cs % 4 = 0)
    (huser : R.cs % 4 = 3) (htmp : tmpRes < m.reg .esp) :
    ∃ m', exec (isr80hExit tmpRes) m = m' ∧ registersOf m' = { R with eax := m.reg .eax } ∧
      m'.cr3 = m.cr3 ∧ m'.mem = Function.update m.mem tmpRes (m.reg .eax) ∧
      ∀ s, s ≠ .cs → s ≠ .ss → m'.seg s = m.seg s := by
  obtain ⟨m₀, hm₀⟩ : ∃ m₀ : Machine, m₀ =
    { m with mem := Function.update m.mem tmpRes (m.reg .eax) } := ⟨_, rfl⟩
  have hstack₀ : m₀.Stack (argument :: x :: frameWords R sp none) := by
    rw [hm₀]
    exact Words.update hstack fun i _ =>
      (Nat.ne_of_lt (Nat.lt_of_lt_of_le htmp (Nat.le_add_right _ _))).symm
  obtain ⟨m₁, hm₁, hstack₁, hgeneral, heq⟩ := popFrame_spec hstack₀
  have htmpRes : m₁.mem tmpRes = m.reg .eax := by
    rw [heq, hm₀]
    exact Function.update_self _ _ m.mem
  obtain ⟨m₂, hm₂, hregs, hcr3, hmem, hseg⟩ :=
    iretd_frame (v := m.reg .eax) hstack₁ hgeneral (by rw [heq, hm₀]; exact hcs) huser
  rw [heq, hm₀] at hcr3 hmem hseg
  refine ⟨m₂, ?_, hregs, hcr3, hmem, hseg⟩
  rw [← hm₂, ← htmpRes, ← hm₁, hm₀]
  rfl

lemma foldl_update_of_ne {fields : List (ℕ × ℕ)} {task frame a : ℕ} : ∀ {mem : ℕ → ℕ},
    (∀ field ∈ fields, a ≠ task + field.1) → fields.foldl (fun mem field =>
      Function.update mem (task + field.1) (mem (frame + field.2))) mem a = mem a := by
  induction fields with
  | nil => exact fun _ => rfl
  | cons field fields ih =>
    intro mem h
    obtain ⟨hfield, hfields⟩ := List.forall_mem_cons.mp h
    rw [List.foldl_cons, ih hfields, Function.update_of_ne hfield]

/-- The assignments copy the fields of a frame that is somewhere else. -/
lemma foldl_update_eq {fields : List (ℕ × ℕ)} {task frame : ℕ} : ∀ {mem : ℕ → ℕ},
    (fields.map Prod.fst).Nodup →
    (∀ field ∈ fields, ∀ field' ∈ fields, frame + field.2 ≠ task + field'.1) →
    ∀ field ∈ fields, fields.foldl (fun mem field =>
      Function.update mem (task + field.1) (mem (frame + field.2))) mem (task + field.1) =
        mem (frame + field.2) := by
  induction fields with
  | nil => exact fun _ _ _ h => absurd h List.not_mem_nil
  | cons field fields ih =>
    intro mem hnodup hne f hf
    obtain ⟨hnot, hnodup'⟩ := List.nodup_cons.mp hnodup
    rw [List.foldl_cons]
    rcases List.mem_cons.mp hf with rfl | hf
    · rw [foldl_update_of_ne fun g hg => ?_, Function.update_self]
      intro hc
      exact hnot (List.mem_map.mpr ⟨g, hg, (Nat.add_left_cancel hc).symm⟩)
    · rw [ih hnodup' (fun g hg g' hg' => hne g (List.mem_cons_of_mem _ hg) g'
        (List.mem_cons_of_mem _ hg')) f hf, Function.update_of_ne]
      exact hne f (List.mem_cons_of_mem _ hf) field List.mem_cons_self

lemma taskSaveState_of_ne {task frame a : ℕ} {mem : ℕ → ℕ}
    (h : ∀ k < 12, a ≠ task + registersOffset + 4 * k) :
    taskSaveState task frame mem a = mem a := by
  refine foldl_update_of_ne fun field hfield => ?_
  have hoffset : ∀ f ∈ savedFields, ∃ k < 12, f.1 = 4 * k := by decide
  obtain ⟨k, hk, hf⟩ := hoffset field hfield
  rw [hf]
  exact h k hk

/-- `task_save_state` copies the frame of an interrupt that has no error code. -/
lemma taskSaveState_spec {task frame sp : ℕ} {mem : ℕ → ℕ} (htask : kernelStack ≤ task)
    (hframe : frame + 52 ≤ kernelStack) (hwords : Words mem frame (frameWords R sp none)) :
    Words (taskSaveState task frame mem) (task + registersOffset) R.words := by
  have hcopy : ∀ field ∈ savedFields, taskSaveState task frame mem
      (task + registersOffset + field.1) = mem (frame + field.2) := by
    refine foldl_update_eq (by decide) fun f hf g hg => ?_
    have hoffset : ∀ f ∈ savedFields, f.2 < 52 := by decide
    have := hoffset f hf
    omega
  obtain ⟨h₀, h₁, h₂, -, h₄, h₅, h₆, h₇, h₈, h₉, h₁₀, h₁₁, h₁₂, -⟩ := hwords
  refine ⟨?_, ?_, ?_, ?_, ?_, ?_, ?_, ?_, ?_, ?_, ?_, ?_, trivial⟩
  · exact (hcopy (0, 0) (by decide)).trans h₀
  · exact (hcopy (4, 4) (by decide)).trans h₁
  · exact (hcopy (8, 8) (by decide)).trans h₂
  · exact (hcopy (12, 16) (by decide)).trans h₄
  · exact (hcopy (16, 20) (by decide)).trans h₅
  · exact (hcopy (20, 24) (by decide)).trans h₆
  · exact (hcopy (24, 28) (by decide)).trans h₇
  · exact (hcopy (28, 32) (by decide)).trans h₈
  · exact (hcopy (32, 36) (by decide)).trans h₉
  · exact (hcopy (36, 40) (by decide)).trans h₁₀
  · exact (hcopy (40, 44) (by decide)).trans h₁₁
  · exact (hcopy (44, 48) (by decide)).trans h₁₂

end Context

end SerpaeOS
