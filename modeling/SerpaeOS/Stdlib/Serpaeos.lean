import SerpaeOS.Stdlib.String
import SerpaeOS.Task.LoadFailed
import SerpaeOS.Task.Commands

/-!
# Parsing a command

`sos_parse_command` copies the command into an array on its stack, lets `strtok` take the copy
apart, and builds a linked list with a copy of every token in blocks of `sos_malloc`.

The memory here is that of the caller's stack and of the blocks that `process_malloc` has
returned, which every process sees at the same addresses.  `kzalloc` fills a block with zeroes;
this is left out, as nothing reads a new block before it writes to it.
-/

namespace SerpaeOS

open Bytes Prog Stdlib Tokens

/-- `struct process_arguments`. -/
structure ProcessArguments where
  argc : ℕ
  argv : ℕ

/-- The system, with the memory of the strings and the static variable of `strtok` in the
calling process, and the arguments in the structures of the processes. -/
structure UserSystem where
  system : System
  strings : Strings
  arguments : ℕ → ProcessArguments

/-- A program over the state of the system and of the calling process. -/
abbrev UserProg := StateT UserSystem Option

def onSystem {α : Type} (p : SystemProg α) : UserProg α := fun u =>
  (p u.system).map fun r => (r.1, { u with system := r.2 })

/-- Stores, one after the other. -/
def storeAll (byte : ℕ → UInt8) (stores : List (ℕ × List UInt8)) : ℕ → UInt8 :=
  stores.foldl (fun byte e => store byte e.1 e.2) byte

/-- A call that may switch to another process: what it stores in the screens is also stored in
the memory of the strings. -/
def onSwitching {α : Type} (p : SystemProg α) : UserProg α := fun u =>
  (p u.system).map fun r =>
    let stores := r.2.screenStores.drop u.system.screenStores.length
    let byte := storeAll u.strings.byte stores
    (r.1, { u with system := r.2, strings := { u.strings with byte := byte } })

def onStrings {α : Type} (p : StringsProg α) : UserProg α := fun u =>
  (p u.strings).map fun r => (r.1, { u with strings := r.2 })

def getUser : UserProg UserSystem := fun u => some (u, u)

def updateByte (f : (ℕ → UInt8) → ℕ → UInt8) : UserProg Unit := fun u =>
  some ((), { u with strings := { u.strings with byte := f u.strings.byte } })

/-- `sizeof(struct command_argument)`. -/
def commandArgumentSize : ℕ := 516

/-- The size of the array `scommand`. -/
def scommandSize : ℕ := 1025

/-- The delimiter of a command. -/
def delimiter : UInt8 := 0x20

/-- The field `next` of a `struct command_argument`. -/
def nextArgument (byte : ℕ → UInt8) (argument : ℕ) : ℕ := u32le byte (argument + argumentSize)

def setNextArgument (argument next : ℕ) : UserProg Unit :=
  updateByte fun byte => store byte (argument + argumentSize) (numberBytes 4 next)

/-- `sos_malloc`. -/
def sosMalloc (size : ℕ) : UserProg ℕ := do
  let u ← getUser
  onSystem (processMallocCall u.system.callingProcess size)

/-- The loop of `sos_parse_command`. -/
def sosParseLoop (current token : ℕ) : UserProg Unit :=
  loop (fun (current, token) => do
    if token = 0 then return .inr ()
    else do
      let newCommand ← sosMalloc commandArgumentSize
      if newCommand = 0 then return .inr ()
      else do
        updateByte (strncpy newCommand token argumentSize)
        setNextArgument newCommand 0
        setNextArgument current newCommand
        let token ← onStrings (strtok 0 (some [delimiter]))
        return .inl (newCommand, token)) (current, token)

lemma sosParseLoop_step (current token : ℕ) : sosParseLoop current token =
    if token = 0 then pure ()
    else (do
      let newCommand ← sosMalloc commandArgumentSize
      if newCommand = 0 then return ()
      else do
        updateByte (strncpy newCommand token argumentSize)
        setNextArgument newCommand 0
        setNextArgument current newCommand
        let token ← onStrings (strtok 0 (some [delimiter]))
        sosParseLoop newCommand token) := by
  rw [sosParseLoop, loop_eq]
  dsimp only
  by_cases htoken : token = 0
  · rw [if_pos htoken, if_pos htoken]
    rfl
  · rw [if_neg htoken, if_neg htoken, bind_assoc]
    refine congrArg _ (funext fun newCommand => ?_)
    by_cases hnull : newCommand = 0
    · rw [if_pos hnull, if_pos hnull]
      rfl
    · rw [if_neg hnull, if_neg hnull]
      simp only [bind_assoc, pure_bind]
      rfl

/-- `sos_parse_command` with its array at the address `scommand`. -/
def sosParseCommand (scommand command : ℕ) (max : ℤ) : UserProg ℕ := do
  let _ ← onStrings (strtok 0 none)
  if max ≥ scommandSize then return 0
  else do
    updateByte (strncpy scommand command scommandSize)
    let token ← onStrings (strtok scommand (some [delimiter]))
    if token = 0 then return 0
    else do
      let rootCommand ← sosMalloc commandArgumentSize
      if rootCommand = 0 then return 0
      else do
        updateByte (strncpy rootCommand token argumentSize)
        setNextArgument rootCommand 0
        let token ← onStrings (strtok 0 (some [delimiter]))
        sosParseLoop rootCommand token
        return rootCommand

/-! ## Blocks -/

variable {s s' t : System} {u u' : UserSystem} {process p : ℕ} {size : ℕ} {sizes : List ℕ}
  {b c d x : ℕ} {byte byte' : ℕ → UInt8}

/-- The address lies in the block. -/
def InBlock (c x : ℕ) : Prop := blockAddress c ≤ x ∧ x < blockAddress c + heapBlockSize

lemma InBlock.unique (h : InBlock c x) (h' : InBlock d x) : c = d := by
  simp only [InBlock, blockAddress, heapBlockSize] at h h'
  omega

lemma blockAddress_apart (h : c ≠ d) :
    blockAddress c + heapBlockSize ≤ blockAddress d ∨
      blockAddress d + heapBlockSize ≤ blockAddress c := by
  simp only [blockAddress, heapBlockSize]
  omega

lemma blockAddress_lt (hc : c < kernelBlocks) : blockAddress c < 2 ^ 32 := by
  have := blockAddress_add_le hc
  omega

lemma InBlock.ge (h : InBlock c x) : heapAddress ≤ x := (Nat.le_add_right _ _).trans h.1

/-- An address in another block is not one of the first bytes of this block. -/
lemma InBlock.outside (h : InBlock d x) (hne : d ≠ c) {n : ℕ} (hn : n ≤ heapBlockSize) :
    x < blockAddress c ∨ blockAddress c + n ≤ x := by
  by_contra hin
  exact hne (h.unique ⟨by omega, by omega⟩)

/-- A heap in which blocks with a successor are followed by blocks that are not free, and the
root directories do not lie in free blocks. -/
structure HeapSound (s : System) : Prop where
  next : NextTaken s.kernel.memory.heap
  roots : RootsTaken s.kernel

/-- Calls of `process_malloc` with these sizes return blocks. -/
def Allocates (process : ℕ) : List ℕ → System → System → Prop
  | [], s, s' => s' = s
  | size :: sizes, s, s' => ∃ p t, processMallocCall process size s = some (p, t) ∧ p ≠ 0 ∧
    Allocates process sizes t s'

/-- A call of `process_malloc` that returns a block has taken it from the heap and entered it in
the structure of the process. -/
lemma ends_processMallocCall : Ends (processMallocCall process size) s fun p t => p ≠ 0 →
    ∃ (m : KMemory) (g : Process → ℕ → Allocation),
      allocate size s.kernel.memory = some (p, m) ∧
      t = (s.withMemory m).setProcess process fun q => { q with allocations := g q } := by
  intro p t hrun hne
  obtain ⟨m, -, halloc, heq⟩ := processMallocCall_eq process size s
  rw [heq] at hrun
  cases hrun
  exact ⟨m, fun _ => _, halloc hne, rfl⟩

lemma heapAlignValueToUpper_pos (hpos : 0 < size) (hsize : size ≤ heapBlockSize) :
    0 < requestBlocks size := by
  rw [requestBlocks, heapAlignValueToUpper]
  split_ifs with halign
  · simp only [heapBlockSize] at *
    omega
  · simp only [heapBlockSize] at *
    omega

/-- Taken blocks stay taken, and the block that a call returns was free. -/
lemma TakenBlock.malloc {b₀ : ℕ} (h : TakenBlock b₀ s.kernel.memory) (hpos : 0 < size)
    (hsize : size ≤ heapBlockSize) (hrun : processMallocCall process size s = some (p, t))
    (hp : p ≠ 0) : (∀ b, TakenBlock b s.kernel.memory → TakenBlock b t.kernel.memory) ∧
      ∃ c, p = blockAddress c ∧ TakenBlock c t.kernel.memory ∧
        ∀ b, TakenBlock b s.kernel.memory → b ≠ c := by
  obtain ⟨m, g, halloc, rfl⟩ := ends_processMallocCall p t hrun hp
  obtain ⟨c, hpc, hfree, hc⟩ :=
    h.allocate_new (heapAlignValueToUpper_pos hpos hsize) p m halloc hp
  refine ⟨fun b hb => (hb.allocate p m halloc).1, c, hpc, hc, ?_⟩
  rintro b hb rfl
  exact hb.not_free hfree

/-- What is not free behind a new allocation was not free before. -/
lemma RootsTaken.allocate {k : Kernel} {m : KMemory} (h : RootsTaken k)
    (hsaddr : k.memory.heap.saddr = heapAddress) (htotal : k.memory.heap.table.total = kernelBlocks)
    (hrun : SerpaeOS.allocate size k.memory = some (p, m)) :
    RootsTaken { k with memory := m } := by
  intro i mt hi j hj hentry
  refine h i mt hi j hj ?_
  by_contra htaken
  have hj' := takenBlock_of hsaddr htotal hj htaken
  exact TakenBlock.not_free (hj'.allocate p m hrun).1 hentry

/-- In a sound heap the block that a call returns is kept from then on. -/
lemma HeapSound.malloc (h : HeapSound s) (hpos : 0 < size) (hsize : size ≤ heapBlockSize)
    (hrun : processMallocCall process size s = some (p, t)) (hp : p ≠ 0) :
    HeapSound t ∧ t.callingProcess = s.callingProcess ∧
      (∀ b, ClearBlock b s.kernel → ClearBlock b t.kernel) ∧
      (∀ b, TakenBlock b s.kernel.memory → TakenBlock b t.kernel.memory) ∧
      ∃ c, p = blockAddress c ∧ ClearBlock c t.kernel ∧
        ∀ b, TakenBlock b s.kernel.memory → b ≠ c := by
  obtain ⟨m, g, halloc, rfl⟩ := ends_processMallocCall p t hrun hp
  obtain ⟨c, hpc, hfree, hc⟩ :=
    h.next.allocate (heapAlignValueToUpper_pos hpos hsize) halloc hp
  refine ⟨⟨h.next.keeps p m halloc, h.roots.allocate h.next.saddr_eq h.next.total_eq halloc⟩, rfl,
    fun b hb => ?_, fun b hb => (hb.allocate p m halloc).1, c, hpc,
    ⟨hc, fun i mt hi => h.roots i mt hi c hc.inside hfree⟩, ?_⟩
  · exact ⟨(Guard.allocate _ size _ hb.holds p m halloc).1, hb.mounts⟩
  · rintro b hb rfl
    exact hb.not_free hfree

/-! ## Linked lists of arguments -/

/-- Following `next` from the address visits structures in these blocks, with these strings, and
ends with `NULL`. -/
def Arguments (byte : ℕ → UInt8) : ℕ → List ℕ → List (List UInt8) → Prop
  | p, [], [] => p = 0
  | p, c :: cs, arg :: args => p = blockAddress c ∧ HasString byte p arg ∧
    arg.length < argumentSize ∧ Arguments byte (nextArgument byte p) cs args
  | _, _, _ => False

lemma nextArgument_congr (h : ∀ x, InBlock c x → byte' x = byte x) :
    nextArgument byte' (blockAddress c) = nextArgument byte (blockAddress c) := by
  refine u32le_congr fun i hi => h _ ⟨?_, ?_⟩
  · omega
  · simp only [argumentSize, heapBlockSize]
    omega

lemma hasString_congr_block {l : List UInt8} (h : HasString byte (blockAddress c) l)
    (hlen : l.length < heapBlockSize) (heq : ∀ x, InBlock c x → byte' x = byte x) :
    HasString byte' (blockAddress c) l :=
  h.congr fun x hx hx' => heq x ⟨hx, by omega⟩

/-- A list only depends on its own blocks. -/
lemma Arguments.congr : ∀ {p : ℕ} {cs : List ℕ} {args : List (List UInt8)},
    Arguments byte p cs args → (∀ c ∈ cs, ∀ x, InBlock c x → byte' x = byte x) →
    Arguments byte' p cs args
  | _, [], [], h, _ => h
  | _, c :: cs, arg :: args, ⟨hp, harg, hlen, hrest⟩, heq => by
    subst hp
    obtain ⟨hc, hcs⟩ := List.forall_mem_cons.mp heq
    refine ⟨rfl, hasString_congr_block harg (hlen.trans (by decide)) hc, hlen, ?_⟩
    rw [nextArgument_congr hc]
    exact hrest.congr hcs
  | _, [], _ :: _, h, _ => h.elim
  | _, _ :: _, [], h, _ => h.elim

/-- The first string of a list. -/
lemma Arguments.cstring_eq {cs : List ℕ} {args : List (List UInt8)}
    (h : Arguments byte p cs args) (hne : args ≠ []) :
    p ≠ 0 ∧ HasString byte p (args.headD []) ∧
      cstring byte p argumentSize = args.headD [] := by
  rcases args with _ | ⟨arg, args⟩
  · exact absurd rfl hne
  rcases cs with _ | ⟨c, cs⟩
  · exact h.elim
  obtain ⟨rfl, harg, hlen, -⟩ := h
  exact ⟨blockAddress_ne_zero c, harg, harg.cstring_eq hlen⟩

/-- The list behind its first entry. -/
lemma Arguments.next {cs : List ℕ} {args : List (List UInt8)}
    (h : Arguments byte p cs args) (hne : args ≠ []) :
    Arguments byte (nextArgument byte p) cs.tail args.tail := by
  rcases args with _ | ⟨arg, args⟩
  · exact absurd rfl hne
  rcases cs with _ | ⟨c, cs⟩
  · exact h.elim
  exact h.2.2.2

lemma nextArgument_setNext {q next : ℕ} (hnext : next < 2 ^ 32) :
    nextArgument (store byte (q + argumentSize) (numberBytes 4 next)) q = next :=
  u32le_store hnext

lemma setNext_of_outside {q next : ℕ} (hx : x < q + argumentSize ∨ q + commandArgumentSize ≤ x) :
    store byte (q + argumentSize) (numberBytes 4 next) x = byte x := by
  refine store_of_lt ?_
  simp only [length_numberBytes, argumentSize, commandArgumentSize] at *
  omega

/-! ## The next token -/

variable {lo hi token current : ℕ} {text : List UInt8} {ts : List (List UInt8)} {α : Type}

/-- `strtok` has returned the address of the first of these tokens, if there is one, and the
others are still to come. -/
def TokenRead (lo hi : ℕ) (t : Strings) (token : ℕ) : List (List UInt8) → Prop
  | [] => token = 0
  | text :: ts => HasString t.byte token text ∧ (lo ≤ token ∧ token + text.length ≤ hi) ∧
    Pending [delimiter] lo hi t ts

lemma strtok_reads {t : Strings} (h : Pending [delimiter] lo hi t ts) (hlo : 0 < lo) :
    ∃ token t', strtok 0 (some [delimiter]) t = some (token, t') ∧ TokenRead lo hi t' token ts ∧
      ∀ x, x < lo ∨ hi < x → t'.byte x = t.byte x := by
  cases ts with
  | nil => exact ⟨0, _, h.strtok_nil (by decide) hlo, rfl, fun _ _ => rfl⟩
  | cons text ts =>
    obtain ⟨q, t', hrun, htext, hbound, hrest, hframe⟩ := h.strtok_cons (by decide) hlo
    exact ⟨q, t', hrun, ⟨htext, hbound, hrest⟩, hframe⟩

/-! ## The loop over the tokens -/

lemma runs_getUser_bind {k : UserSystem → UserProg α} {Q : α → UserSystem → Prop}
    (h : Runs (k u) u Q) : Runs (getUser >>= k) u Q := h

lemma runs_updateByte_bind {f : (ℕ → UInt8) → ℕ → UInt8} {k : Unit → UserProg α}
    {Q : α → UserSystem → Prop}
    (h : Runs (k ()) { u with strings := { u.strings with byte := f u.strings.byte } } Q) :
    Runs (updateByte f >>= k) u Q := h

lemma runs_onStrings_bind {q : StringsProg ℕ} {k : ℕ → UserProg α} {Q : α → UserSystem → Prop}
    {r : ℕ} {t : Strings} (hq : q u.strings = some (r, t))
    (h : Runs (k r) { u with strings := t } Q) : Runs (onStrings q >>= k) u Q := by
  refine Runs.bind (P := fun a u' => a = r ∧ u' = { u with strings := t }) ?_ ?_
  · exact ⟨r, _, by rw [onStrings, hq, Option.map_some], rfl, rfl⟩
  · rintro _ _ ⟨rfl, rfl⟩
    exact h

lemma runs_onSystem_bind {β : Type} {q : SystemProg β} {k : β → UserProg α}
    {Q : α → UserSystem → Prop} {r : β} {t : System} (hq : q u.system = some (r, t))
    (h : Runs (k r) { u with system := t } Q) : Runs (onSystem q >>= k) u Q := by
  refine Runs.bind (P := fun a u' => a = r ∧ u' = { u with system := t }) ?_ ?_
  · exact ⟨r, _, by rw [onSystem, hq, Option.map_some], rfl, rfl⟩
  · rintro _ _ ⟨rfl, rfl⟩
    exact h

lemma runs_sosMalloc_bind {k : ℕ → UserProg α} {Q : α → UserSystem → Prop}
    (hq : processMallocCall u.system.callingProcess size u.system = some (p, t))
    (h : Runs (k p) { u with system := t } Q) : Runs (sosMalloc size >>= k) u Q := by
  refine Runs.bind (P := fun a u' => a = p ∧ u' = { u with system := t }) ?_ ?_
  · refine ⟨p, { u with system := t }, ?_, rfl, rfl⟩
    change onSystem (processMallocCall u.system.callingProcess size) u = _
    rw [onSystem, hq, Option.map_some]
  · rintro _ _ ⟨rfl, rfl⟩
    exact h

/-- The memory with a new structure: the token is copied, and `next` is `NULL`. -/
def newArgument (byte : ℕ → UInt8) (p token : ℕ) : ℕ → UInt8 :=
  store (strncpy p token argumentSize byte) (p + argumentSize) (numberBytes 4 0)

lemma newArgument_of_outside (hx : x < p ∨ p + commandArgumentSize ≤ x) :
    newArgument byte p token x = byte x := by
  rw [newArgument, setNext_of_outside, strncpy_of_outside (by decide)]
  · simp only [commandArgumentSize, argumentSize] at *
    omega
  · simp only [commandArgumentSize, argumentSize] at *
    omega

lemma newArgument_hasString (htext : HasString byte token text) (hapart : token + text.length < p) :
    HasString (newArgument byte p token) p (text.take (argumentSize - 1)) := by
  have hpos : 0 < argumentSize := by decide
  have hlen := List.length_take_le (argumentSize - 1) text
  refine (strncpy_hasString hpos htext (Or.inl hapart)).congr fun x hx hx' => ?_
  exact setNext_of_outside (Or.inl (by omega))

lemma nextArgument_newArgument (p token : ℕ) : nextArgument (newArgument byte p token) p = 0 :=
  nextArgument_setNext (by decide)

/-- A new structure for the token is in block `d`, and the one in block `c` is linked to it. -/
structure ArgumentLinked (byte byte' : ℕ → UInt8) (c d token : ℕ) : Prop where
  first : ∀ x, InBlock d x → byte' x = newArgument byte (blockAddress d) token x
  link : nextArgument byte' (blockAddress c) = blockAddress d
  outside : ∀ x, x < blockAddress d ∨ blockAddress d + commandArgumentSize ≤ x →
    x < blockAddress c + argumentSize ∨ blockAddress c + commandArgumentSize ≤ x →
    byte' x = byte x

lemma argumentLinked (hcd : c ≠ d) (hd : d < kernelBlocks) (token : ℕ) :
    ArgumentLinked byte (store (newArgument byte (blockAddress d) token)
      (blockAddress c + argumentSize) (numberBytes 4 (blockAddress d))) c d token := by
  have hsize : commandArgumentSize ≤ heapBlockSize := by decide
  refine ⟨fun x hx => ?_, nextArgument_setNext (blockAddress_lt hd), fun x hx hx' => ?_⟩
  · exact setNext_of_outside ((hx.outside hcd.symm hsize).imp_left fun h => h.trans_le (by omega))
  · rw [setNext_of_outside hx']
    exact newArgument_of_outside hx

/-- The nodes that the loop appends to the list hold the tokens, and of the blocks that were
taken before only the link of the current node changes. -/
lemma runs_sosParseLoop (hlo : 0 < lo) (hhi : hi < heapAddress) :
    ∀ {ts : List (List UInt8)} {u : UserSystem} {s' : System} {c token : ℕ},
      Allocates u.system.callingProcess (List.replicate ts.length commandArgumentSize)
        u.system s' → HeapSound u.system → ClearBlock c u.system.kernel →
      nextArgument u.strings.byte (blockAddress c) = 0 → TokenRead lo hi u.strings token ts →
      Runs (sosParseLoop (blockAddress c) token) u fun _ u' => u'.system = s' ∧
        u'.arguments = u.arguments ∧
        (∃ cs, Arguments u'.strings.byte (nextArgument u'.strings.byte (blockAddress c)) cs
          (ts.map (List.take (argumentSize - 1))) ∧ (∀ d ∈ cs, ClearBlock d s'.kernel) ∧
            ∀ b, TakenBlock b u.system.kernel.memory → b ∉ cs) ∧
        (∀ d, ClearBlock d u.system.kernel → ClearBlock d s'.kernel) ∧
        ∀ d, ClearBlock d u.system.kernel → ∀ x, InBlock d x →
          (d = c → x < blockAddress c + argumentSize) →
            u'.strings.byte x = u.strings.byte x := by
  intro ts
  induction ts with
  | nil =>
    intro u s' c token hmalloc _ _ hnext htoken
    have hend : token = 0 := htoken
    have hsystem : s' = u.system := hmalloc
    subst hend hsystem
    rw [sosParseLoop_step, if_pos rfl]
    exact runs_pure ⟨rfl, rfl, ⟨[], hnext, fun d hd => (nomatch hd), fun _ _ => List.not_mem_nil⟩,
      fun _ hd => hd,
      fun _ _ _ _ _ => rfl⟩
  | cons text ts ih =>
    intro u s' c token hmalloc hsound hcurrent hnext htoken
    obtain ⟨p, t, hcall, hp, hrest⟩ := hmalloc
    obtain ⟨hsound', hcaller, hkeep, htaken, d, rfl, hd, hnew⟩ :=
      hsound.malloc (by decide) (by decide) hcall hp
    obtain ⟨htext, hbound, hpending⟩ := htoken
    have hne : token ≠ 0 := by omega
    rw [sosParseLoop_step, if_neg hne]
    refine runs_sosMalloc_bind hcall ?_
    rw [if_neg hp]
    have hcd : c ≠ d := hnew c hcurrent.holds.toTaken
    have hlow : ∀ x e, x ≤ hi → x < blockAddress e := fun x e hx =>
      (hx.trans_lt hhi).trans_le (Nat.le_add_right _ _)
    have hlinked : ArgumentLinked u.strings.byte _ c d token :=
      argumentLinked hcd (TakenBlock.lt hd.holds.toTaken) token
    -- the new structure, and the link to it
    refine runs_updateByte_bind (runs_updateByte_bind (runs_updateByte_bind ?_))
    rw [newArgument] at hlinked
    generalize store (store (strncpy _ _ _ _) _ _) _ _ = byte at hlinked ⊢
    obtain ⟨token', strings, hstrtok, hread, hframe⟩ := strtok_reads
      (hpending.congr fun x _ hx => hlinked.outside x (Or.inl (hlow x d hx))
        (Or.inl ((hlow x c hx).trans_le (by omega)))) hlo
    have hhigh : ∀ e x, InBlock e x → strings.byte x = byte x := fun e x hx =>
      hframe x (Or.inr (hhi.trans_le hx.ge))
    refine runs_onStrings_bind hstrtok ?_
    -- the loop goes on with the new structure
    refine Runs.mono (ih (hcaller ▸ hrest) hsound' hd ?_ hread) ?_
    · refine (nextArgument_congr fun x hx => (hhigh d x hx).trans (hlinked.first x hx)).trans ?_
      exact nextArgument_newArgument _ _
    rintro _ u' ⟨hsystem, harguments, ⟨cs, hcs, hclear, hfresh⟩, hkept, hsame⟩
    have hblock : ∀ e, ClearBlock e u.system.kernel → ∀ x, InBlock e x →
        u'.strings.byte x = byte x := fun e he x hx =>
      (hsame e (hkeep e he) x hx fun hed => absurd hed (hnew e he.holds.toTaken)).trans
        (hhigh e x hx)
    have hnext' : nextArgument u'.strings.byte (blockAddress c) = blockAddress d := by
      rw [nextArgument_congr (hblock c hcurrent), hlinked.link]
    have hlen : (text.take (argumentSize - 1)).length < argumentSize :=
      (List.length_take_le _ _).trans_lt (by decide)
    have hstring : HasString u'.strings.byte (blockAddress d) (text.take (argumentSize - 1)) := by
      refine (newArgument_hasString htext (hlow _ d hbound.2)).congr fun x hx hx' => ?_
      have hin : InBlock d x := ⟨hx, by simp only [argumentSize, heapBlockSize] at *; omega⟩
      rw [hsame d hd x hin fun _ => by omega, hhigh d x hin, hlinked.first x hin]
    refine ⟨hsystem, harguments, ⟨d :: cs, ?_, List.forall_mem_cons.mpr ⟨hkept d hd, hclear⟩,
      fun b hb hmem => (List.mem_cons.mp hmem).elim (hnew b hb) (hfresh b (htaken b hb))⟩,
      fun e he => hkept e (hkeep e he), fun e he x hx hxc => ?_⟩
    · rw [hnext']
      exact ⟨rfl, hstring, hlen, hcs⟩
    · rw [hblock e he x hx]
      have hsize : commandArgumentSize ≤ heapBlockSize := by decide
      refine hlinked.outside x (hx.outside (hnew e he.holds.toTaken) hsize) ?_
      by_cases hec : e = c
      · exact Or.inl (hxc hec)
      · exact (hx.outside hec hsize).imp_left fun h => h.trans_le (by omega)

/-! ## The whole call -/

/-- If `sos_malloc` returns a block for every token, the list that is returned holds the tokens
of the command, each cut to what there is room for. -/
lemma runs_sosParseCommand {scommand command : ℕ} {line : List UInt8} {max : ℤ}
    (hscommand : 0 < scommand ∧ scommand + scommandSize ≤ heapAddress) (hmax : max < scommandSize)
    (hnull : (strlen u.strings.byte 0).isSome) (hline : HasString u.strings.byte command line)
    (hlen : line.length < scommandSize)
    (hapart : command + line.length < scommand ∨ scommand + scommandSize ≤ command)
    (htokens : tokens (fun c => decide (c ∈ [delimiter])) line = text :: ts)
    (hsound : HeapSound u.system) (hmalloc : Allocates u.system.callingProcess
      (List.replicate (ts.length + 1) commandArgumentSize) u.system s') :
    Runs (sosParseCommand scommand command max) u fun root u' => u'.system = s' ∧
      u'.arguments = u.arguments ∧ root ≠ 0 ∧
      ∃ cs, Arguments u'.strings.byte root cs ((text :: ts).map (List.take (argumentSize - 1))) ∧
        (∀ d ∈ cs, ClearBlock d s'.kernel) ∧
        ∀ b, TakenBlock b u.system.kernel.memory → b ∉ cs := by
  obtain ⟨p, t, hcall, hp, hrest⟩ := hmalloc
  obtain ⟨hsound', hcaller, -, htaken, d, rfl, hd, hnew⟩ :=
    hsound.malloc (by decide) (by decide) hcall hp
  have hpos : 0 < scommandSize := by decide
  have hlow : ∀ x, x < scommand + scommandSize → x < blockAddress d := fun x hx =>
    (hx.trans_le hscommand.2).trans_le (Nat.le_add_right _ _)
  rw [sosParseCommand]
  refine runs_onStrings_bind (strtok_reset hnull) ?_
  rw [if_neg (not_le.mpr hmax)]
  -- the copy of the command
  refine runs_updateByte_bind ?_
  have hcopy : HasString (strncpy scommand command scommandSize u.strings.byte) scommand line := by
    have hcut := strncpy_hasString hpos hline hapart
    rwa [List.take_of_length_le (by omega)] at hcut
  have hstart : Pending [delimiter] scommand (scommand + scommandSize - 1)
      ⟨strncpy scommand command scommandSize u.strings.byte, scommand⟩ (text :: ts) :=
    ⟨line, hcopy, htokens, le_rfl, by simp only; omega⟩
  obtain ⟨token, strings, hstrtok, ⟨htext, hbound, hpending⟩, -⟩ := strtok_reads hstart hscommand.1
  refine runs_onStrings_bind ((strtok_start (by omega) rfl).trans hstrtok) ?_
  rw [if_neg (by omega)]
  refine runs_sosMalloc_bind hcall ?_
  rw [if_neg hp]
  -- the first structure
  refine runs_updateByte_bind (runs_updateByte_bind ?_)
  obtain ⟨token', strings', hstrtok', hread, hframe⟩ := strtok_reads
    (hpending.congr fun x _ hx => newArgument_of_outside (Or.inl (hlow x (by omega)))) hscommand.1
  refine runs_onStrings_bind hstrtok' ?_
  have hhigh : ∀ x, InBlock d x →
      strings'.byte x = newArgument strings.byte (blockAddress d) token x :=
    fun x hx => hframe x (Or.inr (by have := hx.ge; omega))
  refine (runs_sosParseLoop hscommand.1 (by omega) (hcaller ▸ hrest) hsound' hd ?_ hread).bind ?_
  · rw [nextArgument_congr hhigh]
    exact nextArgument_newArgument _ _
  rintro _ u' ⟨hsystem, harguments, ⟨cs, hcs, hclear, hfresh⟩, hkept, hsame⟩
  have hlen : (text.take (argumentSize - 1)).length < argumentSize :=
    (List.length_take_le _ _).trans_lt (by decide)
  have hstring : HasString u'.strings.byte (blockAddress d) (text.take (argumentSize - 1)) := by
    refine (newArgument_hasString htext (hlow _ (by omega))).congr fun x hx hx' => ?_
    have hin : InBlock d x := ⟨hx, by simp only [argumentSize, heapBlockSize] at *; omega⟩
    rw [hsame d hd x hin fun _ => by omega, hhigh x hin]
  exact runs_pure ⟨hsystem, harguments, hp, d :: cs, ⟨rfl, hstring, hlen, hcs⟩,
    List.forall_mem_cons.mpr ⟨hkept d hd, hclear⟩,
    fun b hb hmem => (List.mem_cons.mp hmem).elim (hnew b hb) (hfresh b (htaken b hb))⟩

end SerpaeOS
