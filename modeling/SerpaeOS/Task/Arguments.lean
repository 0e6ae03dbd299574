import SerpaeOS.Stdlib.Serpaeos
import SerpaeOS.Task.LoadRuns
import SerpaeOS.Fs.Str

/-!
# The arguments of a command

`system` parses a command and calls `isr80h_command7_invoke_system_command` with the list, which
loads the program and copies the list into blocks of the new process.  The strings are those in
the memory here; `Commands` has the same functions without them.
-/

namespace SerpaeOS

open Bytes Prog Stdlib Tokens

namespace ArgumentCommand

/-- The loop of `process_count_command_arguments`. -/
def countArgumentsLoop (byte : ℕ → UInt8) (current i : ℕ) : Option ℕ :=
  Loop.run ⟨fun (current, i) => some <|
    if current = 0 then .inr i else .inl (nextArgument byte current, i + 1)⟩ (current, i)

lemma countArgumentsLoop_step (byte : ℕ → UInt8) (current i : ℕ) :
    countArgumentsLoop byte current i =
      if current = 0 then some i
      else countArgumentsLoop byte (nextArgument byte current) (i + 1) := by
  by_cases h : current = 0
  · rw [if_pos h]
    exact Loop.run_leave (congrArg some (if_pos h))
  · rw [if_neg h]
    exact Loop.run_next (congrArg some (if_neg h))

/-- `process_count_command_arguments`. -/
def processCountCommandArguments (byte : ℕ → UInt8) (root : ℕ) : Option ℕ :=
  countArgumentsLoop byte root 0

/-- The loop of `process_inject_arguments`. -/
def processInjectArgumentsLoop (process argv i current : ℕ) : UserProg ℤ :=
  loop (fun (i, current) => do
    if current = 0 then return .inr 0
    else do
      let argumentStr ← onSystem (processMallocCall process argumentSize)
      if argumentStr = 0 then return .inr (-enomem)
      else do
        updateByte (strncpy argumentStr current argumentSize)
        updateByte fun byte => store byte (argv + pointerSize * i) (numberBytes 4 argumentStr)
        let u ← getUser
        return .inl (i + 1, nextArgument u.strings.byte current)) (i, current)

lemma processInjectArgumentsLoop_step (process argv i current : ℕ) :
    processInjectArgumentsLoop process argv i current =
      if current = 0 then pure 0
      else (do
        let argumentStr ← onSystem (processMallocCall process argumentSize)
        if argumentStr = 0 then return -enomem
        else do
          updateByte (strncpy argumentStr current argumentSize)
          updateByte fun byte => store byte (argv + pointerSize * i) (numberBytes 4 argumentStr)
          let u ← getUser
          processInjectArgumentsLoop process argv (i + 1)
            (nextArgument u.strings.byte current)) := by
  rw [processInjectArgumentsLoop, loop_eq]
  dsimp only
  by_cases hend : current = 0
  · rw [if_pos hend, if_pos hend]
    rfl
  · rw [if_neg hend, if_neg hend, bind_assoc]
    refine congrArg _ (funext fun argumentStr => ?_)
    by_cases hnull : argumentStr = 0
    · rw [if_pos hnull, if_pos hnull]
      rfl
    · rw [if_neg hnull, if_neg hnull]
      simp only [bind_assoc, pure_bind]
      rfl

/-- The end of `process_inject_arguments`. -/
def setArguments (process : ℕ) (arguments : ProcessArguments) : UserProg Unit := fun u =>
  some ((), { u with arguments := Function.update u.arguments process arguments })

/-- `process_inject_arguments`. -/
def processInjectArguments (process root : ℕ) : UserProg ℤ := do
  let u ← getUser
  match processCountCommandArguments u.strings.byte root with
  | none => stuck
  | some argc =>
    if argc = 0 then return -eio
    else do
      let argv ← onSystem (processMallocCall process (pointerSize * argc))
      if argv = 0 then return -enomem
      else do
        let res ← processInjectArgumentsLoop process argv 0 root
        if res < 0 then return res
        else do
          setArguments process ⟨argc, argv⟩
          return res

/-- `isr80h_command7_invoke_system_command`; of the name of the program at most as many
characters are used as a path has. -/
def isr80hCommand7InvokeSystemCommand (arguments now : ℕ) : UserProg (Except ℤ Ptr) := do
  let u ← getUser
  let argument := cstring u.strings.byte arguments argumentSize
  if arguments = 0 ∨ argument = [] then return .error (-einvarg)
  else do
    let hosted := decide (istrncmp hostWord argument argumentSize = 0)
    let root := if hosted then nextArgument u.strings.byte arguments else arguments
    let programName := cstring u.strings.byte root argumentSize
    let loaded ← onSwitching (loadCandidates hosted programName now)
    match loaded with
    | none => return .error (-einvarg)
    | some process => do
      let res ← processInjectArguments process root
      if res < 0 then return .error (-einvarg) else onSystem (resumeProcess process)

/-- `system`, with the array of `sos_parse_command` at the address `scommand`. -/
def system (scommand command now : ℕ) : UserProg (Except ℤ Ptr) := do
  let args ← sosParseCommand scommand command 512
  if args = 0 then return .error (-2) else isr80hCommand7InvokeSystemCommand args now

/-- `process_get_arguments`, which `main` gets its arguments from. -/
def processGetArguments (u : UserSystem) (process : ℕ) : ℕ × ℕ :=
  ((u.arguments process).argc, (u.arguments process).argv)

end ArgumentCommand

/-! ## The arguments of a line -/

/-- The maximal parts of the line without spaces. -/
def words (line : List UInt8) : List (List UInt8) := tokens (fun c => decide (c = delimiter)) line

/-- The first word is `he`, in upper or lower case. -/
def LineAsksHost (line : List UInt8) : Prop := fold ((words line).headD []) = hostWord

instance (line : List UInt8) : Decidable (LineAsksHost line) := inferInstanceAs (Decidable (_ = _))

/-- The words of the line, without `he` in front. -/
def lineArguments (line : List UInt8) : List (List UInt8) :=
  if LineAsksHost line then (words line).tail else words line

/-- The process gets these strings: `argc` is their number, and the entries of `argv` are the
addresses of the strings. -/
def Receives (u : UserSystem) (process : ℕ) (args : List (List UInt8)) : Prop :=
  (ArgumentCommand.processGetArguments u process).1 = args.length ∧
    ∀ i (hi : i < args.length), HasString u.strings.byte (u32le u.strings.byte
      ((ArgumentCommand.processGetArguments u process).2 + pointerSize * i)) args[i]

namespace ArgumentCommand

variable {s s' t : System} {u : UserSystem} {process root i c d : ℕ} {byte : ℕ → UInt8}
  {args : List (List UInt8)} {cs : List ℕ}

/-! ## The copy of the list -/

lemma countArgumentsLoop_eq : ∀ {args : List (List UInt8)} {cs : List ℕ} {p i : ℕ},
    Arguments byte p cs args → countArgumentsLoop byte p i = some (i + args.length)
  | [], [], p, i, h => by
    have hend : p = 0 := h
    rw [countArgumentsLoop_step, if_pos hend]
    rfl
  | arg :: args, c :: cs, p, i, ⟨hp, _, _, hrest⟩ => by
    rw [countArgumentsLoop_step, if_neg (hp ▸ blockAddress_ne_zero c), countArgumentsLoop_eq hrest,
      List.length_cons]
    congr 1
    omega
  | [], _ :: _, _, _, h => h.elim
  | _ :: _, [], _, _, h => h.elim

/-- One string of a list is copied from block `c` to block `e`, and its address is entry `i` of
`argv` in block `d`. -/
structure ArgumentCopied (byte byte' : ℕ → UInt8) (c d e i : ℕ) (arg : List UInt8) : Prop where
  string : HasString byte' (blockAddress e) arg
  entry : u32le byte' (blockAddress d + pointerSize * i) = blockAddress e
  other : ∀ f x, InBlock f x → f ≠ d → f ≠ e → byte' x = byte x
  before : ∀ x, blockAddress d ≤ x → x < blockAddress d + pointerSize * i → byte' x = byte x

lemma argumentCopied {e i : ℕ} {arg : List UInt8} (he : e < kernelBlocks) (hce : c ≠ e)
    (hde : d ≠ e) (harg : HasString byte (blockAddress c) arg) (hlen : arg.length < argumentSize)
    (hroom : pointerSize * (i + 1) ≤ heapBlockSize) :
    ArgumentCopied byte (store (strncpy (blockAddress e) (blockAddress c) argumentSize byte)
      (blockAddress d + pointerSize * i) (numberBytes 4 (blockAddress e))) c d e i arg := by
  have hpos : 0 < argumentSize := by decide
  have hsize : argumentSize ≤ heapBlockSize := by decide
  obtain ⟨byte', hbyte⟩ : ∃ byte', byte' = store (strncpy (blockAddress e) (blockAddress c)
    argumentSize byte) (blockAddress d + pointerSize * i) (numberBytes 4 (blockAddress e)) :=
    ⟨_, rfl⟩
  -- only the entry is written after the copy of the string
  have hold : ∀ x, x < blockAddress d + pointerSize * i ∨
      blockAddress d + pointerSize * (i + 1) ≤ x →
      byte' x = strncpy (blockAddress e) (blockAddress c) argumentSize byte x := by
    intro x hx
    rw [hbyte]
    refine store_of_lt ?_
    rw [length_numberBytes]
    simp only [pointerSize] at *
    omega
  have hother : ∀ f x, InBlock f x → f ≠ d →
      byte' x = strncpy (blockAddress e) (blockAddress c) argumentSize byte x := by
    intro f x hx hfd
    refine hold x ((hx.outside hfd le_rfl).imp (fun h => h.trans_le (Nat.le_add_right _ _)) ?_)
    simp only [pointerSize] at *
    omega
  rw [← hbyte]
  refine ⟨?_, ?_, fun f x hx hfd hfe => ?_, fun x hx hx' => ?_⟩
  · have happart : blockAddress c + arg.length < blockAddress e ∨
        blockAddress e + argumentSize ≤ blockAddress c := by
      have := blockAddress_apart hce
      omega
    have hcut := strncpy_hasString hpos harg happart
    rw [List.take_of_length_le (by omega)] at hcut
    exact hasString_congr_block hcut (by omega) fun x hx => hother e x hx hde.symm
  · rw [hbyte]
    exact u32le_store (blockAddress_lt he)
  · rw [hother f x hx hfd]
    exact strncpy_of_outside hpos (hx.outside hfe hsize)
  · have hin : InBlock d x := ⟨hx, by simp only [pointerSize] at *; omega⟩
    exact (hold x (Or.inl hx')).trans (strncpy_of_outside hpos (hin.outside hde hsize))

/-- The strings are copied into new blocks, and their addresses are entered in `argv`, as long as
that lies in one block. -/
lemma runs_processInjectArgumentsLoop :
    ∀ {args : List (List UInt8)} {cs : List ℕ} {u : UserSystem} {current i : ℕ},
      Allocates process (List.replicate args.length argumentSize) u.system s' →
      Arguments u.strings.byte current cs args → (∀ c ∈ cs, TakenBlock c u.system.kernel.memory) →
      TakenBlock d u.system.kernel.memory → d ∉ cs →
      pointerSize * (i + args.length) ≤ heapBlockSize →
      Runs (processInjectArgumentsLoop process (blockAddress d) i current) u fun r u' => r = 0 ∧
        u'.system = s' ∧ u'.arguments = u.arguments ∧
        (∀ j (hj : j < args.length), HasString u'.strings.byte (u32le u'.strings.byte
          (blockAddress d + pointerSize * (i + j))) args[j]) ∧
        (∀ e, TakenBlock e u.system.kernel.memory → e ≠ d → ∀ x, InBlock e x →
          u'.strings.byte x = u.strings.byte x) ∧
        ∀ x, blockAddress d ≤ x → x < blockAddress d + pointerSize * i →
          u'.strings.byte x = u.strings.byte x := by
  intro args
  induction args with
  | nil =>
    intro cs u current i hmalloc hlist _ _ _ _
    have hsystem : s' = u.system := hmalloc
    have hend : current = 0 := by
      rcases cs with _ | ⟨c, cs⟩
      · exact hlist
      · exact hlist.elim
    subst hend hsystem
    rw [processInjectArgumentsLoop_step, if_pos rfl]
    exact runs_pure ⟨rfl, rfl, rfl, fun j hj => absurd hj (Nat.not_lt_zero j), fun _ _ _ _ _ => rfl,
      fun _ _ _ => rfl⟩
  | cons arg args ih =>
    intro cs u current i hmalloc hlist htaken hd hdcs hroom
    rcases cs with _ | ⟨c, cs⟩
    · exact hlist.elim
    obtain ⟨rfl, harg, hlen, hrest⟩ := hlist
    obtain ⟨p, t, hcall, hp, hmore⟩ := hmalloc
    obtain ⟨hkeep, e, rfl, he, hnew⟩ := hd.malloc (by decide) (by decide) hcall hp
    obtain ⟨hc, htaken'⟩ := List.forall_mem_cons.mp htaken
    have hce : c ≠ e := hnew c hc
    have hde : d ≠ e := hnew d hd
    have hdc : d ≠ c := fun h => hdcs (h ▸ List.mem_cons_self)
    have hsize : argumentSize ≤ heapBlockSize := by decide
    rw [List.length_cons] at hroom
    have hcopied := argumentCopied (TakenBlock.lt he) hce hde harg hlen
      (show pointerSize * (i + 1) ≤ heapBlockSize by simp only [pointerSize] at *; omega)
    rw [processInjectArgumentsLoop_step, if_neg (blockAddress_ne_zero c)]
    refine runs_onSystem_bind hcall ?_
    rw [if_neg hp]
    -- the copy of the string, and its address
    refine runs_updateByte_bind (runs_updateByte_bind (runs_getUser_bind ?_))
    generalize store (strncpy _ _ _ _) _ _ = byte at hcopied ⊢
    have hnext : nextArgument byte (blockAddress c) =
        nextArgument u.strings.byte (blockAddress c) :=
      nextArgument_congr fun x hx => hcopied.other c x hx hdc.symm hce
    rw [hnext]
    -- the rest of the list
    have hrest' : Arguments byte (nextArgument u.strings.byte (blockAddress c)) cs args :=
      hrest.congr fun f hf x hx => hcopied.other f x hx
        (fun h => hdcs (h ▸ List.mem_cons_of_mem _ hf)) (hnew f (htaken' f hf))
    refine Runs.mono (ih hmore hrest' (fun f hf => hkeep f (htaken' f hf)) (hkeep d hd)
      (fun h => hdcs (List.mem_cons_of_mem _ h)) ?_) ?_
    · simp only [pointerSize] at *
      omega
    rintro r u' ⟨hr, hsystem, harguments, hstrings, hframe, hargv⟩
    refine ⟨hr, hsystem, harguments, fun j hj => ?_, fun f hf hfd x hx => ?_, fun x hx hx' => ?_⟩
    · rcases j with _ | j
      · have hfirst : u32le u'.strings.byte (blockAddress d + pointerSize * (i + 0)) =
            blockAddress e := by
          rw [← hcopied.entry]
          refine u32le_congr fun k hk => hargv _ ?_ ?_
          · omega
          · simp only [pointerSize]
            omega
        rw [hfirst]
        exact hasString_congr_block hcopied.string (hlen.trans_le hsize) fun x hx =>
          hframe e he hde.symm x hx
      · rw [List.length_cons] at hj
        rw [show i + (j + 1) = i + 1 + j by omega]
        exact hstrings j (by omega)
    · exact (hframe f (hkeep f hf) hfd x hx).trans (hcopied.other f x hx hfd (hnew f hf))
    · exact (hargv x hx (by simp only [pointerSize] at *; omega)).trans (hcopied.before x hx hx')

lemma receives_of {argv : ℕ} (harguments : u.arguments process = ⟨args.length, argv⟩)
    (hstrings : ∀ i (hi : i < args.length),
      HasString u.strings.byte (u32le u.strings.byte (argv + pointerSize * i)) args[i]) :
    Receives u process args := by
  rw [Receives, processGetArguments, harguments]
  exact ⟨rfl, hstrings⟩

/-- If all blocks are returned the process gets the strings of the list. -/
lemma runs_processInjectArguments (hlist : Arguments u.strings.byte root cs args)
    (hne : args ≠ []) (htaken : ∀ c ∈ cs, TakenBlock c u.system.kernel.memory)
    (hroom : pointerSize * args.length ≤ heapBlockSize)
    (hmalloc : Allocates process (pointerSize * args.length ::
      List.replicate args.length argumentSize) u.system s') :
    Runs (processInjectArguments process root) u fun r u' => r = 0 ∧ u'.system = s' ∧
      Receives u' process args := by
  obtain ⟨c, cs, rfl⟩ : ∃ c cs', cs = c :: cs' := by
    refine List.exists_cons_of_ne_nil ?_
    rintro rfl
    obtain ⟨arg, args, rfl⟩ := List.exists_cons_of_ne_nil hne
    exact hlist.elim
  have hpos : 0 < args.length := List.length_pos_iff.mpr hne
  obtain ⟨p, t, hcall, hp, hrest⟩ := hmalloc
  obtain ⟨hkeep, d, rfl, hd, hnew⟩ := (htaken c List.mem_cons_self).malloc
    (Nat.mul_pos (by decide) hpos) hroom hcall hp
  have hcount : processCountCommandArguments u.strings.byte root = some args.length := by
    rw [processCountCommandArguments, countArgumentsLoop_eq hlist, Nat.zero_add]
  rw [processInjectArguments]
  refine runs_getUser_bind ?_
  simp only [hcount, if_neg hpos.ne']
  refine runs_onSystem_bind hcall ?_
  rw [if_neg hp]
  refine (runs_processInjectArgumentsLoop (u := { u with system := t }) hrest hlist
    (fun e he => hkeep e (htaken e he)) hd (fun hmem => hnew d (htaken d hmem) rfl)
    (by rwa [Nat.zero_add])).bind ?_
  rintro r u' ⟨rfl, hsystem, -, hstrings, -⟩
  rw [if_neg (lt_irrefl 0)]
  refine ⟨0, _, rfl, rfl, hsystem, receives_of (Function.update_self _ _ _) fun i hi => ?_⟩
  have hstring := hstrings i hi
  rwa [Nat.zero_add] at hstring

/-! ## What the load stores -/

lemma runs_onSwitching_bind {α β : Type} {q : SystemProg β} {k : β → UserProg α}
    {Q : α → UserSystem → Prop} {r : β} (hq : q u.system = some (r, t))
    (hbyte : byte = storeAll u.strings.byte (t.screenStores.drop u.system.screenStores.length))
    (h : Runs (k r) { u with system := t, strings := { u.strings with byte := byte } } Q) :
    Runs (onSwitching q >>= k) u Q := by
  have hswitch : Runs (onSwitching q) u fun a u' => a = r ∧
      u' = { u with system := t, strings := { u.strings with byte := byte } } := by
    refine ⟨r, { u with system := t, strings := { u.strings with byte := byte } }, ?_, rfl, rfl⟩
    rw [onSwitching, hq, Option.map_some, hbyte]
  refine hswitch.bind ?_
  rintro _ _ ⟨rfl, rfl⟩
  exact h

/-- Stores off an area leave its bytes. -/
lemma storeAll_off {a n x : ℕ} (hx : a ≤ x ∧ x < a + n) :
    ∀ {stores : List (ℕ × List UInt8)} {byte : ℕ → UInt8},
      (∀ e ∈ stores, ¬ Overlap e.1 e.2.length a n) → storeAll byte stores x = byte x
  | [], _, _ => rfl
  | e :: stores, byte, h => by
    obtain ⟨he, hstores⟩ := List.forall_mem_cons.mp h
    have hout : x < e.1 ∨ e.1 + e.2.length ≤ x := by
      simp only [Overlap] at he
      omega
    exact (storeAll_off hx hstores).trans (store_of_lt hout)

variable {P T : Ptr → Prop} {l : List (List UInt8)} {p q n size : ℕ}

/-- Another allocation keeps what is kept, and the loads stay safe. -/
lemma loadsSafe_malloc (h : LoadsSafe P T l s)
    (hrun : processMallocCall process size s = some (p, t)) (hp : p ≠ 0) :
    LoadsSafe P T l t ∧ t.currentProcess = s.currentProcess ∧
      t.callingProcess = s.callingProcess ∧
      ∀ q, (t.process q).screen = (s.process q).screen := by
  obtain ⟨m, g, halloc, rfl⟩ := ends_processMallocCall p t hrun hp
  have hmemory : LoadsSafe P T l (s.withMemory m) := by
    refine ⟨h.toSystemKept.congr (fun G hG => ?_) fun _ _ => rfl,
      h.toScreensApart.congr fun _ _ => rfl, fun f hf => ?_⟩
    · exact ⟨(G.allocate size _ hG.holds p m halloc).1, hG.mounts⟩
    · have hsafe := h.safe f hf
      exact ⟨hsafe.plain.allocate size p m halloc,
        hsafe.roots.allocate hsafe.plain.saddr_eq hsafe.plain.total_eq halloc, hsafe.nested⟩
  exact ⟨hmemory.setProcess fun _ => rfl, rfl, rfl, fun q => System.setProcess_screen fun _ => rfl⟩

lemma loadsSafe_allocates : ∀ {sizes : List ℕ} {s : System}, LoadsSafe P T l s →
    Allocates process sizes s s' → LoadsSafe P T l s' ∧ s'.currentProcess = s.currentProcess ∧
      s'.callingProcess = s.callingProcess ∧ ∀ q, (s'.process q).screen = (s.process q).screen
  | [], _, h, hsame => by
    cases hsame
    exact ⟨h, rfl, rfl, fun _ => rfl⟩
  | _ :: _, _, h, ⟨_, _, hrun, hp, hrest⟩ => by
    obtain ⟨hsafe, hcurrent, hcaller, hscreen⟩ := loadsSafe_malloc h hrun hp
    obtain ⟨hsafe', hcurrent', hcaller', hscreen'⟩ := loadsSafe_allocates hsafe hrest
    exact ⟨hsafe', hcurrent'.trans hcurrent, hcaller'.trans hcaller, fun q =>
      (hscreen' q).trans (hscreen q)⟩

/-- A block that was free does not lie over what was kept. -/
lemma keptWhole_off_block (h : s.KeptWhole q n) (hc : c < kernelBlocks)
    (hfree : ¬ TakenBlock c s.kernel.memory) :
    ¬ Overlap q n (blockAddress c) heapBlockSize := by
  obtain ⟨a, ⟨hstart, hend, hfits⟩, ha⟩ := h
  have hpinned : Pinned a s.kernel.memory := ha.holds
  have hcov : ¬ a.Covers c := fun hcov => hfree
    (takenBlock_of hpinned.saddr_eq hpinned.total_eq hc (hpinned.taken c hcov))
  have hin := hpinned.inside
  rintro ⟨hlt, hlt'⟩
  simp only [BlockTable.Extent.Covers, blockAddress, heapBlockSize] at *
  omega

/-- The load stores nothing over the list. -/
lemma loadCandidates_stores {hosted : Bool} {program : List UInt8} {now : ℕ}
    (h : LoadsSafe P T (commandLocations.map (commandPath program)) s)
    (hhost : hosted = true → P s.callingProcess) (hcurrent : P s.currentProcess)
    (hrun : loadCandidates hosted program now s = some (some process, t))
    (hclear : ClearBlock c s.kernel)
    (hoff : ∀ q, P q → OffScreen (s.process q).screen (blockAddress c) heapBlockSize) :
    ∀ x, InBlock c x →
      storeAll byte (t.screenStores.drop s.screenStores.length) x = byte x := by
  obtain ⟨screen, hshown⟩ :=
    h.ends_loadCandidates_repainted hhost hcurrent _ t hrun process rfl
  have hkept : s.KeptWhole (blockAddress c) heapBlockSize := by
    refine ⟨Block c, ⟨le_rfl, ?_, Or.inl ?_⟩, hclear⟩
    · simp only [Block, blockAddress, heapBlockSize]
      omega
    · simp only [Block, blockAddress, heapBlockSize]
      omega
  exact fun x hx => storeAll_off hx (hshown.off hcurrent hkept hoff)

/-! ## The command -/

variable {line : List UInt8} {now : ℕ}

lemma fold_take_iff (text : List UInt8) :
    fold (text.take (argumentSize - 1)) = hostWord ↔ fold text = hostWord := by
  have hword : hostWord.length = 2 := rfl
  have hshort : text.length ≤ 2 → text.take (argumentSize - 1) = text := fun hlen =>
    List.take_of_length_le (by simp only [argumentSize]; omega)
  constructor
  · intro h
    have hlen := congrArg List.length h
    rw [fold, List.length_map, List.length_take, hword] at hlen
    rwa [hshort (by simp only [argumentSize] at hlen; omega)] at h
  · intro h
    have hlen := congrArg List.length h
    rw [fold, List.length_map, hword] at hlen
    rwa [hshort hlen.le]

/-- The command compares the whole argument. -/
lemma istrncmp_hostWord_iff {argument : List UInt8} (h : HasString byte root argument) :
    istrncmp hostWord argument argumentSize = 0 ↔ fold argument = hostWord := by
  have hzero : 0 ∉ argument := fun hmem => h.ne_zero 0 hmem rfl
  rw [istrncmp_eq_zero_iff_of_lt (by decide) hzero (by decide)]
  exact eq_comm

/-- With a program that can be loaded and room for the arguments, the process gets the strings
of the list, without `he` in front. -/
lemma runs_isr80hCommand7 {left : List (List UInt8)} (hlist : Arguments u.strings.byte root cs args)
    (hclear : ∀ c ∈ cs, ClearBlock c u.system.kernel)
    (hstores : ∀ c ∈ cs, ∀ x, InBlock c x → storeAll u.strings.byte
      (t.screenStores.drop u.system.screenStores.length) x = u.strings.byte x)
    (hne : args.headD [] ≠ [])
    (hleft : left = if fold (args.headD []) = hostWord then args.tail else args)
    (hsome : left ≠ [])
    (hload : loadCandidates (decide (fold (args.headD []) = hostWord)) (left.headD []) now
      u.system = some (some process, t))
    (hroom : pointerSize * left.length ≤ heapBlockSize)
    (hmalloc : Allocates process (pointerSize * left.length ::
      List.replicate left.length argumentSize) t s') :
    Runs (isr80hCommand7InvokeSystemCommand root now) u fun r u' =>
      r = .ok (s'.process process).task ∧ Receives u' process left := by
  have hargs : args ≠ [] := by
    rintro rfl
    exact hne rfl
  obtain ⟨hroot, hstring, hfirst⟩ := hlist.cstring_eq hargs
  rw [isr80hCommand7InvokeSystemCommand]
  refine runs_getUser_bind ?_
  simp only [hfirst, istrncmp_hostWord_iff hstring, decide_eq_true_eq]
  rw [if_neg (not_or.mpr ⟨hroot, hne⟩)]
  -- the list that is passed on
  generalize hstart : (if fold (args.headD []) = hostWord then
    nextArgument u.strings.byte root else root) = start
  obtain ⟨cs', hlist', hsub⟩ : ∃ cs', Arguments u.strings.byte start cs' left ∧ cs' ⊆ cs := by
    rw [← hstart, hleft]
    split_ifs
    · exact ⟨cs.tail, hlist.next hargs, List.tail_subset cs⟩
    · exact ⟨cs, hlist, List.Subset.refl cs⟩
  obtain ⟨-, -, hprogram⟩ := hlist'.cstring_eq hsome
  rw [hprogram]
  obtain ⟨byte, hbyte⟩ : ∃ byte, byte =
    storeAll u.strings.byte (t.screenStores.drop u.system.screenStores.length) := ⟨_, rfl⟩
  refine runs_onSwitching_bind hload hbyte ?_
  have hkept : ∀ c ∈ cs', TakenBlock c t.kernel.memory := fun c hc =>
    Pinned.toTaken (ends_loadCandidates_holds (hclear c (hsub hc)) _ _ hload)
  have hlist'' : Arguments byte start cs' left := by
    rw [hbyte]
    exact hlist'.congr fun c hc => hstores c (hsub hc)
  refine (runs_processInjectArguments
    (u := { u with system := t, strings := { u.strings with byte := byte } }) hlist'' hsome hkept
    hroom hmalloc).bind ?_
  rintro _ u' ⟨rfl, rfl, hreceives⟩
  rw [if_neg (lt_irrefl 0)]
  exact ⟨_, _, rfl, rfl, hreceives⟩

end ArgumentCommand

open ArgumentCommand

variable {u : UserSystem} {line : List UInt8} {scommand command process now : ℕ} {s₁ s₂ s₃ : System}

lemma lineArguments_length_le (line : List UInt8) :
    2 * (lineArguments line).length ≤ line.length + 1 := by
  have hwords : 2 * (words line).length ≤ line.length + 1 := two_mul_length_tokens_le line
  rw [lineArguments]
  split_ifs
  · rw [List.length_tail]
    omega
  · exact hwords

/-- **The arguments of a command.**  For a line of at most 1024 characters with a word left behind
a leading `he`, if all allocations succeed and the program is loaded, the new process gets the
words of the line in order, without the leading `he`, each cut to 511 characters. -/
theorem system_arguments (hsound : HeapSound u.system)
    (hsafe : LoadsSafe
      (fun q => q = u.system.currentProcess ∨ LineAsksHost line ∧ q = u.system.callingProcess)
      (fun _ => False)
      (commandLocations.map (commandPath (((lineArguments line).headD []).take 511))) u.system)
    (hscommand : 0 < scommand ∧ scommand + scommandSize ≤ heapAddress)
    (hapart : command + line.length < scommand ∨ scommand + scommandSize ≤ command)
    (hnull : (strlen u.strings.byte 0).isSome) (hline : HasString u.strings.byte command line)
    (hlen : line.length ≤ 1024) (hne : lineArguments line ≠ [])
    (hparse : Allocates u.system.callingProcess
      (List.replicate (words line).length commandArgumentSize) u.system s₁)
    (hload : loadCandidates (LineAsksHost line) (((lineArguments line).headD []).take 511) now s₁ =
      some (some process, s₂))
    (hcopy : Allocates process (pointerSize * (lineArguments line).length ::
      List.replicate (lineArguments line).length argumentSize) s₂ s₃) :
    Runs (ArgumentCommand.system scommand command now) u fun r u' =>
      r = .ok (s₃.process process).task ∧
        Receives u' process ((lineArguments line).map (List.take 511)) := by
  have hwords : words line ≠ [] := by
    intro hnil
    rw [lineArguments, hnil] at hne
    split_ifs at hne
    · exact hne rfl
    · exact hne rfl
  obtain ⟨text, ts, htext⟩ := List.exists_cons_of_ne_nil hwords
  have htokens : tokens (fun c => decide (c ∈ [delimiter])) line = text :: ts := by
    rw [← htext]
    simp only [words, List.mem_singleton]
  have hfirst : text ≠ [] := ne_nil_of_mem_tokens (htokens ▸ List.mem_cons_self)
  have hhost : fold (((text :: ts).map (List.take 511)).headD []) = hostWord ↔
      LineAsksHost line := by
    rw [LineAsksHost, htext]
    exact fold_take_iff text
  have hcount := lineArguments_length_le line
  rw [htext, List.length_cons] at hparse
  rw [ArgumentCommand.system]
  have hfits : line.length < scommandSize := Nat.lt_succ_of_le hlen
  refine (runs_sosParseCommand hscommand (by decide) hnull hline hfits
    hapart htokens hsound hparse).bind ?_
  rintro root u' ⟨rfl, -, hroot, cs, hlist, hclear, hfresh⟩
  rw [if_neg hroot]
  obtain ⟨hsafe', hcurrent, hcaller, hscreen⟩ := loadsSafe_allocates hsafe hparse
  have hstores : ∀ c ∈ cs, ∀ x, InBlock c x → storeAll u'.strings.byte
      (s₂.screenStores.drop u'.system.screenStores.length) x = u'.strings.byte x := by
    intro c hc
    refine loadCandidates_stores hsafe' (fun hhost => Or.inr ⟨of_decide_eq_true hhost, hcaller⟩)
      (Or.inl hcurrent) hload (hclear c hc) fun q hq => ?_
    rw [hscreen q]
    exact keptWhole_off_block (hsafe.screen_kept q hq) (TakenBlock.lt (hclear c hc).holds.toTaken)
      fun htaken => hfresh c htaken hc
  rw [show argumentSize - 1 = 511 from rfl] at hlist
  have hleft : (lineArguments line).map (List.take 511) =
      if fold (((text :: ts).map (List.take 511)).headD []) = hostWord then
        ((text :: ts).map (List.take 511)).tail else (text :: ts).map (List.take 511) := by
    simp only [hhost]
    rw [lineArguments, htext]
    split_ifs
    · rfl
    · rfl
  have hprogram : ((lineArguments line).map (List.take 511)).headD [] =
      ((lineArguments line).headD []).take 511 := by
    cases hargs : lineArguments line with
    | nil => exact absurd hargs hne
    | cons argument rest => rfl
  refine runs_isr80hCommand7 (t := s₂) hlist hclear hstores ?_ hleft (by simpa using hne) ?_ ?_ ?_
  · simpa [argumentSize] using hfirst
  · rw [hprogram, decide_eq_decide.mpr hhost]
    exact hload
  · rw [List.length_map]
    simp only [pointerSize, heapBlockSize]
    omega
  · rw [List.length_map]
    exact hcopy

/-! ## A command of one word -/

/-- With room in the heap and in the table of the process, all blocks are returned. -/
lemma exists_allocates : ∀ {sizes : List ℕ} {s : System} {n used : ℕ},
    Holds s.kernel.memory [] n → (∀ size ∈ sizes, 0 < size) → (sizes.map blocksFor).sum ≤ n →
    used + sizes.length ≤ maxProgramAllocations →
    (∀ i, used ≤ i → ((s.process process).allocations i).ptr = 0) →
    ∃ s', Allocates process sizes s s' := by
  intro sizes
  induction sizes with
  | nil => exact fun _ _ _ _ _ => ⟨_, rfl⟩
  | cons size sizes ih =>
    intro s n used hheld hpos hroom hused hfree
    obtain ⟨hsize, hsizes⟩ := List.forall_mem_cons.mp hpos
    rw [List.map_cons, List.sum_cons] at hroom
    rw [List.length_cons] at hused
    have hblock : Runs (onMemory (allocate size)) s.kernel fun p k =>
        (∃ c, p = blockAddress c ∧ c + blocksFor size ≤ kernelBlocks) ∧
          Holds k.memory [] (n - blocksFor size) := by
      refine (runs_onMemory (hheld.allocate size hsize (by omega))).mono fun p k hp => ?_
      obtain ⟨m, ⟨hp, hm⟩, rfl⟩ := hp
      exact ⟨⟨_, hp, hm.inside List.mem_cons_self⟩, hm.tail⟩
    obtain ⟨p, t, hcall, hp, hheld', -, hfree'⟩ :=
      runs_processMallocCall hblock hsize (by omega) hfree
    obtain ⟨s', hrest⟩ := ih hheld' hsizes (by omega) (by omega) hfree'
    exact ⟨s', p, t, hcall, hp, hrest⟩

/-- With a program that can be loaded there, all allocations and the load succeed. -/
lemma exists_command {P T : Ptr → Prop} {s : System} {slot : ℕ}
    (hready : ProgramReady s.kernel pathSysBinX sysVolume (sysDirectory.item 1) 8 4996)
    (hfree : ∀ i, ((s.process process).allocations i).ptr = 0)
    (hslot : processGetFreeSlot s = some slot)
    (hsafe : ∀ {p t}, processMallocCall process commandArgumentSize s = some (p, t) → p ≠ 0 →
      LoadsSafe P T (commandLocations.map (commandPath [0x78])) t ∧ P t.currentProcess) :
    ∃ p s₁ new s₂ s₃, (processMallocCall process commandArgumentSize s = some (p, s₁) ∧ p ≠ 0) ∧
      loadCandidates false [0x78] 0 s₁ = some (some new, s₂) ∧
      Allocates new [pointerSize, argumentSize] s₂ s₃ := by
  have hparse : Runs (processMallocCall process commandArgumentSize) s _ :=
    runs_processMallocCall (hready.allocate (by decide) (by decide)) (by decide)
      (by decide : 0 < maxProgramAllocations) fun i _ => hfree i
  obtain ⟨p, s₁, hcall, hp, hready₁, hprocesses, -⟩ := hparse
  obtain ⟨hsafe₁, hcurrent⟩ := hsafe hcall hp
  have hslot₁ : processGetFreeSlot s₁ = some slot := by
    rw [processGetFreeSlot, hprocesses]
    exact hslot
  have hloads : Runs (loadCandidates false [0x78] 0) s₁ _ :=
    runs_loadCandidates rfl hsafe₁ hcurrent hready₁ sysFile_bare (by decide) hslot₁
  obtain ⟨_, s₂, hload, new, rfl, hheld, hnew⟩ := hloads
  have hcopies : ∃ s₃, Allocates new [pointerSize, argumentSize] s₂ s₃ :=
    exists_allocates hheld (by decide) (by decide) (by decide : 0 + 2 ≤ maxProgramAllocations)
      fun i _ => hnew i
  obtain ⟨s₃, hcopy⟩ := hcopies
  exact ⟨p, s₁, new, s₂, s₃, ⟨hcall, hp⟩, hload, hcopy⟩

/-- The booted system with the string `x` at the address `1` of the boot process. -/
def wordUser : UserSystem where
  system := bootSystem sysVolume
  strings := ⟨fun a => if a = 1 then 0x78 else 0, 0⟩
  arguments _ := ⟨0, 0⟩

lemma wordUser_line : HasString wordUser.strings.byte 1 [0x78] := ⟨rfl, by decide, rfl⟩

lemma wordUser_null : (strlen wordUser.strings.byte 0).isSome := by
  rw [strlen, strlenLoop_step]
  rfl

/-- The programs that the command looks for are not files of the root directory. -/
lemma bootSystem_commandSafe : LoadsSafe
    (fun q => q = bootProcess ∨ LineAsksHost [0x78] ∧ q = bootProcess) (fun _ => False)
    (commandLocations.map (commandPath [0x78])) (bootSystem sysVolume) := by
  have hlong : ∀ f ∈ commandLocations.map (commandPath [0x78]), (namesOf f).length ≠ 1 := by decide
  refine bootSystem_loadsSafe ⟨rfl, rfl⟩ (fun q hq => hq.elim id And.right) ?_
  rintro f hf ⟨name, item, hname, -⟩
  exact hlong f hf (congrArg List.length hname)

/-- The program `x` gets its name. -/
theorem system_arguments_word : ∃ process s, Runs (ArgumentCommand.system 4096 1 0) wordUser
    fun r u' => r = .ok ((s : System).process process).task ∧ Receives u' process [[0x78]] := by
  obtain ⟨slot, hslot, -⟩ := bootSystem_freeSlot sysVolume
  obtain ⟨p, s₁, process, s₂, s₃, ⟨hcall, hp⟩, hload, hcopy⟩ :=
    @exists_command bootProcess _ _ _ _ (bootSystem_ready sysFile_x rfl) (fun _ => rfl) hslot
      fun hcall hp => by
      obtain ⟨hsafe, hcurrent, -, -⟩ := loadsSafe_malloc bootSystem_commandSafe hcall hp
      exact ⟨hsafe, Or.inl hcurrent⟩
  have hsound : HeapSound wordUser.system :=
    ⟨nextTaken_bootSystem _, rootsTaken_bootSystem rfl rfl⟩
  exact ⟨process, s₃, system_arguments hsound bootSystem_commandSafe (by decide) (by decide)
    wordUser_null wordUser_line (by decide) (by decide) ⟨p, s₁, hcall, hp, rfl⟩ hload hcopy⟩

/-! ## A screen that has been freed -/

namespace ArgumentCommand

variable {P : Ptr → Prop} {s t : System} {u : UserSystem} {process root i n screen : ℕ}
  {byte : ℕ → UInt8}

lemma countArgumentsLoop_ge {current : ℕ} (h : countArgumentsLoop byte current i = some n) :
    i ≤ n := by
  refine Loop.run_induction (P := fun x n => x.2 ≤ n) ?_ ?_ h
  · rintro ⟨current, i⟩ n hround
    simp only [Option.some.injEq] at hround
    split_ifs at hround
    cases hround
    exact le_rfl
  · rintro ⟨current, i⟩ ⟨current', i'⟩ n hround hle
    simp only [Option.some.injEq] at hround
    split_ifs at hround
    cases hround
    exact Nat.le_of_succ_le hle

/-- Two nodes or more are counted if the first one has a successor. -/
lemma processCountCommandArguments_ge (hroot : root ≠ 0) (hnext : nextArgument byte root ≠ 0)
    (h : processCountCommandArguments byte root = some n) : 2 ≤ n := by
  rw [processCountCommandArguments, countArgumentsLoop_step, if_neg hroot, countArgumentsLoop_step,
    if_neg hnext] at h
  exact countArgumentsLoop_ge h

lemma keeps_arguments_onSystem {α : Type} {g : ℕ → ProcessArguments} (q : SystemProg α) :
    Keeps (fun u => u.arguments = g) (onSystem q) := by
  intro r u u' hu hrun
  obtain ⟨_, -, hr⟩ := Option.map_eq_some_iff.mp hrun
  cases hr
  exact hu

lemma keeps_arguments_updateByte {g : ℕ → ProcessArguments} (f : (ℕ → UInt8) → ℕ → UInt8) :
    Keeps (fun u => u.arguments = g) (updateByte f) := by
  intro u r u' hu hrun
  cases hrun
  exact hu

/-- The copy of the list changes the arguments of no process. -/
lemma keeps_arguments_injectLoop {g : ℕ → ProcessArguments} {argv current : ℕ} :
    Keeps (fun u => u.arguments = g) (processInjectArgumentsLoop process argv i current) := by
  intro u r u' hu hrun
  refine Ends.loop (I := fun _ v => v.arguments = g) (Q := fun _ v => v.arguments = g) ?_ hu r u'
    hrun
  rintro ⟨i, current⟩ v hv
  refine Ends.ite (fun _ => ends_pure hv) fun _ => ?_
  have hmalloc : Ends (onSystem (processMallocCall process argumentSize)) v
      fun _ v' => v'.arguments = g := fun p v' hrun => keeps_arguments_onSystem _ v p v' hv hrun
  refine hmalloc.bind fun p v₁ hv₁ => Ends.ite (fun _ => ends_pure hv₁) fun _ => ?_
  have hstore : ∀ (f : (ℕ → UInt8) → ℕ → UInt8) {w : UserSystem}, w.arguments = g →
      Ends (updateByte f) w fun _ w' => w'.arguments = g := fun f w hw a w' hrun =>
    keeps_arguments_updateByte f w a w' hw hrun
  refine (hstore _ hv₁).bind fun _ v₂ hv₂ => (hstore _ hv₂).bind fun _ v₃ hv₃ => ?_
  refine Ends.bind (P := fun _ w => w = v₃) (fun _ w hw => ?_) fun _ _ hw => ?_
  · cases hw
    rfl
  · rw [hw]
    exact ends_pure hv₃

/-- If the first node has a successor, the process does not get a single argument. -/
lemma ends_processInjectArguments_argc (hroot : root ≠ 0)
    (hnext : nextArgument u.strings.byte root ≠ 0) (hargc : (u.arguments process).argc ≠ 1) :
    Ends (processInjectArguments process root) u fun _ u' =>
      (u'.arguments process).argc ≠ 1 := by
  intro r u' hrun
  obtain ⟨v, w, hv, hrun⟩ := bind_eq_some hrun
  cases hv
  cases hcount : processCountCommandArguments u.strings.byte root with
  | none =>
    rw [hcount] at hrun
    cases hrun
  | some argc =>
    rw [hcount] at hrun
    have hge := processCountCommandArguments_ge hroot hnext hcount
    have hends : Ends (if argc = 0 then return -eio
        else do
          let argv ← onSystem (processMallocCall process (pointerSize * argc))
          if argv = 0 then return -enomem
          else do
            let res ← processInjectArgumentsLoop process argv 0 root
            if res < 0 then return res
            else do
              setArguments process ⟨argc, argv⟩
              return res : UserProg ℤ) u fun _ u' => (u'.arguments process).argc ≠ 1 := by
      refine Ends.ite (fun _ => ends_pure hargc) fun _ => ?_
      have hmalloc : Ends (onSystem (processMallocCall process (pointerSize * argc))) u
          fun _ u' => u'.arguments = u.arguments := fun p v hrun =>
        keeps_arguments_onSystem _ u p v rfl hrun
      refine hmalloc.bind fun argv v hv => Ends.ite (fun _ => ends_pure (hv ▸ hargc)) fun _ => ?_
      have hloop : Ends (processInjectArgumentsLoop process argv 0 root) v
          fun _ u' => u'.arguments = u.arguments := fun p w hrun =>
        keeps_arguments_injectLoop v p w hv hrun
      refine hloop.bind fun res w hw => Ends.ite (fun _ => ends_pure (hw ▸ hargc)) fun _ => ?_
      intro r x hrun
      cases hrun
      simp only [Function.update_self]
      omega
    exact hends r u' hrun

/-- A command of the word `x` whose node has a successor behind the load. -/
lemma ends_isr80hCommand7_argc {now : ℕ} (hroot : root ≠ 0)
    (hargument : cstring u.strings.byte root argumentSize = [0x78])
    (hload : loadCandidates false [0x78] now u.system = some (some process, t))
    (hnext : nextArgument (storeAll u.strings.byte
      (t.screenStores.drop u.system.screenStores.length)) root ≠ 0)
    (hargc : (u.arguments process).argc ≠ 1) :
    Ends (isr80hCommand7InvokeSystemCommand root now) u fun _ u' =>
      (u'.arguments process).argc ≠ 1 := by
  intro r u' hrun
  obtain ⟨v, w, hv, hrun⟩ := bind_eq_some hrun
  cases hv
  have hword : ¬ istrncmp hostWord [0x78] argumentSize = 0 := by decide
  have herror : ¬ (root = 0 ∨ ([0x78] : List UInt8) = []) := by simp [hroot]
  simp only [hargument, if_neg herror, hword, decide_false, Bool.false_eq_true, if_false] at hrun
  obtain ⟨loaded, w, hswitch, hrun⟩ := bind_eq_some hrun
  rw [onSwitching, hload] at hswitch
  cases hswitch
  obtain ⟨res, x, hinject, hrun⟩ := bind_eq_some hrun
  have hx : (x.arguments process).argc ≠ 1 := by
    refine ends_processInjectArguments_argc hroot ?_ ?_ res x hinject
    · exact hnext
    · exact hargc
  split_ifs at hrun
  · cases hrun
    exact hx
  · rw [keeps_arguments_onSystem _ x r u' rfl hrun]
    exact hx

/-- Saving an empty screen over a node gives the node a successor. -/
lemma nextArgument_switchStores (hterm : s.terminal = emptyTerminal)
    (hscreen : screen = root ∨ OffScreen screen root screenSize) :
    nextArgument (storeAll byte (s.switchStores root screen)) root ≠ 0 := by
  have hcell : ∀ x, root + argumentSize ≤ x → x < root + argumentSize + 4 →
      storeAll byte (s.switchStores root screen) x =
        store byte (root + 12) s.terminal.video.screenBytes x := by
    intro x hle hlt
    rw [System.switchStores, storeAll, List.foldl_cons, ← storeAll]
    dsimp only
    refine storeAll_off (a := root + argumentSize) (n := 4) ⟨hle, hlt⟩ fun e he => ?_
    simp only [List.mem_cons, List.not_mem_nil, or_false] at he
    rcases he with rfl | rfl | rfl | rfl
    · simp only [Overlap, length_numberBytes, argumentSize]
      omega
    · simp only [Overlap, length_numberBytes, argumentSize]
      omega
    · simp only [Overlap, List.length_cons, List.length_nil, argumentSize]
      omega
    · rcases hscreen with rfl | hoff
      · simp only [Overlap, List.length_cons, List.length_nil, argumentSize]
        omega
      · simp only [OffScreen, Overlap, List.length_cons, List.length_nil, argumentSize,
          screenSize] at *
        omega
  have hbyte : storeAll byte (s.switchStores root screen) (root + argumentSize) = 0x20 := by
    rw [hcell _ le_rfl (by omega), show root + argumentSize = root + 12 + 500 by
      simp only [argumentSize], hterm, store_add (by simp [CellMemory.screenBytes])]
    simp [CellMemory.screenBytes, emptyTerminal]
  intro hzero
  rw [nextArgument, u32le, u16le, hbyte] at hzero
  simp at hzero

end ArgumentCommand

/-- The booted system after the block of the screen has been freed, as at the end of a guest that
shared the screen. -/
def freedUser : UserSystem :=
  { wordUser with
    system :=
      { bootSystem sysVolume with
        kernel := { (bootSystem sysVolume).kernel with memory := bootProcessMemory } } }

/-- The node of the list takes the block of the screen. -/
lemma bootProcessMemory_allocate :
    allocate commandArgumentSize bootProcessMemory = some (blockAddress 5, bootedMemory) := by
  have hblocks : kzalloc bootProcessMemory.heap commandArgumentSize =
      kzalloc bootProcessMemory.heap screenSize := by
    have hrequest : requestBlocks commandArgumentSize = requestBlocks screenSize := by decide
    exact congrArg (heapMallocBlocks bootProcessMemory.heap) hrequest
  have hscreen : (kzalloc bootProcessMemory.heap screenSize).2 = blockAddress 5 := bootScreen_eq
  rw [allocate]
  simp only [hblocks, hscreen, bootedMemory, KMemory.afterKzalloc]

lemma freedUser_sound : HeapSound freedUser.system := by
  have hheap := bootProcessMemory_spec.2.1.kernelHeap
  have hfirst : (⟨0, 1⟩ : BlockTable.Extent) ∈ bootProcessExtents := by
    simp [bootProcessExtents, mountedExtents]
  have hsecond : (⟨1, 1⟩ : BlockTable.Extent) ∈ bootProcessExtents := by
    simp [bootProcessExtents, mountedExtents]
  refine ⟨hheap.nextTaken ⟨_, hfirst, by decide⟩, hheap.rootsTaken hfirst hsecond ?_⟩
  intro i mt hi
  rw [show mt = sysVolume from bootSystem_disks hi]
  exact ⟨rfl, rfl⟩

lemma freedUser_ready : ProgramReady freedUser.system.kernel pathSysBinX sysVolume
    (sysDirectory.item 1) 8 4996 := by
  obtain ⟨-, hmem, hroomy⟩ := bootProcessMemory_spec
  exact sysFile_x.programReady (R := [_]) hmem (hroomy.mono (by decide)) (by decide)
    (List.Perm.refl _) bootProcessMemory_stops rfl rfl

/-- Only the block of the screen is taken behind the allocation and was not before. -/
lemma takenBlock_bootedMemory {c : ℕ} (h : TakenBlock c bootedMemory)
    (hfree : ¬ TakenBlock c bootProcessMemory) : c = 5 := by
  have hheap := bootProcessMemory_spec.2.1.kernelHeap
  have hheap' := bootedMemory_spec.2.1.kernelHeap
  have hc : c < kernelBlocks := h.lt
  have htotal := hheap.total_eq
  have htotal' := hheap'.total_eq
  have hcov : BlockTable.Extent.Covered bootExtents c := by
    by_contra hcov
    exact h.not_free ((hheap'.records.entryFree_iff (by omega)).mpr hcov)
  have hcov' : ¬ BlockTable.Extent.Covered bootProcessExtents c := by
    intro hcov
    refine hfree (takenBlock_of hheap.saddr_eq htotal hc fun hentry => ?_)
    exact (hheap.records.entryFree_iff (by omega)).mp hentry hcov
  obtain ⟨a, ha, hac⟩ := hcov
  rcases List.mem_cons.mp ha with rfl | ha
  · rw [bootScreen_eq, extentAt_blockAddress] at hac
    obtain ⟨hle, hlt⟩ := hac
    have hone : blocksFor screenSize = 1 := by decide
    simp only [hone] at hle hlt
    omega
  · exact absurd ⟨a, ha, hac⟩ hcov'

/-- The block of the screen is free, and the video memory is saved over the list. -/
theorem not_system_arguments_freed : ∃ process s₁ s₂ s₃, HeapSound freedUser.system ∧
    Allocates bootProcess [commandArgumentSize] freedUser.system s₁ ∧
    loadCandidates (LineAsksHost [0x78]) [0x78] 0 s₁ = some (some process, s₂) ∧
    Allocates process [pointerSize, argumentSize] s₂ s₃ ∧
    ¬ Runs (ArgumentCommand.system 4096 1 0) freedUser fun _ u' =>
      Receives u' process [[0x78]] := by
  obtain ⟨slot, hslot, -⟩ := bootSystem_freeSlot sysVolume
  -- the node has taken the block, and the state is that of the booted system
  have hbooted : ∀ {p t}, processMallocCall bootProcess commandArgumentSize freedUser.system =
      some (p, t) → p ≠ 0 → ∃ g : Process → ℕ → Allocation,
        t = (bootSystem sysVolume).setProcess bootProcess fun q =>
          { q with allocations := g q } := by
    intro p t hcall hp
    obtain ⟨m, g, halloc, rfl⟩ := ends_processMallocCall p t hcall hp
    have hm : some (p, m) = some (blockAddress 5, bootedMemory) :=
      halloc.symm.trans bootProcessMemory_allocate
    cases hm
    exact ⟨g, rfl⟩
  have hsafe : ∀ {p t}, processMallocCall bootProcess commandArgumentSize freedUser.system =
      some (p, t) → p ≠ 0 → LoadsSafe
        (fun q => q = bootProcess ∨ LineAsksHost [0x78] ∧ q = bootProcess) (fun _ => False)
        (commandLocations.map (commandPath [0x78])) t ∧ t.currentProcess = bootProcess := by
    intro p t hcall hp
    obtain ⟨g, rfl⟩ := hbooted hcall hp
    exact ⟨bootSystem_commandSafe.setProcess fun _ => rfl, rfl⟩
  obtain ⟨p, s₁, process, s₂, s₃, ⟨hcall, hp⟩, hload, hcopy⟩ :=
    @exists_command bootProcess _ _ _ _ freedUser_ready (fun _ => rfl) hslot
      fun hcall hp => (hsafe hcall hp).imp_right Or.inl
  have hallocates : Allocates bootProcess [commandArgumentSize] freedUser.system s₁ :=
    ⟨p, s₁, hcall, hp, rfl⟩
  have hhost : decide (LineAsksHost [0x78]) = false := by decide
  refine ⟨process, s₁, s₂, s₃, freedUser_sound, hallocates, hhost ▸ hload, hcopy, ?_⟩
  rintro ⟨r, u', hrun, hargc, -⟩
  obtain ⟨g, hs₁⟩ := hbooted hcall hp
  have htokens : tokens (fun c => decide (c ∈ [delimiter])) [0x78] = [[0x78]] := by decide
  obtain ⟨root, u₁, hparse, rfl, harguments, hroot, cs, hlist, hclear, hfresh⟩ :=
    runs_sosParseCommand (u := freedUser)
      (show 0 < 4096 ∧ 4096 + scommandSize ≤ heapAddress by decide)
      (show (512 : ℤ) < scommandSize by decide) wordUser_null wordUser_line (by decide)
      (by decide) htokens freedUser_sound hallocates
  obtain ⟨_, _, hparse', hrun⟩ := bind_eq_some hrun
  cases hparse.symm.trans hparse'
  rw [if_neg hroot] at hrun
  -- the node is in the block of the screen
  have hblock : root = blockAddress 5 := by
    rcases cs with _ | ⟨c, cs⟩
    · exact hlist.elim
    obtain ⟨rfl, -⟩ := hlist
    have htaken : TakenBlock c u₁.system.kernel.memory :=
      (hclear c List.mem_cons_self).holds.toTaken
    rw [hs₁] at htaken
    exact congrArg blockAddress (takenBlock_bootedMemory htaken fun hfree =>
      hfresh c hfree List.mem_cons_self)
  obtain ⟨-, -, hargument⟩ := hlist.cstring_eq (List.cons_ne_nil _ _)
  obtain ⟨screen, hshown⟩ := (hsafe hcall hp).1.ends_loadCandidates_repainted
    (fun hhost => absurd hhost Bool.false_ne_true) (Or.inl (hsafe hcall hp).2) _ s₂ hload process
    rfl
  have hprocess : ∀ q, (u₁.system.process q).screen = root := by
    intro q
    rw [hs₁, hblock, ← bootScreen_eq]
    exact System.setProcess_screen fun _ => rfl
  have hterm : u₁.system.terminal = emptyTerminal := by
    rw [hs₁]
    rfl
  refine ArgumentCommand.ends_isr80hCommand7_argc hroot hargument hload ?_ ?_ r u' hrun hargc
  · rw [hshown.stores_eq, List.drop_left, hprocess]
    refine ArgumentCommand.nextArgument_switchStores hterm (hshown.shown.imp ?_ fun hoff => ?_)
    · rintro ⟨x, -, rfl⟩
      exact hprocess x
    · have hkept := (hsafe hcall hp).1.screen_kept bootProcess (Or.inl rfl)
      rw [hprocess] at hkept
      exact hoff _ _ hkept
  · rw [harguments]
    exact Nat.zero_ne_one

end SerpaeOS
