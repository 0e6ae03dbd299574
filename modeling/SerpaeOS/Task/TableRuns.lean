import SerpaeOS.Task.Hosting
import SerpaeOS.Task.LoadRuns

/-!
# The table of processes along a run

Loading, switching and terminating keep the table of processes consistent: the processes know
their slots, slot `0` is taken, and the current process is in the table.  `process_load` says
that all slots are taken with the code `-EISTKN`; a program whose first cluster has the number
`-EISTKN` makes it say so wrongly.
-/

namespace SerpaeOS

open Bytes Word Prog StepRun

/-- A call of `process_load` that has returned: its result and the system before the call. -/
structure LoadAnswer where
  res : ℤ
  before : System

/-- The system, and the answer of the last call if that was a load. -/
structure TableRun where
  system : System
  load : Option LoadAnswer

inductive TableOp
  | load (filename : List UInt8) (now : ℕ) (hosting : Ptr)
  | loadSwitch (filename : List UInt8) (now : ℕ) (hosting : Ptr)
  | flip (id : ℤ)
  | terminate (process : Ptr)

def tableStep (r : TableRun) : TableOp → Option TableRun
  | .load filename now hosting =>
    (processLoad filename now hosting r.system).map fun (res, s) => ⟨s, some ⟨res.1, r.system⟩⟩
  | .loadSwitch filename now hosting =>
    (processLoadSwitch filename now hosting r.system).map fun (res, s) =>
      ⟨s, some ⟨res.1, r.system⟩⟩
  | .flip id => (processFlip id r.system).map fun (_, s) => ⟨s, none⟩
  | .terminate process => (processTerminate process r.system).map fun (_, s) => ⟨s, none⟩

/-- `process_terminate` is called for a process of the table. -/
def TableLegal (r : TableRun) : TableOp → Prop
  | .terminate process => r.system.Live process
  | _ => True

/-- Moreover `process_load` has returned `-EISTKN` exactly if all slots were taken. -/
structure TableOk (r : TableRun) : Prop extends TableInv r.system where
  load_ok : ∀ a, r.load = some a → (a.res = -eistkn ↔ a.before.Full)

/-- The structures of the live processes do not lie over the screens. -/
def System.LiveApart (s : System) : Prop := ScreensApart s.Live (fun _ => False) s

/-- When a program is loaded into a free slot the structures of the live processes stay taken, and
the first cluster of the program is not the number `-EISTKN`.  When a call stores in the screens,
the structures of the live processes do not lie over these, and a host is one of these processes. -/
def TableSound (r : TableRun) : TableOp → Prop
  | .load filename _ _ => ¬ r.system.Full → SafeLoad filename r.system ∧
    (∀ q, r.system.Live q → r.system.KeptWhole q processSize) ∧
    ReadableProgram r.system.kernel filename
  | .loadSwitch filename _ hosting => ¬ r.system.Full →
    LoadsSafe r.system.Live (fun _ => False) [filename] r.system ∧
    (hosting = 0 ∨ r.system.Live hosting) ∧ ReadableProgram r.system.kernel filename
  | .flip id => 0 ≤ id → r.system.processes id.toNat ≠ 0 → r.system.LiveApart
  | .terminate process => r.system.currentProcess = process → r.system.LiveApart

/-! ## One call -/

variable {s s' t : System} {p : Ptr} {r : TableRun} {filename : List UInt8} {now : ℕ}
  {hosting : Ptr}

/-- A call of `process_load`. -/
lemma TableInv.load (h : TableInv s)
    (hkept : ¬ s.Full → ∀ q, s.Live q → s.KeptWhole q processSize)
    (hread : ¬ s.Full → ReadableProgram s.kernel filename) :
    Ends (processLoad filename now hosting) s fun r s' => TableInv s' ∧
      (r.1 = -eistkn ↔ s.Full) ∧
      (r.1 = 0 → ¬ s.Full ∧ ∀ q, s'.Live q ↔ q = r.2 ∨ s.Live q) := by
  refine ends_processLoad.mono fun r s' hr => ?_
  rcases hr with ⟨hfull, rfl, rfl⟩ | ⟨slot, hslot, hfree, hp, hres, hcode⟩
  · exact ⟨h, iff_of_true rfl hfull, fun hzero => absurd hzero (by decide)⟩
  have hnot : ¬ s.Full := fun hfull => hfull slot hslot hfree
  have hne := iff_of_false (hcode (hread hnot)) hnot
  have hfresh : ¬ s.Live (kzalloc s.kernel.memory.heap processSize).2 := fun hlive =>
    (hkept hnot _ hlive).kept.ne_kzalloc _ rfl
  rcases hres with ⟨hneg, hapart⟩ | ⟨rfl, hload⟩
  · exact ⟨h.apart hapart hfresh, hne, fun hzero => absurd hzero (by omega)⟩
  · exact ⟨h.loaded hslot hfree hp hload hfresh, hne,
      fun _ => ⟨hnot, fun q => hload.live_iff hfree hp⟩⟩

/-- The new process is shown, and the structures of the live ones lie off the screens. -/
lemma TableInv.loadSwitch (h : TableInv s)
    (hsound : ¬ s.Full → LoadsSafe s.Live (fun _ => False) [filename] s ∧
      (hosting = 0 ∨ s.Live hosting) ∧ ReadableProgram s.kernel filename) :
    Ends (processLoadSwitch filename now hosting) s fun r s' =>
      TableInv s' ∧ (r.1 = -eistkn ↔ s.Full) := by
  intro r s' hrun
  obtain ⟨r, t, hload, hswitch⟩ := bind_eq_some hrun
  obtain ⟨hinv, hcode, hdone⟩ := h.load (fun hnot => (hsound hnot).1.process_kept)
    (fun hnot => (hsound hnot).2.2) r t hload
  by_cases hzero : r.1 = 0
  · obtain ⟨hnot, hlive⟩ := hdone hzero
    obtain ⟨hsafe, hhost, -⟩ := hsound hnot
    obtain ⟨t', hload', hres⟩ :=
      hsafe.ends_processLoadSwitch List.mem_cons_self hhost h.current _ s' hrun
    rw [if_pos hzero] at hswitch
    obtain ⟨_, u, -, hswitch⟩ := bind_eq_some hswitch
    obtain ⟨_, v, -, hswitch⟩ := bind_eq_some hswitch
    cases hswitch
    cases hload.symm.trans hload'
    obtain ⟨-, hpaint, -⟩ := hres.resolve_left fun hneg => by omega
    refine ⟨(hinv.switch ((hlive _).mpr (Or.inl rfl))).painted hpaint fun q hq => ?_, hcode⟩
    exact Or.inl ⟨rfl, (hlive q).mp hq⟩
  · rw [if_neg hzero] at hswitch
    cases hswitch
    exact ⟨hinv, hcode⟩

lemma TableInv.flip (h : TableInv s) {id : ℤ}
    (hsound : 0 ≤ id → s.processes id.toNat ≠ 0 → s.LiveApart) :
    Ends (processFlip id) s fun _ s' => TableInv s' := by
  refine ends_processFlip.mono fun r s' hr => ?_
  rcases hr with ⟨-, rfl⟩ | ⟨hne, hid, t, ht, -, rfl⟩
  · exact h
  have hlive : s.Live (s.processes id.toNat) := ⟨hne, id.toNat, rfl⟩
  have hpaint := (hsound (by omega) hne).painted_switchTo h.current hlive
  rw [← ht] at hpaint
  obtain ⟨h1, h2, h3, h4⟩ := (h.switch hlive).painted hpaint fun q hq => Or.inl ⟨rfl, hq⟩
  exact ⟨h1, h2, h3, h4⟩

lemma TableInv.terminate (h : TableInv s) (hlive : s.Live p)
    (hsound : s.currentProcess = p → s.LiveApart) :
    Ends (processTerminate p) s fun _ s' => TableInv s' := by
  refine ends_processTerminate.mono fun res s' hs' => ?_
  rcases hs' with ⟨-, -, m, rfl⟩ | ⟨-, -, hid, t, hterm, hshown⟩
  · exact ⟨h.id_eq, h.slot_lt, h.boot, h.current⟩
  have hinv := h.terminated hlive hid hterm
  have hleft : ∀ q, t.Live q → s.Live q := fun q hq => ((hterm.live_iff h hlive).mp hq).2
  exact hinv.painted (hterm.painted hshown hsound hlive (hleft _ hinv.current)) fun q hq =>
    Or.inl ⟨rfl, hleft q hq⟩

/-- A call that meets the condition. -/
lemma TableInv.step {r' : TableRun} {op : TableOp} (h : TableInv r.system)
    (hl : TableLegal r op) (hc : TableSound r op) (hstep : tableStep r op = some r') :
    TableOk r' := by
  cases op with
  | load filename now hosting =>
    obtain ⟨⟨res, s⟩, hrun, rfl⟩ := Option.map_eq_some_iff.mp hstep
    obtain ⟨hinv, hres, -⟩ := h.load (fun hnot => (hc hnot).2.1) (fun hnot => (hc hnot).2.2) res s
      hrun
    refine ⟨hinv, fun a ha => ?_⟩
    cases ha
    exact hres
  | loadSwitch filename now hosting =>
    obtain ⟨⟨res, s⟩, hrun, rfl⟩ := Option.map_eq_some_iff.mp hstep
    obtain ⟨hinv, hres⟩ := h.loadSwitch hc res s hrun
    refine ⟨hinv, fun a ha => ?_⟩
    cases ha
    exact hres
  | flip id =>
    obtain ⟨⟨task, s⟩, hrun, rfl⟩ := Option.map_eq_some_iff.mp hstep
    refine ⟨h.flip hc task s hrun, fun a ha => ?_⟩
    cases ha
  | terminate process =>
    obtain ⟨⟨res, s⟩, hrun, rfl⟩ := Option.map_eq_some_iff.mp hstep
    refine ⟨h.terminate hl hc res s hrun, fun a ha => ?_⟩
    cases ha

/-- The table is consistent in every state of a run that starts with the boot process, if the
structures of the live processes stay taken and off the screens, and no program has the number
`-EISTKN` as its first cluster. -/
theorem process_table_consistent {s : System} (hboot : AfterBoot s) {ops : List TableOp}
    (hl : Guarded tableStep TableLegal ⟨s, none⟩ ops)
    (hc : Guarded tableStep TableSound ⟨s, none⟩ ops) :
    Throughout tableStep TableOk ⟨s, none⟩ ops :=
  throughout_of_guarded (I := TableOk) (fun _ h => h)
    (fun _ _ _ h hl hc hstep => h.toTableInv.step hl hc hstep)
    ⟨hboot.tableInv, fun a ha => by cases ha⟩ hl hc

/-! ## A small system -/

lemma bootSystem_live {mt : FatMount} (h : (bootSystem mt).Live p) : p = bootProcess := by
  obtain ⟨hp, i, rfl⟩ := h
  by_cases hi : i = 0
  · exact if_pos hi
  · exact absurd (if_neg hi) hp

/-- A switch to a slot without a process is refused, and so is the termination of the boot
process. -/
lemma bootSystem_step {mt : FatMount} {op : TableOp} {r : TableRun}
    (hop : op = .flip 1 ∨ op = .terminate bootProcess)
    (hstep : tableStep ⟨bootSystem mt, none⟩ op = some r) : r = ⟨bootSystem mt, none⟩ := by
  have hflip : Runs (processFlip 1) (bootSystem mt) fun _ s' => s' = bootSystem mt := by
    have hid : (1 : ℤ) < 0 ∨ (1 : ℤ) > maxProcesses ∨
        (bootSystem mt).processes (1 : ℤ).toNat = 0 := Or.inr (Or.inr rfl)
    refine runs_getSystem_bind ?_
    rw [if_pos hid]
    exact runs_pure rfl
  have hterminate : Runs (processTerminate bootProcess) (bootSystem mt) fun _ s' =>
      s' = bootSystem mt := by
    refine runs_getSystem_bind ?_
    have hid : ((bootSystem mt).process bootProcess).id = 0 := rfl
    rw [if_neg bootProcessMemory_spec.1.ne_zero, if_pos hid]
    exact runs_pure rfl
  rcases hop with rfl | rfl
  · rw [tableStep] at hstep
    obtain ⟨⟨task, s⟩, hrun, rfl⟩ := Option.map_eq_some_iff.mp hstep
    rw [hflip.of_eq hrun]
  · rw [tableStep] at hstep
    obtain ⟨⟨res, s⟩, hrun, rfl⟩ := Option.map_eq_some_iff.mp hstep
    rw [hterminate.of_eq hrun]

/-- A program in a subdirectory is loaded while the boot process is kept. -/
lemma bootSystem_loadSafe {item : FatDirectoryItem} (h : SysFile filename item) :
    LoadsSafe (bootSystem sysVolume).Live (fun _ => False) [filename] (bootSystem sysVolume) := by
  refine bootSystem_loadsSafe ⟨rfl, rfl⟩ (fun q hq => bootSystem_live hq) fun f hf => ?_
  rw [List.mem_singleton.mp hf]
  rintro ⟨name, _, hname, -⟩
  have hbelow := h.below
  rw [hname, List.length_singleton] at hbelow
  exact absurd hbelow (by decide)

lemma bootSystem_readable {item : FatDirectoryItem} (h : SysFile filename item)
    (hdrive : driveOf filename = 0) (hitem : item.firstClusterInt ≠ -eistkn) :
    ReadableProgram (bootSystem sysVolume).kernel filename := by
  intro mt hmt
  have hdisk : diskGet (bootSystem sysVolume).kernel (driveOf filename) =
      some (some sysVolume) := by
    rw [hdrive]
    rfl
  cases hdisk.symm.trans hmt
  refine ⟨Or.inl rfl, fun item' b hfile => ?_⟩
  obtain ⟨rfl, -⟩ := h.found.unique hfile
  exact hitem

/-- A run with a switch and a termination that are refused, and a program that is shown. -/
theorem process_table_consistent_boot : Throughout tableStep TableOk ⟨bootSystem sysVolume, none⟩
    [.flip 1, .terminate bootProcess, .loadSwitch pathSysBinX 0 0] := by
  have hlive : (bootSystem sysVolume).Live bootProcess :=
    ⟨bootProcessMemory_spec.1.ne_zero, 0, rfl⟩
  have hapart := (bootSystem_loadSafe sysFile_x).toScreensApart
  refine process_table_consistent (bootSystem_afterBoot _) ⟨trivial, fun r hr => ?_⟩
    ⟨fun _ _ => hapart, fun r hr => ?_⟩
  · rw [bootSystem_step (Or.inl rfl) hr]
    exact ⟨hlive, fun _ _ => ⟨trivial, fun _ _ => trivial⟩⟩
  · rw [bootSystem_step (Or.inl rfl) hr]
    refine ⟨fun _ => hapart, fun r hr => ?_⟩
    rw [bootSystem_step (Or.inr rfl) hr]
    refine ⟨fun _ => ⟨bootSystem_loadSafe sysFile_x, Or.inl rfl, ?_⟩, fun _ _ => trivial⟩
    exact bootSystem_readable sysFile_x rfl (by decide)

/-! ## A program that cannot be read -/

section strange

variable {k : Kernel} {fd : ℤ} {mt : FatMount} {item : FatDirectoryItem} {b n : ℕ}

/-- A negative number of the first cluster is the result of the first read. -/
lemma openProgram_fread_negative (h : OpenProgram k fd mt item n) (hneg : item.firstClusterInt < 0)
    (hsize : item.filesize ≠ 0) :
    Runs (fread fd item.filesize) k fun r k' => r = (item.firstClusterInt, []) ∧ k' = k := by
  obtain ⟨desc, hget, hdisk, hpos, hcluster⟩ := h.desc
  have hfd := h.holds.pos
  have hstart : desc.privateData.item.firstClusterInt < 0 := hcluster.trans_lt hneg
  have hread := mt.fatRead_negative hpos hstart item.filesize
  have hslot : k.fileDescriptors (fd - 1).toNat = some desc := by
    rw [fileGetDescriptor] at hget
    split_ifs at hget
    exact hget
  have hupdate := Function.update_eq_self (fd - 1).toNat k.fileDescriptors
  rw [hslot] at hupdate
  have hsame : k.setPrivate fd desc desc.privateData = k :=
    congrArg (fun table => { k with fileDescriptors := table }) hupdate
  refine ⟨_, _, ?_, rfl, hsame⟩
  rw [fread, if_neg (by omega), getKernel_bind, hget]
  simp only [hdisk, hread, hcluster]
  rfl

/-- The image of such a file is not loaded. -/
lemma runs_elfLoad_negative (h : ProgramReady s.kernel filename mt item b n)
    (hneg : item.firstClusterInt < 0) (hsize : item.filesize ≠ 0)
    (hroom : imageBlocks filename b item.filesize ≤ n) :
    Runs (elfLoad filename now) s fun r s' =>
      r = (item.firstClusterInt, 0) ∧ s'.process = s.process := by
  rw [imageBlocks] at hroom
  refine (runs_onKernel (h.allocate (by decide) (by omega))).bind fun elfFile t ht => ?_
  obtain ⟨k, ⟨⟨c, rfl, -⟩, hready⟩, rfl⟩ := ht
  refine (runs_onKernel (s := { s with kernel := k }) hready.fopen).bind fun fd t ht => ?_
  obtain ⟨k', hopen, rfl⟩ := ht
  rw [if_neg (not_le.mpr hopen.holds.pos)]
  have hfile : Runs (elfLoadFrom (blockAddress c) fd) { s with kernel := k' } fun r s' =>
      r = (item.firstClusterInt, 0) ∧ (∃ m, 1 ≤ m ∧ OpenProgram s'.kernel fd mt item m) ∧
        s'.process = s.process := by
    refine (runs_onKernel (s := { s with kernel := k' }) hopen.fstat).bind fun stat t ht => ?_
    obtain ⟨_, ⟨rfl, st, hst, hlen⟩, rfl⟩ := ht
    rw [hst]
    simp only [if_neg (blockAddress_ne_zero c), hlen]
    refine (runs_onKernel (hopen.allocate (by omega) (by omega))).bind fun elfMemory t ht => ?_
    obtain ⟨k, ⟨⟨d, rfl, -⟩, hopen'⟩, rfl⟩ := ht
    refine (runs_onKernel (s := { s with kernel := k })
      (openProgram_fread_negative hopen' hneg hsize)).bind fun read t ht => ?_
    obtain ⟨_, ⟨rfl, rfl⟩, rfl⟩ := ht
    rw [if_neg fun hnull => blockAddress_ne_zero d hnull.1]
    refine runs_updateSystem_bind ?_
    rw [if_pos hneg]
    refine runs_pure ⟨?_, ⟨_, ?_, hopen'⟩, ?_⟩
    · dsimp only
    · omega
    · rfl
  refine hfile.bind fun r t ht => ?_
  obtain ⟨rfl, ⟨m, hm, hopen'⟩, hprocess⟩ := ht
  obtain ⟨desc, hget, -⟩ := hopen'.desc
  refine (runs_onKernel (hopen'.holds.runs_fclose ⟨desc, hget⟩ hm)).bind fun _ t' ht' => ?_
  obtain ⟨k'', -, rfl⟩ := ht'
  exact runs_pure ⟨rfl, hprocess⟩

/-- The load fails with the number. -/
lemma runs_processLoad_negative {slot : ℕ} (h : ProgramReady s.kernel filename mt item b n)
    (hneg : item.firstClusterInt < 0) (hformat : item.firstClusterInt ≠ -einformat)
    (hsize : item.filesize ≠ 0)
    (hroom : blocksFor processSize + imageBlocks filename b item.filesize ≤ n)
    (hslot : processGetFreeSlot s = some slot) :
    Runs (processLoad filename now hosting) s fun r _ => r.1 = item.firstClusterInt := by
  have hfits : fopenBlocks filename b ≤ imageBlocks filename b item.filesize := by
    rw [imageBlocks]
    omega
  refine (runs_processLoad_fails (Q := fun _ => True) hneg hformat hslot ?_).mono
    fun _ _ hr => hr.1
  refine (runs_onKernel (h.allocate (by decide) (by omega))).mono fun p t ht => ?_
  obtain ⟨k, ⟨⟨c, rfl, -⟩, hready⟩, rfl⟩ := ht
  refine ⟨blockAddress_ne_zero c, (runs_elfLoad_negative
    (s := System.setProcess { s with kernel := k } (blockAddress c) fun _ => .zero) hready hneg
    hsize (by omega)).mono fun r s' hr => ⟨hr.1, ?_, trivial⟩⟩
  rw [hr.2, System.setProcess_process, Function.update_self]

end strange

/-- The path `0:/sys/bin/y`. -/
def pathSysBinY : List UInt8 := pathSysBin 0x79

lemma sysFile_y : SysFile pathSysBinY (sysDirectory.item 2) :=
  sysFile_of rfl (by decide) (by decide) (by decide) (by decide)

/-- A program whose first cluster has the number `0xFFFFFFF8` makes `process_load` say that all
slots are taken. -/
theorem not_process_table_consistent_strange : AfterBoot (bootSystem sysVolume) ∧
    LoadsSafe (bootSystem sysVolume).Live (fun _ => False) [pathSysBinY] (bootSystem sysVolume) ∧
    Guarded tableStep TableLegal ⟨bootSystem sysVolume, none⟩ [.load pathSysBinY 0 0] ∧
    ¬ Throughout tableStep TableOk ⟨bootSystem sysVolume, none⟩ [.load pathSysBinY 0 0] := by
  have hcluster : (sysDirectory.item 2).firstClusterInt = -eistkn := by decide
  have hsize : (sysDirectory.item 2).filesize = 1 := by decide
  refine ⟨bootSystem_afterBoot _, bootSystem_loadSafe sysFile_y, ⟨trivial, fun _ _ => trivial⟩,
    ?_⟩
  rintro ⟨-, hall⟩
  obtain ⟨slot, hslot, -⟩ := bootSystem_freeSlot sysVolume
  have hload : Runs (processLoad pathSysBinY 0 0) (bootSystem sysVolume) fun r _ =>
      r.1 = (sysDirectory.item 2).firstClusterInt := by
    refine runs_processLoad_negative (bootSystem_ready sysFile_y rfl) ?_ ?_ ?_ ?_ hslot
    · rw [hcluster]
      decide
    · rw [hcluster]
      decide
    · rw [hsize]
      decide
    · rw [hsize]
      decide
  obtain ⟨r, s', hload, hr⟩ := hload
  have hok : TableOk ⟨s', some ⟨r.1, bootSystem sysVolume⟩⟩ := by
    refine hall _ ?_
    rw [tableStep, hload, Option.map_some]
  exact (hok.load_ok _ rfl).mp (hr.trans hcluster) 1 (by decide) rfl

end SerpaeOS
