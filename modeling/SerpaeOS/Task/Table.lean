import SerpaeOS.Fs.FileHolds
import SerpaeOS.Task.Load

/-!
# The table of processes

The processes of the table know their slots, slot `0` is taken, and the current process is in the
table.  Loading and terminating keep this if the structures of the processes lie apart from what is
taken for a new process, and stores in the screens if they lie off these.
-/

namespace SerpaeOS

open BlockTable Bytes Word Prog TaskList

/-- The process is in the table. -/
def System.Live (s : System) (p : Ptr) : Prop := p ≠ 0 ∧ ∃ i, s.processes i = p

/-- The processes know their slots, only the first slots are used, slot `0` is, and the current
process is in the table. -/
structure TableInv (s : System) : Prop where
  id_eq : ∀ i, s.processes i ≠ 0 → (s.process (s.processes i)).id = i
  slot_lt : ∀ i, s.processes i ≠ 0 → i < maxProcesses
  boot : s.processes 0 ≠ 0
  current : s.Live s.currentProcess

/-- The system after the boot process has been loaded. -/
structure AfterBoot (s : System) : Prop where
  boot : s.processes 0 ≠ 0
  id_eq : (s.process (s.processes 0)).id = 0
  only : ∀ i, i ≠ 0 → s.processes i = 0
  current : s.currentProcess = s.processes 0

/-! ## One call -/

variable {s s' : System} {A : ℕ → ℕ → Prop} {p : Ptr} {filename : List UInt8} {now : ℕ}
  {hosting : Ptr}

lemma AfterBoot.tableInv (h : AfterBoot s) : TableInv s := by
  have hzero : ∀ i, s.processes i ≠ 0 → i = 0 := by
    intro i hi
    by_contra hne
    exact hi (h.only i hne)
  refine ⟨fun i hi => ?_, fun i hi => ?_, h.boot, ?_⟩
  · rw [hzero i hi]
    exact h.id_eq
  · rw [hzero i hi]
    decide
  · exact ⟨by rw [h.current]; exact h.boot, 0, h.current.symm⟩

/-- A process is in one slot. -/
lemma TableInv.slot_unique (h : TableInv s) {i j : ℕ} (hi : s.processes i ≠ 0)
    (hij : s.processes i = s.processes j) : i = j := by
  have hj : s.processes j ≠ 0 := hij ▸ hi
  rw [← h.id_eq i hi, ← h.id_eq j hj, hij]

/-- A failed load only touches the structure it has taken. -/
lemma TableInv.apart (h : TableInv s) (hapart : Apart p s s') (hfresh : ¬ s.Live p) :
    TableInv s' := by
  have hprocess : ∀ i, s.processes i ≠ 0 →
      s'.process (s.processes i) = s.process (s.processes i) := by
    intro i hi
    refine hapart.process_eq _ ?_
    rintro rfl
    exact hfresh ⟨hi, i, rfl⟩
  refine ⟨fun i hi => ?_, ?_, ?_, ?_⟩
  · rw [hapart.processes_eq] at hi ⊢
    rw [hprocess i hi]
    exact h.id_eq i hi
  · rw [hapart.processes_eq]
    exact h.slot_lt
  · rw [hapart.processes_eq]
    exact h.boot
  · rw [System.Live, hapart.current_eq, hapart.processes_eq]
    exact h.current

lemma hostedBy_id (g : Ptr → Process) (q : Ptr) : (hostedBy g hosting q).id = (g q).id := by
  rw [hostedBy]
  split_ifs
  · by_cases hq : q = hosting
    · rw [hq, Function.update_self]
    · rw [Function.update_of_ne hq]
  · rfl

/-- A loaded process knows its slot. -/
lemma TableInv.loaded (h : TableInv s) {slot : ℕ} (hslot : slot < maxProcesses)
    (hfree : s.processes slot = 0) (hp : p ≠ 0) (hload : ProcessLoaded p slot hosting s s')
    (hfresh : ¬ s.Live p) : TableInv s' := by
  obtain ⟨f, hid, -, -, -, -, hprocess⟩ := hload.process_eq
  have hother : ∀ i, i ≠ slot → s'.processes i = s.processes i := by
    intro i hi
    rw [hload.processes_eq, Function.update_of_ne hi]
  have hself : s'.processes slot = p := by rw [hload.processes_eq, Function.update_self]
  refine ⟨fun i hi => ?_, fun i hi => ?_, ?_, ?_⟩
  · rw [hprocess, hostedBy_id]
    by_cases hne : i = slot
    · rw [hne, hself, Function.update_self, hid]
    · rw [hother i hne] at hi ⊢
      rw [Function.update_of_ne (fun heq => hfresh ⟨hp, i, heq⟩)]
      exact h.id_eq i hi
  · by_cases hne : i = slot
    · rw [hne]
      exact hslot
    · rw [hother i hne] at hi
      exact h.slot_lt i hi
  · rw [hother 0 (fun heq => h.boot (heq ▸ hfree))]
    exact h.boot
  · obtain ⟨hne, j, hj⟩ := h.current
    rw [hload.current_eq]
    refine ⟨hne, j, ?_⟩
    rw [hother j (fun heq => hne (by rw [← hj, heq, hfree])), hj]

/-- A terminated process leaves its slot, and another process becomes the current one. -/
lemma TableInv.terminated (h : TableInv s) (hlive : s.Live p) (hid : (s.process p).id ≠ 0)
    (hterm : ProcessTerminated p s s') : TableInv s' := by
  obtain ⟨hp, k, hk⟩ := hlive
  have hkid : (s.process p).id = k := by
    rw [← hk]
    exact h.id_eq k (hk ▸ hp)
  have hother : ∀ i, i ≠ k → s'.processes i = s.processes i := by
    intro i hi
    rw [hterm.processes_eq, hkid, Function.update_of_ne hi]
  have hself : s'.processes k = 0 := by rw [hterm.processes_eq, hkid, Function.update_self]
  have hne : ∀ i, s'.processes i ≠ 0 → i ≠ k := by
    rintro i hi rfl
    exact hi hself
  refine ⟨fun i hi => ?_, fun i hi => ?_, ?_, ?_⟩
  · have hik := hne i hi
    rw [hother i hik] at hi ⊢
    rw [hterm.process_eq, System.wakeHost_id]
    exact h.id_eq i hi
  · have hik := hne i hi
    rw [hother i hik] at hi
    exact h.slot_lt i hi
  · rw [hother 0 (fun heq => hid (by rw [hkid, heq]))]
    exact h.boot
  · rcases hterm.succeeds with ⟨hcur, heq⟩ | ⟨-, i, -, hi, -, heq⟩
    · obtain ⟨hc, j, hj⟩ := h.current
      rw [heq]
      refine ⟨hc, j, ?_⟩
      rw [hother j (fun hjk => hcur (by rw [← hj, hjk, hk])), hj]
    · rw [heq]
      exact ⟨hi, i, rfl⟩

lemma TableInv.switch (h : TableInv s) (hlive : s.Live p) :
    TableInv { s with currentProcess := p } :=
  ⟨h.id_eq, h.slot_lt, h.boot, hlive⟩

lemma Painted.live_iff (h : Painted A s s') : s'.Live p ↔ s.Live p := by
  rw [System.Live, h.processes_eq, System.Live]

/-- The structures lie off what is stored over. -/
lemma TableInv.painted (h : TableInv s) (hpaint : Painted A s s')
    (hoff : ∀ q, s.Live q → A q processSize) : TableInv s' := by
  refine ⟨fun i hi => ?_, ?_, ?_, ?_⟩
  · rw [hpaint.processes_eq] at hi ⊢
    rw [hpaint.process_eq _ (hoff _ ⟨hi, i, rfl⟩)]
    exact h.id_eq i hi
  · rw [hpaint.processes_eq]
    exact h.slot_lt
  · rw [hpaint.processes_eq]
    exact h.boot
  · rw [hpaint.live_iff, hpaint.current_eq]
    exact h.current

/-! ## A small system -/

/-- The memory of the small volume, with the structure of the boot process and its screen. -/
def bootProcess : Ptr := (kzalloc mountedMemory.heap processSize).2

def bootProcessMemory : KMemory := mountedMemory.afterKzalloc processSize

def bootScreen : Ptr := (kzalloc bootProcessMemory.heap screenSize).2

def bootedMemory : KMemory := bootProcessMemory.afterKzalloc screenSize

def bootProcessExtents : List Extent :=
  extentAt bootProcess (blocksFor processSize) :: mountedExtents

def bootExtents : List Extent := extentAt bootScreen (blocksFor screenSize) :: bootProcessExtents

/-- The boot process and its task, with a volume on disk 0. -/
def bootSystem (mt : FatMount) : System where
  kernel :=
    { memory := bootedMemory
      fileDescriptors := fun _ => none
      disks := fun i => if i = 0 then some (some mt) else none }
  memory := ⟨fun _ => 0⟩
  process _ := { slotFields 0 with screen := bootScreen }
  elfFile _ := ⟨0, 0, 0, 0, 0⟩
  pageDirectory _ := ⟨0, []⟩
  sched :=
    { mem := fun t => if t = slotTask 0 then { process := bootProcess, mainTask := true } else {}
      taskHead := slotTask 0
      taskTail := slotTask 0
      currentTask := slotTask 0
      chunksFreed := []
      kfreed := [] }
  processes i := if i = 0 then bootProcess else 0
  currentProcess := bootProcess
  terminal := emptyTerminal
  overlay := noOverlay
  screenStores := []

lemma bootProcessMemory_spec : IsBlock bootProcess ∧
    KernelMemory bootProcessMemory bootProcessExtents ∧ Roomy bootProcessExtents 4997 := by
  exact mountedMemory_kernelMemory.afterKzalloc mountedExtents_roomy (by decide) (by decide)

lemma bootedMemory_spec :
    IsBlock bootScreen ∧ KernelMemory bootedMemory bootExtents ∧ Roomy bootExtents 4996 := by
  obtain ⟨-, hmem, hroomy⟩ := bootProcessMemory_spec
  exact hmem.afterKzalloc hroomy (by decide) (by decide)

lemma bootProcessMemory_holds : Holds bootProcessMemory [] (5000 - blocksFor processSize) :=
  (mountedMemory_kernelMemory.holds mountedExtents_roomy
    ⟨0, by decide, by decide⟩).afterKzalloc (by decide : 0 < processSize) (by decide)

lemma bootedMemory_holds : Holds bootedMemory [] 4996 :=
  bootProcessMemory_holds.afterKzalloc (by decide : 0 < screenSize) (by decide)

lemma bootProcessMemory_stops : StopsBefore bootProcessMemory.heap.table.entries :=
  bootProcessMemory_holds.stops

lemma bootedMemory_stops : StopsBefore bootedMemory.heap.table.entries :=
  bootedMemory_holds.stops

lemma bootSystem_afterBoot (mt : FatMount) : AfterBoot (bootSystem mt) :=
  ⟨bootProcessMemory_spec.1.ne_zero, rfl, fun _ hi => if_neg hi, rfl⟩

lemma bootSystem_freeSlot (mt : FatMount) : ∃ slot,
    processGetFreeSlot (bootSystem mt) = some slot ∧ (bootSystem mt).processes slot = 0 := by
  rcases hfind : processGetFreeSlot (bootSystem mt) with _ | slot
  · exact absurd (decide_eq_true rfl) (List.find?_eq_none.mp hfind 1 (by decide))
  · exact ⟨slot, rfl, of_decide_eq_true (List.find?_eq_some_iff_append.mp hfind).1⟩

/-- Loading the image fails with a code, in every memory with the blocks of the root directory. -/
def ImageFails (mt : FatMount) (filename : List UInt8) (e : ℤ) : Prop :=
  ∀ {s : System} {L R : List Extent} {n : ℕ},
    diskGet s.kernel (driveOf filename) = some (some mt) → s.kernel.fileDescriptors 0 = none →
    KernelMemory s.kernel.memory L → Roomy L n → 30 ≤ n → L.Perm (mountedExtents ++ R) →
    Runs (elfLoad filename 0) s fun r s' => r = (e, 0) ∧ s'.process = s.process

/-- There is nothing to free of a process whose image has not been loaded. -/
lemma processFreeProgramData_zero (h : s.process p = .zero) :
    processFreeProgramData p s = some (0, s) := by
  rw [processFreeProgramData, getSystem_bind, h]
  rfl

/-- A load whose image cannot be loaded fails with the code. -/
lemma runs_processLoad_fails {Q : System → Prop} {e : ℤ} {slot : ℕ} (hneg : e < 0)
    (hformat : e ≠ -einformat) (hslot : processGetFreeSlot s = some slot)
    (hload : Runs (kzallocCall processSize) s fun p t =>
      p ≠ 0 ∧ Runs (elfLoad filename now) (t.setProcess p fun _ => .zero) fun r s' =>
        r = (e, 0) ∧ s'.process p = .zero ∧ Q s') :
    Runs (processLoad filename now hosting) s fun r s' => r.1 = e ∧ Q s' := by
  have hfree : s.processes slot = 0 :=
    of_decide_eq_true (List.find?_eq_some_iff_append.mp hslot).1
  refine runs_getSystem_bind ?_
  rw [hslot]
  refine runs_getSystem_bind ?_
  rw [if_neg (fun htaken => htaken.2 hfree)]
  refine hload.bind fun process t ht => ?_
  rw [if_neg ht.1]
  refine runs_updateSystem_bind ?_
  have hdata : Runs (processLoadData filename now process) (t.setProcess process fun _ => .zero)
      fun r s' => r = e ∧ s'.process process = .zero ∧ Q s' := by
    refine Runs.bind (P := fun r s' => r = e ∧ s'.process process = .zero ∧ Q s') ?_
      fun r t hr => ?_
    · refine ht.2.bind fun r t hr => ?_
      obtain ⟨rfl, hprocess⟩ := hr
      rw [if_pos hneg]
      exact runs_pure ⟨rfl, hprocess⟩
    · obtain ⟨rfl, hprocess⟩ := hr
      rw [if_neg hformat]
      exact runs_pure ⟨rfl, hprocess⟩
  refine hdata.bind fun r t hr => ?_
  obtain ⟨rfl, hprocess, hQ⟩ := hr
  rw [if_pos hneg]
  refine Runs.bind (P := fun _ t' => t' = t) ?_ fun _ t' ht' => ?_
  · -- there is no task to free
    refine runs_getSystem_bind ?_
    rw [hprocess, if_neg (by decide)]
    exact runs_pure rfl
  · rw [← ht'] at hprocess hQ
    refine Runs.bind (P := fun _ t'' => t'' = t') ?_ fun _ t'' ht'' => ?_
    · exact ⟨_, _, processFreeProgramData_zero hprocess, rfl⟩
    · exact runs_pure ⟨rfl, ht'' ▸ hQ⟩

/-- With twelve free slots the load fails with the code. -/
lemma ImageFails.processLoad {mt : FatMount} {filename : List UInt8} {e : ℤ}
    (h : ImageFails mt filename e) (hneg : e < 0) (hformat : e ≠ -einformat)
    (hdisk : diskGet (bootSystem mt).kernel (driveOf filename) = some (some mt)) :
    Runs (SerpaeOS.processLoad filename 0 0) (bootSystem mt) fun r _ => r.1 = e := by
  obtain ⟨slot, hfind, -⟩ := bootSystem_freeSlot mt
  have hblocks : blocksFor processSize = 3 := by decide
  obtain ⟨-, hmem, hroomy⟩ := bootedMemory_spec
  have halloc := hmem.allocate hroomy (by decide : 0 < processSize) (by omega)
  refine (runs_processLoad_fails (Q := fun _ => True) hneg hformat hfind ?_).mono
    fun _ _ hr => hr.1
  refine (runs_onKernel (runs_onMemory halloc)).mono fun process t ht => ?_
  obtain ⟨k, ⟨m, ⟨hblock, hmem', hroomy'⟩, rfl⟩, rfl⟩ := ht
  have hperm : (extentAt process (blocksFor processSize) :: bootExtents).Perm
      (mountedExtents ++ [extentAt process (blocksFor processSize),
        extentAt bootScreen (blocksFor screenSize),
        extentAt bootProcess (blocksFor processSize)]) :=
    @List.perm_append_comm _ [_, _, _] mountedExtents
  refine ⟨hblock.ne_zero, Runs.mono (h (s := System.setProcess
    { bootSystem mt with kernel := { (bootSystem mt).kernel with memory := m } } process
    fun _ => .zero) hdisk rfl hmem' hroomy' (by omega) hperm) fun r s' hr => ⟨hr.1, ?_, trivial⟩⟩
  rw [hr.2, System.setProcess_process, Function.update_self]

end SerpaeOS
