import SerpaeOS.Lib.Collect
import SerpaeOS.Lib.Loop
import Mathlib.Algebra.Ring.Nat
import Mathlib.Data.UInt

/-!
# The real-time clock

`cmos_read_RTC` reads the time from a chip that goes on counting while its registers are read, so it
reads them until it gets the same time twice.  The chip is a function from the accesses to it: what
its registers hold at one access says nothing about the next.
-/

namespace SerpaeOS

open Prog Collect

/-- The registers of the chip at each access to it. -/
abbrev Cmos := ℕ → UInt8 → UInt8

/-- A program that has made so many accesses to the chip. -/
abbrev RtcProg := StateT ℕ Option

/-- `struct date_time`, with the bytes in which it is kept. -/
structure CmosDateTime where
  seconds : UInt8
  minutes : UInt8
  hours : UInt8
  day : UInt8
  month : UInt8
  year : UInt32
  century : UInt8
deriving DecidableEq, Repr

def releaseYear : UInt32 := 2023

/-- `CENTRAL`, in hours behind `UTC`. -/
def timezone : ℤ := -6

/-- The chip has no register for the century. -/
def centuryRegister : UInt8 := 0x00

def cmosGetRtcReg (chip : Cmos) (reg : UInt8) : RtcProg UInt8 := fun k => some (chip k reg, k + 1)

def cmodGetUpdateInProgressFlag (chip : Cmos) : RtcProg UInt8 := do
  let status ← cmosGetRtcReg chip 0x0A
  return status &&& 0x80

/-- `while(cmod_get_update_in_progress_flag());` -/
def waitForUpdate (chip : Cmos) : RtcProg Unit :=
  Prog.loop (fun _ => do
    let flag ← cmodGetUpdateInProgressFlag chip
    return if flag = 0 then .inr () else .inl ()) ()

/-- An hour of the chip in the time zone, cut to the byte in which it is kept. -/
def addTimezone (hours : UInt8) : UInt8 := UInt8.ofInt (hours.toNat + timezone)

/-- The registers into `now`, and the one of the century into the local variable. -/
def readNow (chip : Cmos) (now : CmosDateTime) (century : UInt8) :
    RtcProg (CmosDateTime × UInt8) := do
  let seconds ← cmosGetRtcReg chip 0
  let minutes ← cmosGetRtcReg chip 0x2
  let hours ← cmosGetRtcReg chip 0x4
  let day ← cmosGetRtcReg chip 0x7
  let month ← cmosGetRtcReg chip 0x8
  let year ← cmosGetRtcReg chip 0x9
  let century ← if centuryRegister ≠ 0 then cmosGetRtcReg chip centuryRegister else pure century
  return ({ now with
    seconds := seconds
    minutes := minutes
    hours := addTimezone hours
    day := day
    month := month
    year := year.toUInt32 }, century)

/-- The macro `conditions`, under which the loop goes on. -/
def Conditions (last now : CmosDateTime) (century : UInt8) : Prop :=
  last.seconds ≠ now.seconds ∨ last.minutes ≠ now.minutes ∨ last.hours ≠ now.hours ∨
    last.day ≠ now.day ∨ last.month ≠ now.month ∨ last.year ≠ now.year ∨ last.century ≠ century

instance {last now : CmosDateTime} {century : UInt8} : Decidable (Conditions last now century) :=
  inferInstanceAs (Decidable (_ ∨ _))

def decodeBcd (n : UInt8) : UInt8 := (n &&& 0x0F) + n / 16 * 10

/-- What is left to do with the registers: they may be in binary-coded decimals, and the hours those
of a half day. -/
def decodeNow (registerB : UInt8) (now : CmosDateTime) : CmosDateTime :=
  let now := if registerB &&& 0x4 = 0 then
      { now with
        seconds := decodeBcd now.seconds
        minutes := decodeBcd now.minutes
        hours := addTimezone
          (((now.hours &&& 0x0F) + (now.hours &&& 0x70) / 16 * 10) ||| (now.hours &&& 0x80))
        day := decodeBcd now.day
        month := decodeBcd now.month
        year := (now.year &&& 0x0F) + now.year / 16 * 10
        century := if centuryRegister ≠ 0 then decodeBcd now.century else now.century }
    else now
  let now := if registerB &&& 0x02 = 0 ∧ now.hours &&& 0x80 ≠ 0 then
      { now with hours := addTimezone (((now.hours &&& 0x7F) + 12) % 24) }
    else now
  if centuryRegister ≠ 0 then { now with year := now.year + now.century.toUInt32 * 100 }
  else
    let year := now.year + releaseYear / 100 * 100
    { now with year := if year < releaseYear then year + 100 else year }

/-- The `do` loop, with the time that was read before it. -/
def cmosReadAgain (chip : Cmos) : CmosDateTime × UInt8 → RtcProg CmosDateTime :=
  Prog.loop fun (last, century) => do
    waitForUpdate chip
    let (now, century) ← readNow chip last century
    return if Conditions last now century then .inl (now, century) else .inr now

/-- The local variable `century` has the value that lies on the stack. -/
def cmosReadRtc (chip : Cmos) (century : UInt8) (now : CmosDateTime) : RtcProg CmosDateTime := do
  waitForUpdate chip
  let first ← readNow chip now century
  let now ← cmosReadAgain chip first
  let registerB ← cmosGetRtcReg chip 0xB
  return decodeNow registerB now

/-! ## Two passes that agree -/

/-- The registers that `cmos_read_RTC` reads, in their order. -/
def rtcRegisters : List UInt8 := [0, 0x2, 0x4, 0x7, 0x8, 0x9]

/-- What is in `now` when the registers have been read from an access on. -/
def readFrom (chip : Cmos) (now : CmosDateTime) (k : ℕ) : CmosDateTime :=
  { now with
    seconds := chip k 0
    minutes := chip (k + 1) 0x2
    hours := addTimezone (chip (k + 2) 0x4)
    day := chip (k + 3) 0x7
    month := chip (k + 4) 0x8
    year := (chip (k + 5) 0x9).toUInt32 }

/-- What is in `now` when the registers have been read all at once. -/
def readAt (registers : UInt8 → UInt8) (now : CmosDateTime) : CmosDateTime :=
  readFrom (fun _ => registers) now 0

variable {chip : Cmos} {now last dt : CmosDateTime} {century : UInt8} {j k l m n : ℕ}

lemma readNow_eq : readNow chip now century k = some ((readFrom chip now k, century), k + 6) := rfl

@[simp] lemma readFrom_readFrom : readFrom chip (readFrom chip now j) k = readFrom chip now k := rfl

lemma toNat_addTimezone (n : UInt8) : (addTimezone n).toNat = (n.toNat + 250) % 256 := by
  have hn := n.toNat_lt
  rw [addTimezone, timezone, UInt8.ofInt, UInt8.toNat_ofNat']
  omega

lemma addTimezone_injective {a b : UInt8} (h : addTimezone a = addTimezone b) : a = b := by
  have hnat := congrArg UInt8.toNat h
  rw [toNat_addTimezone, toNat_addTimezone] at hnat
  have ha := a.toNat_lt
  have hb := b.toNat_lt
  exact UInt8.toNat_inj.mp (by omega)

/-- The loop ends where two passes have read the same and the byte from the stack is right. -/
lemma not_conditions_iff :
    ¬ Conditions (readFrom chip now j) (readFrom chip now k) century ↔
      readPass chip rtcRegisters j = readPass chip rtcRegisters k ∧ now.century = century := by
  simp only [Conditions, readFrom, rtcRegisters, readPass, not_or, not_not, List.cons.injEq,
    and_true, and_assoc]
  constructor
  · rintro ⟨h₁, h₂, h₃, h₄, h₅, h₆, h₇⟩
    exact ⟨h₁, h₂, addTimezone_injective h₃, h₄, h₅, UInt8.toUInt32_inj.mp h₆, h₇⟩
  · rintro ⟨h₁, h₂, h₃, h₄, h₅, h₆, h₇⟩
    exact ⟨h₁, h₂, congrArg addTimezone h₃, h₄, h₅, congrArg UInt8.toUInt32 h₆, h₇⟩

lemma readFrom_of_pass {registers : UInt8 → UInt8}
    (h : readPass chip rtcRegisters k = rtcRegisters.map registers) :
    readFrom chip now k = readAt registers now := by
  simp only [rtcRegisters, readPass, List.map_cons, List.map_nil, List.cons.injEq, and_true] at h
  obtain ⟨h₁, h₂, h₃, h₄, h₅, h₆⟩ := h
  simp only [readAt, readFrom, h₁, h₂, h₃, h₄, h₅, h₆]

lemma ends_waitForUpdate : Ends (waitForUpdate chip) k fun _ l => k < l := by
  refine Ends.loop (I := fun _ l => k ≤ l) ?_ (Nat.le_refl k)
  intro _ l hl r l' hr
  obtain ⟨rfl, rfl⟩ := Prod.mk.inj (Option.some.inj hr)
  by_cases hflag : chip l 0x0A &&& 0x80 = 0
  · rw [if_pos hflag]
    exact Nat.lt_succ_of_le hl
  · rw [if_neg hflag]
    exact Nat.le_succ_of_le hl

lemma ends_readNow : Ends (readNow chip now century) k fun x n =>
    x = (readFrom chip now k, century) ∧ n = k + 6 :=
  Runs.ends ⟨_, _, readNow_eq, rfl, rfl⟩

/-- Where the call returns, its last two passes have read the same. -/
lemma ends_cmosReadRtc : Ends (cmosReadRtc chip century now) k fun dt n =>
    ∃ j l, k < j ∧ j + 7 ≤ l ∧ n = l + 7 ∧
      readPass chip rtcRegisters j = readPass chip rtcRegisters l ∧ now.century = century ∧
      dt = decodeNow (chip (n - 1) 0xB) (readFrom chip now l) := by
  refine ends_waitForUpdate.bind fun _ k₁ hk₁ => ?_
  refine ends_readNow.bind ?_
  rintro x k₂ ⟨rfl, rfl⟩
  refine Ends.bind (P := fun now' n => ∃ j l, k < j ∧ j + 7 ≤ l ∧ n = l + 6 ∧
      readPass chip rtcRegisters j = readPass chip rtcRegisters l ∧ now.century = century ∧
      now' = readFrom chip now l) ?_ ?_
  · refine Ends.loop (I := fun x k₂ => ∃ j, k < j ∧ j + 6 ≤ k₂ ∧ x = (readFrom chip now j, century))
      ?_ ⟨k₁, hk₁, Nat.le_refl _, rfl⟩
    rintro x k₂ ⟨j, hj, hjk, rfl⟩
    refine ends_waitForUpdate.bind fun _ l hl => ends_readNow.bind ?_
    rintro x n ⟨rfl, rfl⟩
    refine ends_pure ?_
    by_cases hc : Conditions (readFrom chip now j) (readFrom chip now l) century
    · rw [readFrom_readFrom, if_pos hc]
      exact ⟨l, by omega, Nat.le_refl _, rfl⟩
    · rw [readFrom_readFrom, if_neg hc]
      obtain ⟨hpass, hcentury⟩ := not_conditions_iff.mp hc
      exact ⟨j, l, hj, by omega, rfl, hpass, hcentury, rfl⟩
  · rintro now' n ⟨j, l, hj, hjl, rfl, hpass, hcentury, rfl⟩ dt n hr
    obtain ⟨rfl, rfl⟩ := Prod.mk.inj (Option.some.inj hr)
    exact ⟨j, l, hj, hjl, rfl, hpass, hcentury, rfl⟩

/-! ## What the registers say -/

/-- A time in the hundred years that the registers can tell apart. -/
structure CivilTime where
  seconds : ℕ
  minutes : ℕ
  hours : ℕ
  day : ℕ
  month : ℕ
  year : ℕ
  seconds_lt : seconds < 60
  minutes_lt : minutes < 60
  hours_lt : hours < 24
  day_le : day ≤ 31
  month_le : month ≤ 12
  le_year : 2023 ≤ year
  year_lt : year < 2123

/-- How the chip keeps a number, in binary or in binary-coded decimals. -/
def encodeNumber (registerB : UInt8) (n : ℕ) : UInt8 :=
  if registerB &&& 0x4 = 0 then UInt8.ofNat (n / 10 * 16 + n % 10) else UInt8.ofNat n

/-- How the chip keeps an hour, of the day or of half a day. -/
def encodeHours (registerB : UInt8) (h : ℕ) : UInt8 :=
  if registerB &&& 0x02 = 0 then
    encodeNumber registerB ((h + 11) % 12 + 1) ||| (if h < 12 then 0 else 0x80)
  else encodeNumber registerB h

/-- The registers show the time. -/
structure Shows (registerB : UInt8) (registers : UInt8 → UInt8) (t : CivilTime) : Prop where
  seconds : registers 0 = encodeNumber registerB t.seconds
  minutes : registers 0x2 = encodeNumber registerB t.minutes
  hours : registers 0x4 = encodeHours registerB t.hours
  day : registers 0x7 = encodeNumber registerB t.day
  month : registers 0x8 = encodeNumber registerB t.month
  year : registers 0x9 = encodeNumber registerB (t.year % 100)

/-- The hours of the day at which the time zone, which is added once for the binary-coded decimals
and once for the half days again, leads to the right hour. -/
def HourKept (registerB : UInt8) (h : ℕ) : Prop :=
  if registerB &&& 0x4 = 0 then
    if registerB &&& 0x02 = 0 then h = 10 ∨ h = 11 else 10 ≤ h ∧ h ≤ 15 ∨ 20 ≤ h
  else if registerB &&& 0x02 = 0 then 6 ≤ h ∧ h ≤ 11 else 6 ≤ h

/-- What `decodeNow` makes of a number. -/
def decodeNumber (registerB : UInt8) (n : UInt8) : UInt8 :=
  if registerB &&& 0x4 = 0 then decodeBcd n else n

/-- What `decodeNow` makes of the hours. -/
def decodeHours (registerB : UInt8) (hours : UInt8) : UInt8 :=
  let hours := if registerB &&& 0x4 = 0 then addTimezone
      (((hours &&& 0x0F) + (hours &&& 0x70) / 16 * 10) ||| (hours &&& 0x80)) else hours
  if registerB &&& 0x02 = 0 ∧ hours &&& 0x80 ≠ 0 then addTimezone (((hours &&& 0x7F) + 12) % 24)
  else hours

/-- What `decodeNow` makes of the year. -/
def decodeYear (registerB : UInt8) (year : UInt32) : UInt32 :=
  let year := (if registerB &&& 0x4 = 0 then (year &&& 0x0F) + year / 16 * 10 else year) + 2000
  if year < releaseYear then year + 100 else year

variable {registerB : UInt8} {t : CivilTime}

lemma decodeNow_eq : decodeNow registerB now = { now with
    seconds := decodeNumber registerB now.seconds
    minutes := decodeNumber registerB now.minutes
    hours := decodeHours registerB now.hours
    day := decodeNumber registerB now.day
    month := decodeNumber registerB now.month
    year := decodeYear registerB now.year } := by
  have hcentury : ¬ centuryRegister ≠ 0 := by decide
  have hrelease : releaseYear / 100 * 100 = 2000 := by decide
  simp only [decodeNow, decodeNumber, decodeHours, decodeYear, if_neg hcentury, hrelease]
  by_cases hbcd : registerB &&& 0x4 = 0
  · simp only [if_pos hbcd]
    split_ifs <;> rfl
  · simp only [if_neg hbcd]
    split_ifs <;> rfl

lemma decodeNow_century : (decodeNow registerB now).century = now.century := by
  rw [decodeNow_eq]

lemma decodeNumber_encodeNumber (hn : n < 100) :
    (decodeNumber registerB (encodeNumber registerB n)).toNat = n := by
  rw [decodeNumber, encodeNumber]
  split_ifs
  · revert n
    decide
  · revert n
    decide

lemma decodeYear_encodeNumber (hn : 2023 ≤ n) (hn' : n < 2123) :
    (decodeYear registerB (encodeNumber registerB (n % 100)).toUInt32).toNat = n := by
  obtain ⟨m, rfl⟩ := Nat.exists_eq_add_of_le hn
  have hm : m < 100 := by omega
  clear hn hn'
  rw [decodeYear, encodeNumber]
  by_cases hbcd : registerB &&& 0x4 = 0
  · simp only [if_pos hbcd]
    revert m
    decide
  · simp only [if_neg hbcd]
    revert m
    decide

/-- The time zone is added when the register is read, again to binary-coded decimals, and again to
what looks like an hour of the second half of a day. -/
lemma decodeHours_encodeHours (hn : n < 24) :
    (decodeHours registerB (addTimezone (encodeHours registerB n))).toNat = (n + 18) % 24 ↔
      HourKept registerB n := by
  rw [decodeHours, encodeHours, encodeNumber, encodeNumber, HourKept]
  by_cases hbcd : registerB &&& 0x4 = 0 <;> by_cases hhalf : registerB &&& 0x02 = 0
  all_goals
    simp only [hbcd, hhalf, if_true, if_false, true_and, false_and]
    revert n
    decide

/-! ## A chip that is left alone -/

/-- For so many accesses the chip is not updating its registers, and they do not change. -/
structure Quiet (chip : Cmos) (j n : ℕ) : Prop where
  flag : ∀ i, j ≤ i → i < j + n → chip i 0x0A &&& 0x80 = 0
  same : ∀ i, j ≤ i → i < j + n → ∀ r ∈ rtcRegisters, chip i r = chip j r

lemma Quiet.pass_eq (h : Quiet chip j n) (hk : j ≤ k) (hkn : k + 6 ≤ j + n) :
    readPass chip rtcRegisters k = rtcRegisters.map (chip j) := by
  have hlength : rtcRegisters.length = 6 := rfl
  exact readPass_of_same fun i hki hi => h.same i (by omega) (by omega)

lemma waitForUpdate_ready (hflag : chip k 0x0A &&& 0x80 = 0) :
    waitForUpdate chip k = some ((), k + 1) :=
  loop_leave (congrArg (fun r => some (r, k + 1)) (if_pos hflag))

lemma waitForUpdate_busy (hflag : ¬ chip k 0x0A &&& 0x80 = 0) :
    waitForUpdate chip k = waitForUpdate chip (k + 1) :=
  loop_next (congrArg (fun r => some (r, k + 1)) (if_neg hflag))

/-- The wait is over at the first access at which the chip is not updating. -/
lemma exists_waitForUpdate (hflag : chip j 0x0A &&& 0x80 = 0) (hkj : k ≤ j) :
    ∃ l, k ≤ l ∧ l ≤ j ∧ waitForUpdate chip k = some ((), l + 1) := by
  induction hkj using Nat.decreasingInduction with
  | self => exact ⟨j, Nat.le_refl j, Nat.le_refl j, waitForUpdate_ready hflag⟩
  | of_succ i hi ih =>
    obtain ⟨l, hil, hlj, hwait⟩ := ih
    by_cases hnow : chip i 0x0A &&& 0x80 = 0
    · exact ⟨i, Nat.le_refl i, Nat.le_of_lt hi, waitForUpdate_ready hnow⟩
    · exact ⟨l, by omega, hlj, (waitForUpdate_busy hnow).trans hwait⟩

/-- One round of the `do` loop. -/
lemma cmosReadAgain_round (hwait : waitForUpdate chip k = some ((), l)) :
    cmosReadAgain chip (last, century) k =
      if Conditions last (readFrom chip last l) century then
        cmosReadAgain chip (readFrom chip last l, century) (l + 6)
      else some (readFrom chip last l, l + 6) := by
  have hround : (do
      waitForUpdate chip
      let (now, century) ← readNow chip last century
      return if Conditions last now century then .inl (now, century) else .inr now :
        RtcProg ((CmosDateTime × UInt8) ⊕ CmosDateTime)) k =
      some (if Conditions last (readFrom chip last l) century then
        .inl (readFrom chip last l, century) else .inr (readFrom chip last l), l + 6) := by
    change (waitForUpdate chip k).bind _ = _
    rw [hwait]
    rfl
  by_cases hc : Conditions last (readFrom chip last l) century
  · rw [if_pos hc] at hround ⊢
    exact loop_next hround
  · rw [if_neg hc] at hround ⊢
    exact loop_leave hround

/-- While the chip is left alone two passes read the same, so the loop ends. -/
lemma runs_cmosReadAgain (hquiet : Quiet chip j 21) (hkj : k ≤ j + 7)
    (hlast : last.century = century) :
    Runs (cmosReadAgain chip (last, century)) k fun _ _ => True := by
  induction hd : j + 7 - k using Nat.strong_induction_on generalizing k last with
  | _ d ih =>
    subst hd
    by_cases hk : k < j
    · obtain ⟨l, hkl, hlj, hwait⟩ :=
        exists_waitForUpdate (hquiet.flag j (Nat.le_refl j) (by omega)) (Nat.le_of_lt hk)
      have hround : cmosReadAgain chip (last, century) k = _ := cmosReadAgain_round hwait
      split_ifs at hround with hc
      · rw [Runs, hround]
        exact ih (j + 7 - (l + 1 + 6)) (by omega) (by omega) hlast rfl
      · exact ⟨_, _, hround, trivial⟩
    · have hwait := waitForUpdate_ready (hquiet.flag k (by omega) (by omega))
      have hround : cmosReadAgain chip (last, century) k = _ := cmosReadAgain_round hwait
      split_ifs at hround with hc
      · have hwait' := waitForUpdate_ready (hquiet.flag (k + 1 + 6) (by omega) (by omega))
        have hround' : cmosReadAgain chip (readFrom chip last (k + 1), century) (k + 1 + 6) = _ :=
          cmosReadAgain_round hwait'
        have hpass := (hquiet.pass_eq (k := k + 1) (by omega) (by omega)).trans
          (hquiet.pass_eq (k := k + 1 + 6 + 1) (by omega) (by omega)).symm
        rw [readFrom_readFrom, if_neg (not_conditions_iff.mpr ⟨hpass, hlast⟩)] at hround'
        exact ⟨_, _, hround.trans hround', trivial⟩
      · exact ⟨_, _, hround, trivial⟩

lemma ends_cmosReadRtc_century : Ends (cmosReadRtc chip century now) k fun dt _ =>
    dt.century = now.century ∧ now.century = century := by
  rintro dt n hrun
  obtain ⟨j, l, -, -, -, -, hcentury, rfl⟩ := ends_cmosReadRtc dt n hrun
  exact ⟨decodeNow_century, hcentury⟩

/-- If the chip is left alone at some time for long enough, the call returns if and only if the
byte on the stack is that of `now`; otherwise it does not return at all. -/
lemma runs_cmosReadRtc_iff (hkj : k ≤ j) (hquiet : Quiet chip j 21) :
    Runs (cmosReadRtc chip century now) k (fun _ _ => True) ↔ now.century = century := by
  constructor
  · rintro ⟨dt, n, hrun, -⟩
    exact (ends_cmosReadRtc_century dt n hrun).2
  · intro hcentury
    obtain ⟨l, hkl, hlj, hwait⟩ :=
      exists_waitForUpdate (hquiet.flag j (Nat.le_refl j) (by omega)) hkj
    refine Runs.bind (P := fun _ m => m = l + 1) ⟨_, _, hwait, rfl⟩ ?_
    rintro _ m rfl
    refine Runs.bind (P := fun x m => x = (readFrom chip now (l + 1), century) ∧ m = l + 1 + 6)
      ⟨_, _, readNow_eq, rfl, rfl⟩ ?_
    rintro x m ⟨rfl, rfl⟩
    have hagain : Runs (cmosReadAgain chip (readFrom chip now (l + 1), century)) (l + 1 + 6) _ :=
      runs_cmosReadAgain hquiet (by omega) hcentury
    exact hagain.bind fun dt m _ => ⟨_, _, rfl, trivial⟩

/-! ## The time that is read -/

/-- Whatever happens to the registers while they are read, there was an instant during the call at
which all of them held what became of the time, unless one of them came back to an old value.  The
time is right but for the hours, for which it depends on the format of the chip. -/
theorem cmosReadRtc_snapshot (hrun : cmosReadRtc chip century now k = some (dt, n))
    (hback : ∀ r ∈ rtcRegisters, NoReturn chip r k n) : ∃ m, k < m ∧ m < n ∧
      dt = decodeNow (chip (n - 1) 0xB) (readAt (chip m) now) ∧
      ∀ t, Shows (chip (n - 1) 0xB) (chip m) t →
        dt.seconds.toNat = t.seconds ∧ dt.minutes.toNat = t.minutes ∧ dt.day.toNat = t.day ∧
        dt.month.toNat = t.month ∧ dt.year.toNat = t.year ∧
        (dt.hours.toNat = (t.hours + 18) % 24 ↔ HourKept (chip (n - 1) 0xB) t.hours) := by
  obtain ⟨j, l, hj, hjl, hn, hpass, -, hdt⟩ := ends_cmosReadRtc dt n hrun
  have hlength : rtcRegisters.length = 6 := rfl
  have hnow : readPass chip rtcRegisters j = rtcRegisters.map (chip l) :=
    readPass_eq_map hpass (by omega) (Nat.le_refl l) fun r hr =>
      (hback r hr).mono (Nat.le_of_lt hj) (by omega)
  rw [readFrom_of_pass (hpass ▸ hnow)] at hdt
  refine ⟨l, by omega, by omega, hdt, fun t ht => ?_⟩
  have hlt := t.seconds_lt
  have hlt' := t.minutes_lt
  have hday := t.day_le
  have hmonth := t.month_le
  rw [hdt, decodeNow_eq]
  simp only [readAt, readFrom, ht.seconds, ht.minutes, ht.hours, ht.day, ht.month, ht.year]
  exact ⟨decodeNumber_encodeNumber (by omega), decodeNumber_encodeNumber (by omega),
    decodeNumber_encodeNumber (by omega), decodeNumber_encodeNumber (by omega),
    decodeYear_encodeNumber t.le_year t.year_lt, decodeHours_encodeHours t.hours_lt⟩

/-- A chip that comes to the next hour at the fifth access. -/
def hourTurns : Cmos := fun k reg =>
  match reg.toNat with
  | 0 | 2 => if k < 4 then 59 else 0
  | 4 => if k < 4 then 12 else 13
  | 7 => 31
  | 8 => 12
  | 9 => 25
  | 0xB => 0x06
  | _ => 0

def lastSecond : CivilTime where
  seconds := 59
  minutes := 59
  hours := 12
  day := 31
  month := 12
  year := 2025
  seconds_lt := by decide
  minutes_lt := by decide
  hours_lt := by decide
  day_le := by decide
  month_le := by decide
  le_year := by decide
  year_lt := by decide

def firstSecond : CivilTime where
  seconds := 0
  minutes := 0
  hours := 13
  day := 31
  month := 12
  year := 2025
  seconds_lt := by decide
  minutes_lt := by decide
  hours_lt := by decide
  day_le := by decide
  month_le := by decide
  le_year := by decide
  year_lt := by decide

/-- The first pass reads the minutes of the old hour and the days of the new one, and the call
returns with a time that the chip has shown. -/
theorem cmosReadRtc_snapshot_hourTurns : ∃ dt n,
    cmosReadRtc hourTurns 0 ⟨0, 0, 0, 0, 0, 0, 0⟩ 0 = some (dt, n) ∧
      (dt.minutes.toNat = 59 ∧ dt.hours.toNat = 6 ∨ dt.minutes.toNat = 0 ∧ dt.hours.toNat = 7) := by
  have hold : ∀ k reg, k < 4 → hourTurns k reg = hourTurns 0 reg := by
    intro k reg hk
    simp only [hourTurns, if_pos hk, Nat.zero_lt_succ, if_true]
  have hnew : ∀ k reg, 4 ≤ k → hourTurns k reg = hourTurns 4 reg := by
    intro k reg hk
    simp only [hourTurns, if_neg (Nat.not_lt.mpr hk), Nat.lt_irrefl, if_false]
  have hquiet : Quiet hourTurns 4 21 := ⟨fun i hi _ => by rw [hnew i _ hi]; rfl,
    fun i hi _ r _ => hnew i r hi⟩
  have hback : ∀ n, ∀ r ∈ rtcRegisters, NoReturn hourTurns r 0 n := by
    intro n r _ i j l _ hij hjl _ hil
    by_cases hj : j < 4
    · rw [hold j r hj, hold i r (by omega)]
    · rw [hil, hnew j r (by omega), hnew l r (by omega)]
  have hreturns : Runs (cmosReadRtc hourTurns 0 ⟨0, 0, 0, 0, 0, 0, 0⟩) 0 _ :=
    (runs_cmosReadRtc_iff (Nat.zero_le 4) hquiet).mpr rfl
  obtain ⟨dt, n, hrun, -⟩ := hreturns
  obtain ⟨m, -, -, -, hshows⟩ := cmosReadRtc_snapshot hrun (hback n)
  refine ⟨dt, n, hrun, ?_⟩
  have hformat : hourTurns (n - 1) 0xB = 0x06 := rfl
  rw [hformat] at hshows
  by_cases hm : m < 4
  · obtain ⟨-, hminutes, -, -, -, hhours⟩ := hshows lastSecond
      (by constructor <;> rw [hold m _ hm] <;> rfl)
    exact .inl ⟨hminutes, hhours.mpr (by rw [HourKept]; decide)⟩
  · obtain ⟨-, hminutes, -, -, -, hhours⟩ := hshows firstSecond
      (by constructor <;> rw [hnew m _ (Nat.not_lt.mp hm)] <;> rfl)
    exact .inr ⟨hminutes, hhours.mpr (by rw [HourKept]; decide)⟩

end SerpaeOS
