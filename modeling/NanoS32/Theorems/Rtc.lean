import NanoS32.Hwio.Rtc
import NanoS32.Theorems.Time

/-!
# Reading the clock

The registers hold a date and time in one of four formats. `io_getdatetime` gives it back except for the years from 2080 on in BCD,
and for noon and midnight on a 12-hour clock.
-/

namespace NanoS32

/-! ## The formats -/

/-- The clock counts in binary, or in BCD. -/
def binaryMode (statusB : UInt8) : Bool := statusB &&& 0x04 ≠ 0

/-- The clock counts 24 hours, or 12 and a PM flag. -/
def hours24 (statusB : UInt8) : Bool := statusB &&& 0x02 ≠ 0

/-- A number in a register. -/
def rtcByte (binary : Bool) (v : Nat) : UInt8 := UInt8.ofNat (if binary then v else 16 * (v / 10) + v % 10)

/-- The hour in its register. On a 12-hour clock midnight and noon are 12, and bit 7 tells the second half of the day. -/
def rtcHour (binary h24 : Bool) (hour : Nat) : UInt8 :=
  if h24 then rtcByte binary hour
  else rtcByte binary (if hour % 12 = 0 then 12 else hour % 12) ||| if 12 ≤ hour then 0x80 else 0

/-- A date and time of the calendar, from 2000-01-01 to 2099-12-31. -/
structure Time.InCentury (t : Time) : Prop where
  year : 2000 ≤ t.year.toNat ∧ t.year.toNat ≤ 2099
  month : 1 ≤ t.month.toNat ∧ t.month.toNat ≤ 12
  day : 1 ≤ t.day.toNat ∧ t.day.toNat ≤ Time.daysInMonth t.year.toNat t.month.toNat
  hour : t.hour.toNat < 24
  minute : t.minute.toNat < 60
  second : t.second.toNat < 60

/-- The registers hold this date and time, in the format that status B selects. -/
structure ClockShows (cmos : Nat → UInt8 → UInt8) (statusB : UInt8) (t : Time) : Prop where
  status : ∀ k, cmos k 0x0B = statusB
  year : ∀ k, cmos k 0x09 = rtcByte (binaryMode statusB) (t.year.toNat - 2000)
  month : ∀ k, cmos k 0x08 = rtcByte (binaryMode statusB) t.month.toNat
  day : ∀ k, cmos k 0x07 = rtcByte (binaryMode statusB) t.day.toNat
  hour : ∀ k, cmos k 0x04 = rtcHour (binaryMode statusB) (hours24 statusB) t.hour.toNat
  minute : ∀ k, cmos k 0x02 = rtcByte (binaryMode statusB) t.minute.toNat
  second : ∀ k, cmos k 0x00 = rtcByte (binaryMode statusB) t.second.toNat

/-! ## The loop -/

section Loop

variable {cmos : Nat → UInt8 → UInt8}

/-- Register A says at this read that an update is in progress. -/
def Updating (cmos : Nat → UInt8 → UInt8) (k : Nat) : Prop := cmos k 0x0A &&& cmosUip ≠ 0

/-- The reads from `k` on give these fields, or start again later because of an update. -/
def ReadsClock (cmos : Nat → UInt8 → UInt8) (raw : Time) (k : Nat) (r : Nat ⊕ Time × Nat) : Prop :=
  (∃ k', r = .inl k' ∧ k < k' ∧ ∃ j, k ≤ j ∧ Updating cmos j) ∨ ∃ k', r = .inr (raw, k')

theorem ReadsClock.readField {raw : Time} {k₀ k : Nat} {reg : UInt8} {next : UInt32 → Nat → Nat ⊕ Time × Nat} (hk : k₀ ≤ k)
    (hnext : ReadsClock cmos raw k₀ (next (cmos k reg).toUInt32 (k + 2))) : ReadsClock cmos raw k₀ (readField cmos reg k next) := by
  unfold NanoS32.readField
  split_ifs with hupdate
  · exact Or.inl ⟨k + 2, rfl, by omega, k + 1, by omega, hupdate⟩
  · exact hnext

/-- The bytes of the registers that hold the fields, which do not change. -/
structure Registers (cmos : Nat → UInt8 → UInt8) (raw : Time) : Prop where
  year : ∀ k, (cmos k 0x09).toUInt32 = raw.year
  month : ∀ k, (cmos k 0x08).toUInt32 = raw.month
  day : ∀ k, (cmos k 0x07).toUInt32 = raw.day
  hour : ∀ k, (cmos k 0x04).toUInt32 = raw.hour
  minute : ∀ k, (cmos k 0x02).toUInt32 = raw.minute
  second : ∀ k, (cmos k 0x00).toUInt32 = raw.second

theorem Registers.fields {raw : Time} (h : Registers cmos raw) (k : Nat) : ReadsClock cmos raw k (readFields cmos k) := by
  unfold readFields
  refine ReadsClock.readField (Nat.le_refl k) ?_
  refine ReadsClock.readField (by omega) ?_
  refine ReadsClock.readField (by omega) ?_
  refine ReadsClock.readField (by omega) ?_
  refine ReadsClock.readField (by omega) ?_
  refine ReadsClock.readField (by omega) ?_
  rw [h.year, h.month, h.day, h.hour, h.minute, h.second]
  exact Or.inr ⟨_, rfl⟩

/-- What the loop returns are the fields in the registers. -/
theorem Registers.clock {raw : Time} (h : Registers cmos raw) : ∀ (fuel k : Nat) (r : Time × Nat),
    readClock cmos fuel k = some r → r.1 = raw := by
  intro fuel
  induction fuel with
  | zero => exact fun k r hr => absurd hr.symm (Option.some_ne_none r)
  | succ fuel ih =>
    intro k r hr
    rw [readClock] at hr
    by_cases hupdate : cmos k 0x0A &&& cmosUip ≠ 0
    · rw [if_pos hupdate] at hr
      exact ih _ _ hr
    · rw [if_neg hupdate] at hr
      rcases h.fields (k + 1) with ⟨k', heq, -⟩ | ⟨k', heq⟩
      · rw [heq] at hr
        exact ih _ _ hr
      · rw [heq] at hr
        obtain rfl := Option.some.inj hr
        rfl

/-- The loop ends once no update is in progress any more. -/
theorem Registers.clock_ends {raw : Time} (h : Registers cmos raw) {n : Nat} (hn : ∀ k, n ≤ k → ¬Updating cmos k) :
    ∀ fuel k, n ≤ k + fuel → readClock cmos (fuel + 1) k ≠ none := by
  intro fuel
  induction fuel with
  | zero =>
    intro k hk hnone
    have hidle : ¬(cmos k 0x0A &&& cmosUip ≠ 0) := hn k hk
    rw [readClock, if_neg hidle] at hnone
    rcases h.fields (k + 1) with ⟨k', -, -, j, hj, hupdate⟩ | ⟨k', heq⟩
    · exact hn j (by omega) hupdate
    · rw [heq] at hnone
      cases hnone
  | succ fuel ih =>
    intro k hk hnone
    rw [readClock] at hnone
    by_cases hupdate : cmos k 0x0A &&& cmosUip ≠ 0
    · rw [if_pos hupdate] at hnone
      exact ih (k + 1) (by omega) hnone
    · rw [if_neg hupdate] at hnone
      rcases h.fields (k + 1) with ⟨k', heq, hlt, -⟩ | ⟨k', heq⟩
      · rw [heq] at hnone
        exact ih k' (by omega) hnone
      · rw [heq] at hnone
        cases hnone

end Loop

/-! ## The conversion -/

/-- The number that a register stands for. -/
def fieldOf (binary : Bool) (x : UInt8) : UInt32 := if binary then x.toUInt32 else bcdToInt x

/-- A number below 80 is read back in either format. -/
theorem fieldOf_rtcByte (binary : Bool) {v : Nat} (hv : v < 80) : fieldOf binary (rtcByte binary v) = UInt32.ofNat v := by
  have hall : ∀ binary, ∀ v < 80, fieldOf binary (rtcByte binary v) = UInt32.ofNat v := by decide +kernel
  exact hall binary v hv

/-- From 80 on, a number in BCD is read as a negative number. -/
theorem fieldOf_rtcByte_year (binary : Bool) {v : Nat} (hv : v < 100) :
    fieldOf binary (rtcByte binary v) = UInt32.ofNat v ↔ binary = true ∨ v < 80 := by
  have hall : ∀ binary, ∀ v < 100, fieldOf binary (rtcByte binary v) = UInt32.ofNat v ↔ binary = true ∨ v < 80 := by
    decide +kernel
  exact hall binary v hv

/-- The hour that a register stands for. -/
def hourOf (binary h24 : Bool) (x : UInt8) : UInt32 :=
  if h24 = false ∧ fieldOf binary x &&& 0x80 ≠ 0 then ((fieldOf binary x &&& 0x7F) + 12) % 24 else fieldOf binary x

/-- An hour is read back except midnight and noon on a 12-hour clock. -/
theorem hourOf_rtcHour (binary h24 : Bool) {v : Nat} (hv : v < 24) :
    hourOf binary h24 (rtcHour binary h24 v) = UInt32.ofNat v ↔ h24 = true ∨ v % 12 ≠ 0 := by
  have hall : ∀ binary h24, ∀ v < 24, hourOf binary h24 (rtcHour binary h24 v) = UInt32.ofNat v ↔ h24 = true ∨ v % 12 ≠ 0 := by
    decide +kernel
  exact hall binary h24 v hv

/-- `convertTime`, field by field. -/
theorem convertTime_eq (statusB : UInt8) (year month day hour minute second : UInt8) :
    convertTime statusB ⟨year.toUInt32, month.toUInt32, day.toUInt32, hour.toUInt32, minute.toUInt32, second.toUInt32⟩ =
      { year := fieldOf (binaryMode statusB) year + 2000
        month := fieldOf (binaryMode statusB) month
        day := fieldOf (binaryMode statusB) day
        hour := hourOf (binaryMode statusB) (hours24 statusB) hour
        minute := fieldOf (binaryMode statusB) minute
        second := fieldOf (binaryMode statusB) second } := by
  have h24 : ∀ x : UInt8, to24Hours statusB (fieldOf (binaryMode statusB) x) = hourOf (binaryMode statusB) (hours24 statusB) x := by
    intro x
    refine if_congr (and_congr_left fun _ => ?_) rfl rfl
    simp [hours24]
  have hback : ∀ x : UInt8, x.toUInt32.toUInt8 = x := UInt8.toUInt8_toUInt32
  rw [← h24]
  by_cases h : statusB &&& 0x04 = 0
  · have hmode : binaryMode statusB = false := by simp [binaryMode, h]
    simp only [convertTime, fromBcd, if_pos h, hmode, fieldOf, hback]
    rfl
  · have hmode : binaryMode statusB = true := by simp [binaryMode, h]
    simp only [convertTime, fromBcd, if_neg h, hmode, fieldOf]
    rfl

/-- The bytes in the registers, when they hold this date and time. -/
def shownFields (statusB : UInt8) (t : Time) : Time :=
  { year := (rtcByte (binaryMode statusB) (t.year.toNat - 2000)).toUInt32
    month := (rtcByte (binaryMode statusB) t.month.toNat).toUInt32
    day := (rtcByte (binaryMode statusB) t.day.toNat).toUInt32
    hour := (rtcHour (binaryMode statusB) (hours24 statusB) t.hour.toNat).toUInt32
    minute := (rtcByte (binaryMode statusB) t.minute.toNat).toUInt32
    second := (rtcByte (binaryMode statusB) t.second.toNat).toUInt32 }

/-- What `io_getdatetime` makes of the registers is the date and time they hold, except on a 12-hour clock at midnight and noon, and
in BCD from 2080 on. -/
theorem convertTime_shownFields {statusB : UInt8} {t : Time} (h : t.InCentury) : convertTime statusB (shownFields statusB t) = t ↔
    (hours24 statusB = true ∨ t.hour.toNat % 12 ≠ 0) ∧ (binaryMode statusB = true ∨ t.year.toNat < 2080) := by
  obtain ⟨year, month, day, hour, minute, second⟩ := t
  obtain ⟨hyear, hmonth, ⟨-, hday⟩, hhour, hminute, hsecond⟩ := h
  have hday := hday.trans (Time.daysInMonth_le _ _)
  dsimp only at hyear hmonth hday hhour hminute hsecond
  have hroundMonth := fieldOf_rtcByte (binaryMode statusB) (show month.toNat < 80 by omega)
  have hroundDay := fieldOf_rtcByte (binaryMode statusB) (show day.toNat < 80 by omega)
  have hroundMinute := fieldOf_rtcByte (binaryMode statusB) (show minute.toNat < 80 by omega)
  have hroundSecond := fieldOf_rtcByte (binaryMode statusB) (show second.toNat < 80 by omega)
  have hroundHour := hourOf_rtcHour (binaryMode statusB) (hours24 statusB) hhour
  have hroundYear : fieldOf (binaryMode statusB) (rtcByte (binaryMode statusB) (year.toNat - 2000)) + 2000 = year ↔
      binaryMode statusB = true ∨ year.toNat < 2080 := by
    have hval : UInt32.ofNat (year.toNat - 2000) + 2000 = year := by
      refine UInt32.toNat_inj.1 ?_
      rw [UInt32.toNat_add, UInt32.toNat_ofNat']
      have h2000 : (2000 : UInt32).toNat = 2000 := rfl
      omega
    have hless : year.toNat - 2000 < 80 ↔ year.toNat < 2080 := by omega
    conv_lhs => rw [← hval]
    rw [UInt32.add_left_inj, hval, fieldOf_rtcByte_year _ (show year.toNat - 2000 < 100 by omega), hless]
  rw [UInt32.ofNat_toNat] at hroundMonth hroundDay hroundMinute hroundSecond hroundHour
  rw [shownFields, convertTime_eq, Time.mk.injEq]
  simp only [hroundMonth, hroundDay, hroundMinute, hroundSecond, hroundHour, hroundYear]
  simp only [true_and, and_true]
  exact and_comm

/-- Once no update is in progress any more, `io_getdatetime` returns what it makes of the registers. -/
theorem ioGetdatetime_eq {cmos : Nat → UInt8 → UInt8} {statusB : UInt8} {t : Time} (hshow : ClockShows cmos statusB t) {n : Nat}
    (hidle : ∀ k, n ≤ k → ¬Updating cmos k) {fuel : Nat} (hfuel : n + 1 ≤ fuel) :
    ioGetdatetime cmos fuel = some (convertTime statusB (shownFields statusB t)) := by
  have hreg : Registers cmos (shownFields statusB t) :=
    ⟨fun k => by rw [hshow.year, shownFields], fun k => by rw [hshow.month, shownFields], fun k => by rw [hshow.day, shownFields],
      fun k => by rw [hshow.hour, shownFields], fun k => by rw [hshow.minute, shownFields],
      fun k => by rw [hshow.second, shownFields]⟩
  obtain ⟨fuel, rfl⟩ : ∃ k, fuel = k + 1 := ⟨fuel - 1, by omega⟩
  have hends := hreg.clock_ends hidle fuel 0 (by omega)
  rw [ioGetdatetime]
  cases hread : readClock cmos (fuel + 1) 0 with
  | none => exact absurd hread hends
  | some r =>
    obtain ⟨fields, k⟩ := r
    have hfields : fields = shownFields statusB t := hreg.clock _ _ _ hread
    simp only [hshow.status, hfields]

/-- `io_getdatetime` returns the date and time in the registers, once no update is in progress any more, exactly when the clock
counts 24 hours or it is neither midnight's hour nor noon's, and the clock counts in binary or it is before 2080. -/
theorem io_getdatetime_reads {cmos : Nat → UInt8 → UInt8} {statusB : UInt8} {t : Time} (ht : t.InCentury)
    (hshow : ClockShows cmos statusB t) {n : Nat} (hidle : ∀ k, n ≤ k → ¬Updating cmos k) :
    (∃ bound, ∀ fuel, bound ≤ fuel → ioGetdatetime cmos fuel = some t) ↔
      (hours24 statusB = true ∨ t.hour.toNat % 12 ≠ 0) ∧ (binaryMode statusB = true ∨ t.year.toNat < 2080) := by
  rw [← convertTime_shownFields ht]
  constructor
  · rintro ⟨bound, hbound⟩
    have heq := (ioGetdatetime_eq hshow hidle (Nat.le_max_right bound (n + 1))).symm.trans (hbound _ (Nat.le_max_left _ _))
    exact Option.some.inj heq
  · intro heq
    exact ⟨n + 1, fun fuel hfuel => by rw [ioGetdatetime_eq hshow hidle hfuel, heq]⟩

/-- The registers of a clock that stands still. -/
def stoppedClock (statusB : UInt8) (t : Time) : Nat → UInt8 → UInt8 := fun _ r =>
  if r = 0x0B then statusB
  else if r = 0x09 then rtcByte (binaryMode statusB) (t.year.toNat - 2000)
  else if r = 0x08 then rtcByte (binaryMode statusB) t.month.toNat
  else if r = 0x07 then rtcByte (binaryMode statusB) t.day.toNat
  else if r = 0x04 then rtcHour (binaryMode statusB) (hours24 statusB) t.hour.toNat
  else if r = 0x02 then rtcByte (binaryMode statusB) t.minute.toNat
  else if r = 0x00 then rtcByte (binaryMode statusB) t.second.toNat
  else 0

theorem stoppedClock_shows (statusB : UInt8) (t : Time) : ClockShows (stoppedClock statusB t) statusB t :=
  ⟨fun _ => rfl, fun _ => rfl, fun _ => rfl, fun _ => rfl, fun _ => rfl, fun _ => rfl, fun _ => rfl⟩

theorem stoppedClock_idle (statusB : UInt8) (t : Time) (k : Nat) : ¬Updating (stoppedClock statusB t) k :=
  fun h => h (by simp [stoppedClock])

theorem io_getdatetime_reads_afternoon :
    (∃ bound, ∀ fuel, bound ≤ fuel → ioGetdatetime (stoppedClock 0 ⟨2024, 2, 29, 13, 5, 59⟩) fuel = some ⟨2024, 2, 29, 13, 5, 59⟩) ↔
      (hours24 0 = true ∨ 13 % 12 ≠ 0) ∧ (binaryMode 0 = true ∨ 2024 < 2080) :=
  io_getdatetime_reads ⟨by decide, by decide, by decide, by decide, by decide, by decide⟩ (stoppedClock_shows 0 _)
    (n := 0) fun k _ => stoppedClock_idle 0 _ k

/-- Noon on a 12-hour clock in BCD is read as midnight, midnight as noon, and the year 2080 as 1920. -/
theorem io_getdatetime_noon :
    ¬(∀ (cmos : Nat → UInt8 → UInt8) (statusB : UInt8) (t : Time), t.InCentury → ClockShows cmos statusB t →
      (∀ k, ¬Updating cmos k) → ∃ bound, ∀ fuel, bound ≤ fuel → ioGetdatetime cmos fuel = some t) ∧
    ioGetdatetime (stoppedClock 0 ⟨2024, 2, 29, 12, 0, 0⟩) 1 = some ⟨2024, 2, 29, 0, 0, 0⟩ ∧
    ioGetdatetime (stoppedClock 0 ⟨2024, 2, 29, 0, 0, 0⟩) 1 = some ⟨2024, 2, 29, 12, 0, 0⟩ ∧
    ioGetdatetime (stoppedClock 2 ⟨2080, 1, 1, 0, 0, 0⟩) 1 = some ⟨1920, 1, 1, 0, 0, 0⟩ := by
  refine ⟨fun h => ?_, by decide +kernel, by decide +kernel, by decide +kernel⟩
  have hcentury : Time.InCentury ⟨2024, 2, 29, 12, 0, 0⟩ := ⟨by decide, by decide, by decide, by decide, by decide, by decide⟩
  obtain ⟨bound, hbound⟩ := h _ _ _ hcentury (stoppedClock_shows 0 _) (stoppedClock_idle 0 _)
  have hread := ioGetdatetime_eq (n := 0) (stoppedClock_shows 0 ⟨2024, 2, 29, 12, 0, 0⟩)
    (fun k _ => stoppedClock_idle 0 _ k) (Nat.le_max_right bound 1)
  rw [hbound _ (Nat.le_max_left bound 1)] at hread
  exact absurd hread (by decide +kernel)

end NanoS32
