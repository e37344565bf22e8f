import NanoS32.Fs.Time
import Mathlib.Data.Nat.Bitwise

/-!
# The encoding of file times

The encoding is a mixed radix: a month number above the seconds of the month. Both functions are first read in the natural
numbers; the round trips and the order are facts about the digits.
-/

namespace NanoS32

namespace Time

/-- The days of a month of the Gregorian calendar. -/
def daysInMonth (year month : Nat) : Nat :=
  if month = 2 then if year % 4 = 0 ∧ (year % 100 ≠ 0 ∨ year % 400 = 0) then 29 else 28
  else if month = 4 ∨ month = 6 ∨ month = 9 ∨ month = 11 then 30 else 31

/-- A date and time of the calendar, from 2017-01-01 to 2101-12-31. -/
structure Valid (t : Time) : Prop where
  year : 2017 ≤ t.year.toNat ∧ t.year.toNat ≤ 2101
  month : 1 ≤ t.month.toNat ∧ t.month.toNat ≤ 12
  day : 1 ≤ t.day.toNat ∧ t.day.toNat ≤ daysInMonth t.year.toNat t.month.toNat
  hour : t.hour.toNat < 24
  minute : t.minute.toNat < 60
  second : t.second.toNat < 60

/-- The chronological order. -/
def Before (t u : Time) : Prop :=
  t.year < u.year ∨ t.year = u.year ∧ (t.month < u.month ∨ t.month = u.month ∧ (t.day < u.day ∨ t.day = u.day ∧
    (t.hour < u.hour ∨ t.hour = u.hour ∧ (t.minute < u.minute ∨ t.minute = u.minute ∧ t.second < u.second))))

/-- The months since January 2017. -/
def months (t : Time) : Nat := (t.year.toNat - 2017) * 12 + (t.month.toNat - 1)

/-- The seconds of the month. -/
def seconds (t : Time) : Nat :=
  ((t.day.toNat - 1) * 24 + t.hour.toNat) * 3600 + t.minute.toNat * 60 + t.second.toNat

/-- The digits fit their places in the word. The calendar is not asked for: a word can hold the 49th day of a month. -/
structure Fits (t : Time) : Prop where
  year : 2017 ≤ t.year.toNat
  month : 1 ≤ t.month.toNat ∧ t.month.toNat ≤ 12
  day : 1 ≤ t.day.toNat
  hour : t.hour.toNat < 24
  minute : t.minute.toNat < 60
  second : t.second.toNat < 60
  months : t.months < 1024
  seconds : t.seconds < 4194304

theorem daysInMonth_le (year month : Nat) : daysInMonth year month ≤ 31 := by
  unfold daysInMonth
  split_ifs <;> decide

/-- The dates of the calendar fit. -/
theorem Valid.fits {t : Time} (h : t.Valid) : t.Fits := by
  have hday := h.day.2.trans (daysInMonth_le t.year.toNat t.month.toNat)
  have hyear := h.year
  have hmonth := h.month
  have hhour := h.hour
  have hminute := h.minute
  have hsecond := h.second
  refine ⟨h.year.1, h.month, h.day.1, h.hour, h.minute, h.second, ?_, ?_⟩
  · unfold Time.months
    omega
  · unfold Time.seconds
    omega

end Time

/-! ## The two functions in the natural numbers -/

/-- The months and the seconds in a word. -/
theorem toNat_fstime_parts (w : UInt32) :
    ((w >>> 22) &&& 0x3FF).toNat = w.toNat / 4194304 ∧ (w &&& 0x3FFFFF).toNat = w.toNat % 4194304 := by
  have hw := w.toNat_lt
  have hlow : ∀ n : Nat, n &&& 0x3FFFFF = n % 4194304 := fun n => Nat.and_two_pow_sub_one_eq_mod n 22
  have hhigh : ∀ n : Nat, n &&& 0x3FF = n % 1024 := fun n => Nat.and_two_pow_sub_one_eq_mod n 10
  constructor
  · rw [UInt32.toNat_and, UInt32.toNat_shiftRight]
    have h22 : (22 : UInt32).toNat % 32 = 22 := rfl
    have hmask : (0x3FF : UInt32).toNat = 0x3FF := rfl
    rw [h22, hmask, hhigh, Nat.shiftRight_eq_div_pow]
    omega
  · rw [UInt32.toNat_and]
    exact hlow w.toNat

/-- The digits that a word decodes to. -/
theorem fstimeToSystime_digits (w : UInt32) :
    (fstimeToSystime w).year.toNat = w.toNat / 4194304 / 12 + 2017 ∧
      (fstimeToSystime w).month.toNat = w.toNat / 4194304 % 12 + 1 ∧
      (fstimeToSystime w).day.toNat = w.toNat % 4194304 / 86400 + 1 ∧
      (fstimeToSystime w).hour.toNat = w.toNat % 4194304 / 3600 % 24 ∧
      (fstimeToSystime w).minute.toNat = w.toNat % 4194304 / 60 % 60 ∧
      (fstimeToSystime w).second.toNat = w.toNat % 4194304 % 60 := by
  obtain ⟨hm, hs⟩ := toNat_fstime_parts w
  have hw := w.toNat_lt
  simp only [fstimeToSystime, UInt32.toNat_add, UInt32.toNat_div, UInt32.toNat_mod, UInt32.reduceToNat, hm, hs]
  exact ⟨by omega, by omega, by omega, trivial, trivial, trivial⟩

/-- The quotients of the seconds of a month are those of its minutes and hours. -/
theorem seconds_div (n : Nat) : n / 60 / 60 = n / 3600 ∧ n / 3600 / 24 = n / 86400 :=
  ⟨Nat.div_div_eq_div_mul n 60 60, Nat.div_div_eq_div_mul n 3600 24⟩

/-- A time that fits is encoded as its months above its seconds. -/
theorem toNat_systimeToFstime {t : Time} (h : t.Fits) :
    (systimeToFstime t).toNat = t.months * 4194304 + t.seconds := by
  have hmonths := h.months
  have hseconds := h.seconds
  have hyear := h.year
  have hmonth := h.month
  have hday := h.day
  have hhour := h.hour
  have hminute := h.minute
  have hsecond := h.second
  unfold Time.months at hmonths
  unfold Time.seconds at hseconds
  have hlow : (t.second + t.minute * 60 + t.hour * 60 * 60 + (t.day - 1) * 24 * 60 * 60).toNat = t.seconds := by
    have hd : (t.day - 1).toNat = t.day.toNat - 1 := UInt32.toNat_sub_of_le _ _ (UInt32.le_iff_toNat_le.2 hday)
    simp only [UInt32.toNat_add, UInt32.toNat_mul, hd, UInt32.reduceToNat, Time.seconds]
    omega
  have hhigh : ((t.year - 2017) * 12 + (t.month - 1)).toNat = t.months := by
    have hy : (t.year - 2017).toNat = t.year.toNat - 2017 := UInt32.toNat_sub_of_le _ _ (UInt32.le_iff_toNat_le.2 hyear)
    have hm : (t.month - 1).toNat = t.month.toNat - 1 := UInt32.toNat_sub_of_le _ _ (UInt32.le_iff_toNat_le.2 hmonth.1)
    simp only [UInt32.toNat_add, UInt32.toNat_mul, hy, hm, UInt32.reduceToNat, Time.months]
    omega
  have hmask : ∀ n : Nat, n &&& 0x3FFFFF = n % 4194304 := fun n => Nat.and_two_pow_sub_one_eq_mod n 22
  have hshift : (((t.year - 2017) * 12 + (t.month - 1)) <<< 22).toNat = t.months * 4194304 := by
    rw [UInt32.toNat_shiftLeft, hhigh]
    have h22 : (22 : UInt32).toNat % 32 = 22 := rfl
    have hlt : t.months * 2 ^ 22 < 2 ^ 32 := (Nat.mul_lt_mul_right (by decide)).2 h.months
    rw [h22, Nat.shiftLeft_eq, Nat.mod_eq_of_lt hlt]
    rfl
  have hor : 4194304 * t.months ||| t.seconds = 4194304 * t.months + t.seconds :=
    (Nat.two_pow_add_eq_or_of_lt (show t.seconds < 2 ^ 22 from h.seconds) t.months).symm
  have hlit : (0x3FFFFF : UInt32).toNat = 0x3FFFFF := rfl
  unfold systimeToFstime
  rw [UInt32.toNat_or, UInt32.toNat_and, hlow, hshift, hlit, hmask, Nat.mod_eq_of_lt h.seconds, Nat.or_comm,
    Nat.mul_comm, hor]

/-! ## Round trips and order -/

/-- Every word decodes to a time that fits. -/
theorem fstimeToSystime_fits (w : UInt32) : (fstimeToSystime w).Fits := by
  obtain ⟨hyear, hmonth, hday, hhour, hminute, hsecond⟩ := fstimeToSystime_digits w
  have hw := w.toNat_lt
  obtain ⟨hmin, hhr⟩ := seconds_div (w.toNat % 4194304)
  refine ⟨by omega, by omega, by omega, by omega, by omega, by omega, ?_, ?_⟩
  · unfold Time.months
    omega
  · unfold Time.seconds
    omega

theorem systimeToFstime_fstimeToSystime (w : UInt32) : systimeToFstime (fstimeToSystime w) = w := by
  obtain ⟨hyear, hmonth, hday, hhour, hminute, hsecond⟩ := fstimeToSystime_digits w
  rw [← UInt32.toNat_inj, toNat_systimeToFstime (fstimeToSystime_fits w)]
  obtain ⟨hmin, hhr⟩ := seconds_div (w.toNat % 4194304)
  unfold Time.months Time.seconds
  omega

/-- A time before another has a smaller month number, or the same and fewer seconds. -/
theorem systimeToFstime_lt {t u : Time} (ht : t.Fits) (hu : u.Fits) (h : t.Before u) :
    systimeToFstime t < systimeToFstime u := by
  rw [UInt32.lt_iff_toNat_lt, toNat_systimeToFstime ht, toNat_systimeToFstime hu]
  have hts := ht.seconds
  have hus := hu.seconds
  simp only [Time.Before, UInt32.lt_iff_toNat_lt, ← UInt32.toNat_inj] at h
  have hdigits : t.months < u.months ∨ t.months = u.months ∧ t.seconds < u.seconds := by
    have h1 := ht.year
    have h2 := ht.month
    have h3 := ht.day
    have h4 := ht.hour
    have h5 := ht.minute
    have h6 := ht.second
    have h7 := hu.year
    have h8 := hu.month
    have h9 := hu.day
    have h10 := hu.hour
    have h11 := hu.minute
    have h12 := hu.second
    unfold Time.months Time.seconds
    omega
  omega

/-- Times that fit and have one encoding are equal: of two that differ, one is before the other. -/
theorem systimeToFstime_injective {t u : Time} (ht : t.Fits) (hu : u.Fits) (h : systimeToFstime t = systimeToFstime u) :
    t = u := by
  have htu : ¬t.Before u := fun hb => by
    have hlt := systimeToFstime_lt ht hu hb
    rw [h] at hlt
    exact UInt32.lt_irrefl _ hlt
  have hut : ¬u.Before t := fun hb => by
    have hlt := systimeToFstime_lt hu ht hb
    rw [h] at hlt
    exact UInt32.lt_irrefl _ hlt
  simp only [Time.Before, UInt32.lt_iff_toNat_lt, ← UInt32.toNat_inj] at htu hut
  obtain ⟨y, mo, da, ho, mi, se⟩ := t
  obtain ⟨y', mo', da', ho', mi', se'⟩ := u
  simp only [Time.mk.injEq, ← UInt32.toNat_inj]
  simp only at htu hut
  omega

theorem fstimeToSystime_systimeToFstime {t : Time} (h : t.Fits) : fstimeToSystime (systimeToFstime t) = t :=
  systimeToFstime_injective (fstimeToSystime_fits _) h (systimeToFstime_fstimeToSystime _)

/-- The encoding of the dates of the calendar is invertible and keeps the chronological order, and every word is the encoding
of what it decodes to. -/
theorem fstime_encoding :
    (∀ t : Time, t.Valid → fstimeToSystime (systimeToFstime t) = t) ∧
      (∀ t u : Time, t.Valid → u.Valid → t.Before u → systimeToFstime t < systimeToFstime u) ∧
      ∀ w : UInt32, systimeToFstime (fstimeToSystime w) = w :=
  ⟨fun _ h => fstimeToSystime_systimeToFstime h.fits, fun _ _ ht hu h => systimeToFstime_lt ht.fits hu.fits h,
    systimeToFstime_fstimeToSystime⟩

end NanoS32
