import NanoS32.Hwio.Timer
import Mathlib.Tactic.Common

/-!
# The timer after calibration

Once the timer is calibrated, an interrupt only counts. The time is a 32-bit product divided by 100, so it goes up by ten
milliseconds at each interrupt until the product wraps around.
-/

namespace NanoS32

namespace Timer

/-- The calibration is over. -/
structure Calibrated (t : Timer) : Prop where
  rate : t.intsPerSecond = 100
  first : t.s0 ≠ 0xFFFF
  counted : t.s1 ≠ t.s0
  set : t.s2 ≠ t.s1

/-- The phases of the calibration: nothing read yet, waiting for a second to begin, counting, over. -/
def Phase (t : Timer) : Prop :=
  (t.intsPerSecond = 5000000 ∧ (t.s0 = 0xFFFF ∨ t.s1 = t.s0 ∨ t.s2 = t.s1)) ∨ t.Calibrated

theorem second_ne (second : UInt8) : second.toUInt32 ≠ 0xFFFF := by
  intro h
  have hlt := second.toNat_lt
  have heq : second.toNat = 0xFFFF := by
    rw [← UInt8.toNat_toUInt32, h]
    rfl
  omega

/-- An interrupt after the calibration only counts. -/
theorem timerHandler_calibrated {t : Timer} (h : t.Calibrated) (second : UInt8) :
    t.timerHandler second = { t with clockInts := t.clockInts + 1 } := by
  unfold timerHandler
  dsimp only
  rw [if_neg h.first, if_neg h.counted, if_neg h.set]

/-- An interrupt goes through the phases in order. -/
theorem timerHandler_phase {t : Timer} (h : t.Phase) (second : UInt8) : (t.timerHandler second).Phase := by
  rcases h with ⟨hrate, hphase⟩ | h
  · unfold timerHandler
    dsimp only
    split
    · exact Or.inl ⟨hrate, Or.inr (Or.inl rfl)⟩
    · next h0 =>
      split
      · next h1 =>
        split
        · exact Or.inl ⟨hrate, Or.inr (Or.inr rfl)⟩
        · next h2 => exact Or.inl ⟨hrate, Or.inr (Or.inl (not_not.1 h2))⟩
      · next h1 =>
        split
        · next h2 =>
          split
          · next h3 => exact Or.inr ⟨rfl, h0, h1, h3⟩
          · next h3 => exact Or.inl ⟨hrate, Or.inr (Or.inr (not_not.1 h3))⟩
        · next h2 => exact absurd (hphase.resolve_left h0) (not_or.2 ⟨h1, h2⟩)
  · rw [timerHandler_calibrated h]
    exact Or.inr ⟨h.rate, h.first, h.counted, h.set⟩

/-- In any run from the start, a rate of 100 means that the calibration is over. -/
theorem after_boot_calibrated (second : Nat → UInt8) (n : Nat) (h : (boot.after second n).intsPerSecond = 100) :
    (boot.after second n).Calibrated := by
  have hphase : ∀ n, (boot.after second n).Phase := by
    intro n
    induction n with
    | zero => exact Or.inl ⟨rfl, Or.inl rfl⟩
    | succ n ih => exact timerHandler_phase ih (second n)
  rcases hphase n with ⟨hrate, _⟩ | hcal
  · rw [h] at hrate
    exact absurd hrate (by decide)
  · exact hcal

/-- A run after the calibration. -/
theorem after_calibrated {t : Timer} (h : t.Calibrated) (second : Nat → UInt8) (n : Nat) :
    t.after second n = { t with clockInts := t.clockInts + UInt32.ofNat n } := by
  induction n with
  | zero =>
    rw [after]
    simp
  | succ n ih =>
    have hcal : (t.after second n).Calibrated := by
      rw [ih]
      exact ⟨h.rate, h.first, h.counted, h.set⟩
    rw [after, timerHandler_calibrated hcal, ih]
    simp [UInt32.add_assoc]

/-! ## The time -/

/-- The time at a count of interrupts. -/
theorem ioGettimer_toNat {t : Timer} (h : t.intsPerSecond = 100) :
    t.ioGettimer.toNat = t.clockInts.toNat * 1000 % 4294967296 / 100 := by
  rw [ioGettimer, h, UInt32.toNat_div, UInt32.toNat_mul]
  rfl

/-- The time after `n` more interrupts. -/
theorem after_ioGettimer {t : Timer} (h : t.Calibrated) (second : Nat → UInt8) (n : Nat) :
    (t.after second n).ioGettimer.toNat = (t.clockInts.toNat * 1000 % 4294967296 + 1000 * n) % 4294967296 / 100 := by
  have hrate : ({ t with clockInts := t.clockInts + UInt32.ofNat n } : Timer).intsPerSecond = 100 := h.rate
  rw [after_calibrated h, ioGettimer_toNat hrate]
  dsimp only
  rw [UInt32.toNat_add, UInt32.toNat_ofNat', Nat.add_mod_mod, Nat.mod_mul_mod, Nat.add_mul, Nat.mod_add_mod,
    Nat.mul_comm n 1000]

/-- The calibrated timer at a count of interrupts. -/
def ofCount (count : Nat) : Timer :=
  { clockInts := UInt32.ofNat count, intsPerSecond := 100, s0 := 0, s1 := 1, s2 := 2, ticr := 0 }

theorem ofCount_ioGettimer {count : Nat} (h : count < 4294967296) :
    (Timer.ofCount count).ioGettimer.toNat = count * 1000 % 4294967296 / 100 := by
  rw [ioGettimer_toNat rfl]
  simp only [Timer.ofCount]
  rw [UInt32.toNat_ofNat_of_lt' h]

/-- The product of the count goes through 2^32 the same number of times. -/
def SamePeriod (count count' : Nat) : Prop := count * 1000 / 4294967296 = count' * 1000 / 4294967296

/-- The product `n` has wrapped around `q` times. -/
theorem div_eq_iff_between {n q : Nat} :
    n / 4294967296 = q ↔ q * 4294967296 ≤ n ∧ n < q * 4294967296 + 4294967296 := by
  have heq := Nat.div_add_mod' n 4294967296
  have hlt : n % 4294967296 < 4294967296 := Nat.mod_lt _ (by decide)
  constructor
  · intro h
    rw [h] at heq
    omega
  · rintro ⟨h1, h2⟩
    exact Nat.div_eq_of_lt_le h1 (by rw [Nat.add_mul, Nat.one_mul]; exact h2)

theorem mod_eq_sub {n q : Nat} (h : q * 4294967296 ≤ n ∧ n < q * 4294967296 + 4294967296) :
    n % 4294967296 = n - q * 4294967296 := by
  have heq := Nat.div_add_mod' n 4294967296
  rw [div_eq_iff_between.2 h] at heq
  omega

/-- The time never goes back over a range of counts exactly when the product does not wrap around in it. -/
theorem monotone_iff {count count' : Nat} (hle : count ≤ count') (hlt : count' < 4294967296) :
    (∀ a b, count ≤ a → a ≤ b → b ≤ count' → (Timer.ofCount a).ioGettimer ≤ (Timer.ofCount b).ioGettimer) ↔
      SamePeriod count count' := by
  unfold SamePeriod
  obtain ⟨q, hq⟩ : ∃ q, count * 1000 / 4294967296 = q := ⟨_, rfl⟩
  have hbetween := div_eq_iff_between.1 hq
  rw [hq, eq_comm, div_eq_iff_between]
  constructor
  · intro h
    by_contra hne
    -- the last count before the product wraps around, and the first one after it
    obtain ⟨b, hb⟩ : ∃ b, (q * 4294967296 + 4294967296 + 999) / 1000 = b := ⟨_, rfl⟩
    have h1 : count ≤ b - 1 := by omega
    have h2 : b ≤ count' := by omega
    have hstep := UInt32.le_iff_toNat_le.1 (h (b - 1) b h1 (Nat.sub_le b 1) h2)
    have hbefore : q * 4294967296 ≤ (b - 1) * 1000 ∧ (b - 1) * 1000 < q * 4294967296 + 4294967296 :=
      ⟨by omega, by omega⟩
    have hafter : (q + 1) * 4294967296 ≤ b * 1000 ∧ b * 1000 < (q + 1) * 4294967296 + 4294967296 :=
      ⟨by omega, by omega⟩
    rw [ofCount_ioGettimer (by omega), ofCount_ioGettimer (by omega), mod_eq_sub hbefore, mod_eq_sub hafter] at hstep
    omega
  · intro h a b ha hab hb
    have hleft : q * 4294967296 ≤ a * 1000 ∧ a * 1000 < q * 4294967296 + 4294967296 :=
      ⟨by omega, by omega⟩
    have hright : q * 4294967296 ≤ b * 1000 ∧ b * 1000 < q * 4294967296 + 4294967296 :=
      ⟨by omega, by omega⟩
    rw [UInt32.le_iff_toNat_le, ofCount_ioGettimer (by omega), ofCount_ioGettimer (by omega), mod_eq_sub hleft,
      mod_eq_sub hright]
    exact Nat.div_le_div_right (Nat.sub_le_sub_right (Nat.mul_le_mul_right 1000 hab) _)

/-! ## Waiting -/

/-- `wait(ms)` called at `t` ends within `ms/10 + 1` interrupts, and not before `ms` milliseconds. -/
def WaitEnds (t : Timer) (second : Nat → UInt8) (ms : UInt32) : Prop :=
  (∃ n ≤ ms.toNat / 10 + 1, t.waiting (t.after second n) ms = false) ∧
    ∀ n, 10 * n < ms.toNat → t.waiting (t.after second n) ms = true

/-- The interrupts that `ms` milliseconds take. -/
def waitTicks (ms : UInt32) : Nat := (ms.toNat + 9) / 10

/-- The product of the count does not wrap around during the wait. -/
def NoWrap (t : Timer) (ms : UInt32) : Prop := t.clockInts.toNat * 1000 % 4294967296 + 1000 * waitTicks ms < 4294967296

theorem waiting_iff {t : Timer} (h : t.Calibrated) (second : Nat → UInt8) {ms : UInt32} (hms : ms.toNat < 1048576) (n : Nat) :
    t.waiting (t.after second n) ms = true ↔
      (t.clockInts.toNat * 1000 % 4294967296 + 1000 * n) % 4294967296 / 100 <
        t.clockInts.toNat * 1000 % 4294967296 / 100 + ms.toNat := by
  have hfinish : (t.ioGettimer + ms).toNat = t.clockInts.toNat * 1000 % 4294967296 / 100 + ms.toNat := by
    rw [UInt32.toNat_add, ioGettimer_toNat h.rate]
    exact Nat.mod_eq_of_lt (by omega)
  simp only [waiting, decide_eq_true_eq]
  rw [UInt32.lt_iff_toNat_lt, after_ioGettimer h, hfinish]

/-- A wait ends in time, and not early, exactly when the product does not wrap around during it. -/
theorem waitEnds_iff {t : Timer} (h : t.Calibrated) (second : Nat → UInt8) {ms : UInt32} (hms : ms.toNat < 1048576) :
    t.WaitEnds second ms ↔ t.NoWrap ms := by
  unfold WaitEnds NoWrap waitTicks
  simp only [← Bool.not_eq_true, waiting_iff h second hms]
  generalize t.clockInts.toNat * 1000 = product
  have hr : product % 4294967296 < 4294967296 := Nat.mod_lt _ (by decide)
  generalize product % 4294967296 = r at *
  generalize ms.toNat = k at *
  constructor
  · rintro ⟨⟨n, hn, hend⟩, -⟩
    by_contra hwrap
    apply hend
    by_cases hbefore : r + 1000 * n < 4294967296
    · rw [Nat.mod_eq_of_lt hbefore]
      omega
    · have hmod : (r + 1000 * n) % 4294967296 = r + 1000 * n - 4294967296 := by omega
      rw [hmod]
      omega
  · intro hwrap
    refine ⟨⟨(k + 9) / 10, by omega, ?_⟩, fun n hn => ?_⟩
    · rw [Nat.mod_eq_of_lt hwrap]
      omega
    · have hbefore : r + 1000 * n < 4294967296 := by omega
      rw [Nat.mod_eq_of_lt hbefore]
      omega

end Timer

open Timer

/-- After calibration, the time does not go back over a range of counts exactly when the product of the count does not wrap around
in it; and for every `ms` below 2^20 a wait ends in time and not early exactly when the product does not wrap around during it. -/
theorem timer_monotone_wait (count count' : Nat) (t : Timer) (second : Nat → UInt8) (ms : UInt32) :
    (count ≤ count' → count' < 4294967296 →
      ((∀ a b, count ≤ a → a ≤ b → b ≤ count' → (Timer.ofCount a).ioGettimer ≤ (Timer.ofCount b).ioGettimer) ↔
        SamePeriod count count')) ∧
    (t.Calibrated → ms.toNat < 1048576 → (t.WaitEnds second ms ↔ t.NoWrap ms)) :=
  ⟨fun hle hlt => monotone_iff hle hlt, fun h hms => waitEnds_iff h second hms⟩

theorem timer_monotone_wait_second :
    (Timer.ofCount 100).WaitEnds (fun _ => 3) 1000 ↔ (Timer.ofCount 100).NoWrap 1000 :=
  (timer_monotone_wait 0 0 (Timer.ofCount 100) (fun _ => 3) 1000).2 ⟨rfl, by decide, by decide, by decide⟩ (by decide)

/-- The last count before the product wraps around: the time goes back, and a wait of a second does not end in time. -/
theorem timer_wraps :
    ¬((∀ a b : Nat, a ≤ b → b < 4294967296 → (Timer.ofCount a).ioGettimer ≤ (Timer.ofCount b).ioGettimer) ∧
      ∀ (t : Timer) (second : Nat → UInt8) (ms : UInt32), t.Calibrated → ms.toNat < 1048576 → t.WaitEnds second ms) ∧
    (Timer.ofCount 4294967).ioGettimer = 42949670 ∧ (Timer.ofCount 4294968).ioGettimer = 7 ∧
    ¬(Timer.ofCount 4294967).WaitEnds (fun _ => 3) 1000 := by
  have hbefore : (Timer.ofCount 4294967).ioGettimer = 42949670 := by decide
  have hafter : (Timer.ofCount 4294968).ioGettimer = 7 := by decide
  refine ⟨fun h => ?_, hbefore, hafter, ?_⟩
  · have hle := h.1 4294967 4294968 (by decide) (by decide)
    rw [hbefore, hafter] at hle
    exact absurd hle (by decide)
  · rw [waitEnds_iff ⟨rfl, by decide, by decide, by decide⟩ _ (by decide)]
    unfold NoWrap
    decide

end NanoS32
