import Mathlib.Data.BitVec
import Mathlib.Logic.Function.Iterate

/-!
# Cyclic redundancy checks

A register of `w` bits that is divided by a polynomial, lowest bit first. The message enters one bit at a time (`Crc.feed`), and
what a table adds is that several bits can enter at once: a step is linear in exclusive or, and a register whose low bits are
clear only moves down, so the steps of a register are those of its low bits, looked up, and a shift of the rest.
-/

namespace Crc

variable {w : Nat}

/-- One step of the division by the polynomial `P`. -/
def step (P v : BitVec w) : BitVec w := if v.getLsbD 0 then (v >>> 1) ^^^ P else v >>> 1

/-- The register with bit `b` as its lowest bit, all others clear. -/
def bit (w : Nat) (b : Bool) : BitVec w := (BitVec.ofBool b).setWidth w

/-- One bit of the message enters the register. -/
def feed (P v : BitVec w) (b : Bool) : BitVec w := step P (v ^^^ bit w b)

/-- The register after a message, which is a list of bits. -/
def run (P v : BitVec w) (message : List Bool) : BitVec w := message.foldl (feed P) v

/-- The register that holds a list of bits, lowest bit first. -/
def ofBits (w : Nat) : List Bool → BitVec w
  | [] => 0
  | b :: bits => bit w b ^^^ (ofBits w bits <<< 1)

/-! ## One step -/

theorem xor_poly_cancel (x y P : BitVec w) : x ^^^ P ^^^ (y ^^^ P) = x ^^^ y := by
  rw [BitVec.xor_assoc, ← BitVec.xor_assoc P, BitVec.xor_comm P y, BitVec.xor_assoc y, BitVec.xor_self, BitVec.xor_zero]

/-- A step is linear in exclusive or. -/
theorem step_xor (P x y : BitVec w) : step P (x ^^^ y) = step P x ^^^ step P y := by
  unfold step
  rw [BitVec.getLsbD_xor, BitVec.ushiftRight_xor_distrib]
  cases hx : x.getLsbD 0
  · cases hy : y.getLsbD 0
    · rfl
    · exact BitVec.xor_assoc _ _ _
  · cases hy : y.getLsbD 0
    · exact (BitVec.xor_assoc _ _ _).trans ((congrArg _ (BitVec.xor_comm _ _)).trans (BitVec.xor_assoc _ _ _).symm)
    · exact (xor_poly_cancel _ _ P).symm

/-- Many steps are. -/
theorem iterate_step_xor (P : BitVec w) (n : Nat) (x y : BitVec w) :
    (step P)^[n] (x ^^^ y) = (step P)^[n] x ^^^ (step P)^[n] y := by
  induction n generalizing x y with
  | zero => rfl
  | succ n ih => rw [Function.iterate_succ_apply, Function.iterate_succ_apply, Function.iterate_succ_apply, step_xor, ih]

/-- A register whose low `n` bits are clear only moves down. -/
theorem iterate_step_of_clear (P : BitVec w) (n : Nat) {v : BitVec w} (h : ∀ i < n, v.getLsbD i = false) :
    (step P)^[n] v = v >>> n := by
  induction n with
  | zero => exact (BitVec.ushiftRight_zero v).symm
  | succ n ih =>
    have hlow : (v >>> n).getLsbD 0 = false := by
      rw [BitVec.getLsbD_ushiftRight]
      exact h n (Nat.lt_succ_self n)
    rw [Function.iterate_succ_apply', ih fun i hi => h i (Nat.lt_succ_of_lt hi), step, hlow, if_neg Bool.false_ne_true,
      BitVec.shiftRight_add]

/-- The low `n` bits of a register, in a register of the same width. -/
def low (n : Nat) (v : BitVec w) : BitVec w := (v.setWidth n).setWidth w

theorem getLsbD_low (n : Nat) (v : BitVec w) (i : Nat) : (low n v).getLsbD i = (decide (i < n) && v.getLsbD i) := by
  rw [low, BitVec.getLsbD_setWidth, BitVec.getLsbD_setWidth]
  by_cases hi : i < w
  · rw [decide_eq_true hi, Bool.true_and]
  · rw [BitVec.getLsbD_of_ge v i (Nat.le_of_not_lt hi), Bool.and_false, Bool.and_false]

/-- The step of a table: `n` steps of a register are those of its low `n` bits, and a shift of the others. -/
theorem iterate_step_table (P : BitVec w) (n : Nat) (v : BitVec w) :
    (step P)^[n] v = (step P)^[n] (low n v) ^^^ (v >>> n) := by
  have hsplit : v = low n v ^^^ (v ^^^ low n v) := by
    rw [BitVec.xor_comm v, ← BitVec.xor_assoc, BitVec.xor_self, BitVec.zero_xor]
  have hclear : ∀ i < n, (v ^^^ low n v).getLsbD i = false := by
    intro i hi
    rw [BitVec.getLsbD_xor, getLsbD_low, decide_eq_true hi, Bool.true_and, Bool.xor_self]
  have hhigh : (v ^^^ low n v) >>> n = v >>> n := by
    apply BitVec.eq_of_getLsbD_eq
    intro i _
    have hge : ¬n + i < n := by omega
    rw [BitVec.getLsbD_ushiftRight, BitVec.getLsbD_ushiftRight, BitVec.getLsbD_xor, getLsbD_low, decide_eq_false hge,
      Bool.false_and, Bool.xor_false]
  have hxor := iterate_step_xor P n (low n v) (v ^^^ low n v)
  rw [← hsplit, iterate_step_of_clear P n hclear, hhigh] at hxor
  exact hxor

/-! ## Messages -/

theorem run_append (P v : BitVec w) (bits bits' : List Bool) : run P v (bits ++ bits') = run P (run P v bits) bits' :=
  List.foldl_append

theorem getLsbD_ofBits (bits : List Bool) (i : Nat) :
    (ofBits w bits).getLsbD i = (decide (i < w) && bits.getD i false) := by
  induction bits generalizing i with
  | nil => simp [ofBits]
  | cons b bits ih =>
    rw [ofBits, BitVec.getLsbD_xor, bit, BitVec.getLsbD_setWidth, BitVec.getLsbD_shiftLeft, ih]
    cases i with
    | zero => cases b <;> simp
    | succ i =>
      by_cases hi : i + 1 < w
      · have hi' : i < w := by omega
        simp [hi, hi']
      · simp [hi]

/-- Bits that fit in the register can enter it at once. -/
theorem run_eq_iterate (P : BitVec w) : ∀ (bits : List Bool) (v : BitVec w), bits.length ≤ w →
    run P v bits = (step P)^[bits.length] (v ^^^ ofBits w bits) := by
  intro bits
  induction bits with
  | nil => exact fun v _ => (BitVec.xor_zero (x := v)).symm
  | cons b bits ih =>
    intro v hw
    rw [List.length_cons] at hw
    -- the rest of the message moves down with the first step
    have hrest : step P (ofBits w bits <<< 1) = ofBits w bits := by
      have hclear : ∀ i < 1, (ofBits w bits <<< 1).getLsbD i = false := by
        intro i hi
        rw [Nat.lt_one_iff.1 hi]
        simp
      rw [← Function.iterate_one (step P), iterate_step_of_clear P 1 hclear]
      apply BitVec.eq_of_getLsbD_eq
      intro i hi
      rw [BitVec.getLsbD_ushiftRight, BitVec.getLsbD_shiftLeft, getLsbD_ofBits, getLsbD_ofBits]
      by_cases hlen : i < bits.length
      · have hi' : 1 + i < w := by omega
        simp [hi', hi]
      · simp [List.getElem?_eq_none (Nat.le_of_not_lt hlen)]
    rw [List.length_cons, Function.iterate_succ_apply, ofBits, ← BitVec.xor_assoc, step_xor, hrest]
    exact ih (feed P v b) (by omega)

end Crc
