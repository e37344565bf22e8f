import NanoS32.Lib.Numeral
import NanoS32.Nas.Token

/-!
# Numbers as text

`sisu` and `stou` know the digits of a number by two bounds. The characters between the digits and the letters are taken for the
digits 3 to 9; for every other character that `sisu` accepts, `stou` reads the digit that it is.
-/

namespace NanoS32

open Numeral (value charDigit IsDigit)

/-! ## The digits of `stou` -/

/-- A character of `':'` to `'@'`. -/
def BetweenDigits (ch : UInt8) : Prop := 58 ≤ ch ∧ ch ≤ 64

instance (ch : UInt8) : Decidable (BetweenDigits ch) := inferInstanceAs (Decidable (_ ∧ _))

/-- What `stou` takes for a digit is one, which it reads, or is between the digits and the letters. -/
theorem stouDigit_spec (ch : UInt8) : (stouDigit ch < 10 ↔ IsDigit 10 ch ∨ BetweenDigits ch) ∧
    (stouDigit ch < 16 ↔ IsDigit 16 ch ∨ BetweenDigits ch) ∧ (IsDigit 16 ch → charDigit ch = some (stouDigit ch)) ∧
    (BetweenDigits ch → ¬IsDigit 16 ch) := by
  have hall : ∀ n ∈ List.range 256, (stouDigit (UInt8.ofNat n) < 10 ↔ IsDigit 10 (UInt8.ofNat n) ∨ BetweenDigits (UInt8.ofNat n)) ∧
      (stouDigit (UInt8.ofNat n) < 16 ↔ IsDigit 16 (UInt8.ofNat n) ∨ BetweenDigits (UInt8.ofNat n)) ∧
      (IsDigit 16 (UInt8.ofNat n) → charDigit (UInt8.ofNat n) = some (stouDigit (UInt8.ofNat n))) ∧
      (BetweenDigits (UInt8.ofNat n) → ¬IsDigit 16 (UInt8.ofNat n)) := by
    decide +kernel
  have h := hall ch.toNat (List.mem_range.2 ch.toNat_lt)
  rwa [UInt8.ofNat_toNat] at h

theorem isDigit_mono {b b' : Nat} (hb : b ≤ b') {ch : UInt8} (h : IsDigit b ch) : IsDigit b' ch := by
  obtain ⟨d, hd, hch⟩ := h
  exact ⟨d, Nat.lt_of_lt_of_le hd hb, hch⟩

/-- The loop of `sisu` accepts digits, and characters between the digits and the letters. -/
theorem sisuLoop_eq_true {b : Nat} (hb : b = 10 ∨ b = 16) : ∀ s : CStr, sisuLoop b s = true ↔
    ∀ ch ∈ s, IsDigit b ch ∨ BetweenDigits ch := by
  intro s
  induction s with
  | nil => exact iff_of_true rfl fun ch h => absurd h List.not_mem_nil
  | cons ch s ih =>
    have hdigit : stouDigit ch < b ↔ IsDigit b ch ∨ BetweenDigits ch := by
      rcases hb with rfl | rfl
      · exact (stouDigit_spec ch).1
      · exact (stouDigit_spec ch).2.1
    rw [sisuLoop, List.forall_mem_cons, ← hdigit]
    split_ifs with h
    · exact iff_of_false not_false fun hch => Nat.not_le_of_lt hch.1 h
    · exact ih.trans (and_iff_right (Nat.lt_of_not_le h)).symm

/-- On digits, `stou` reads the number that they denote, modulo `2 ^ 32`. -/
theorem stouLoop_eq {b : Nat} (hb : b ≤ 16) {s : CStr} (hs : ∀ ch ∈ s, IsDigit b ch) :
    stouLoop b s 0 = value b (s.map fun ch => (charDigit ch).getD 0) % 4294967296 := by
  have hfold : ∀ (s : CStr) (v : Nat), stouLoop b s v = s.foldl (fun v ch => (v * b + stouDigit ch) % 4294967296) v := by
    intro s
    induction s with
    | nil => exact fun v => rfl
    | cons ch s ih => exact fun v => ih _
  rw [hfold, Numeral.foldl_mod]
  congr 2
  refine List.map_congr_left fun ch hch => ?_
  rw [(stouDigit_spec ch).2.2.1 (isDigit_mono hb (hs ch hch))]
  rfl

/-! ## Recognising a number -/

/-- A string in the syntax of numbers: its base, and its digits. -/
def numeralOf (s : CStr) : Nat × CStr :=
  match s with
  | 48 :: 120 :: ch :: digits => (16, ch :: digits)
  | digits => (10, digits)

/-- The number that a string denotes: decimal digits, or `0x` and hexadecimal digits. -/
def denote (s : CStr) : Option Nat := Numeral.read (numeralOf s).1 (numeralOf s).2

/-- `sisu` accepts just the numbers, and `stou` reads them. -/
def NumberExact (s : CStr) : Prop :=
  (sisu s = true ↔ ∃ n, denote s = some n) ∧ (sisu s = true → ∃ n, denote s = some n ∧ stou s = n % 2 ^ 32)

/-- Digits, but with characters of `':'` to `'@'` in the place of some of them. -/
def Misspelt (s : CStr) : Prop :=
  (∀ ch ∈ (numeralOf s).2, IsDigit (numeralOf s).1 ch ∨ BetweenDigits ch) ∧ ∃ ch ∈ (numeralOf s).2, BetweenDigits ch

/-- `sisu` takes the digits after the base, one or more, and characters between the digits and the letters with them. -/
theorem sisu_eq_true (s : CStr) : sisu s = true ↔
    (numeralOf s).2 ≠ [] ∧ ∀ ch ∈ (numeralOf s).2, IsDigit (numeralOf s).1 ch ∨ BetweenDigits ch := by
  unfold sisu numeralOf
  split
  · exact iff_of_false Bool.false_ne_true fun h => h.1 rfl
  · exact (sisuLoop_eq_true (Or.inr rfl) _).trans (and_iff_right (List.cons_ne_nil _ _)).symm
  · next hnil hhex =>
    split
    · exact absurd rfl (hhex _ _)
    · exact (sisuLoop_eq_true (Or.inl rfl) _).trans (and_iff_right hnil).symm

/-- `stou` on a string of digits. -/
theorem stou_eq {s : CStr} (hs : ∀ ch ∈ (numeralOf s).2, IsDigit (numeralOf s).1 ch) (hne : (numeralOf s).2 ≠ []) :
    stou s = value (numeralOf s).1 ((numeralOf s).2.map fun ch => (charDigit ch).getD 0) % 4294967296 := by
  unfold numeralOf at hs hne ⊢
  split at hs
  · exact stouLoop_eq (Nat.le_refl 16) hs
  · next hhex =>
    unfold stou
    split
    · next src =>
      cases src with
      | nil => exact absurd (hs 120 (by decide)) (by decide)
      | cons ch src => exact absurd rfl (hhex ch src)
    · exact stouLoop_eq (by decide) hs

theorem denote_eq_some {s : CStr} {n : Nat} : denote s = some n ↔
    ((numeralOf s).2 ≠ [] ∧ ∀ ch ∈ (numeralOf s).2, IsDigit (numeralOf s).1 ch) ∧
      n = value (numeralOf s).1 ((numeralOf s).2.map fun ch => (charDigit ch).getD 0) := Numeral.read_eq_some

/-- `sisu` recognises a number and `stou` reads it, but for the strings that have a character of `':'` to `'@'` for a digit. -/
theorem sisu_stou (s : CStr) : NumberExact s ↔ ¬Misspelt s := by
  have hbase : ∀ ch, IsDigit (numeralOf s).1 ch → BetweenDigits ch → False := by
    intro ch hd hch
    have hle : (numeralOf s).1 ≤ 16 := by
      unfold numeralOf
      split
      · exact Nat.le_refl 16
      · exact Nat.le_add_right 10 6
    exact (stouDigit_spec ch).2.2.2 hch (isDigit_mono hle hd)
  unfold NumberExact
  constructor
  · rintro ⟨hsisu, -⟩ ⟨hall, ch, hch, hbetween⟩
    obtain ⟨n, hn⟩ := hsisu.1 ((sisu_eq_true s).2 ⟨List.ne_nil_of_mem hch, hall⟩)
    exact hbase ch ((denote_eq_some.1 hn).1.2 ch hch) hbetween
  · intro hspelt
    have hdigits : sisu s = true → (numeralOf s).2 ≠ [] ∧ ∀ ch ∈ (numeralOf s).2, IsDigit (numeralOf s).1 ch := by
      intro h
      obtain ⟨hne, hall⟩ := (sisu_eq_true s).1 h
      exact ⟨hne, fun ch hch => (hall ch hch).resolve_right fun hb => hspelt ⟨hall, ch, hch, hb⟩⟩
    refine ⟨⟨fun h => ⟨_, denote_eq_some.2 ⟨hdigits h, rfl⟩⟩, ?_⟩, fun h => ⟨_, denote_eq_some.2 ⟨hdigits h, rfl⟩, ?_⟩⟩
    · rintro ⟨n, hn⟩
      obtain ⟨⟨hne, hall⟩, -⟩ := denote_eq_some.1 hn
      exact (sisu_eq_true s).2 ⟨hne, fun ch hch => Or.inl (hall ch hch)⟩
    · exact stou_eq (hdigits h).2 (hdigits h).1

/-- A colon is taken for the digit 3. -/
theorem sisu_colon : ¬NumberExact [58] := by
  rintro ⟨hsisu, -⟩
  obtain ⟨n, hn⟩ := hsisu.1 (by decide)
  have hnone : denote [58] = none := by decide
  rw [hnone] at hn
  exact absurd hn (Option.some_ne_none n).symm

end NanoS32
