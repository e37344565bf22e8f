import Mathlib.Data.Nat.Digits.Lemmas

/-!
# Numerals

Lists of digits in a base, the highest digit first, as a number is written: the number that digits denote, the digits of a number,
with leading zeros where a width is asked for, and the text of digits in ASCII, which is read in either case.
-/

namespace Numeral

/-! ## Values -/

/-- The number that digits denote in a base. -/
def value (b : Nat) (ds : List Nat) : Nat := Nat.ofDigits b ds.reverse

theorem value_nil (b : Nat) : value b [] = 0 := Nat.ofDigits_nil

theorem value_append (b : Nat) (ds es : List Nat) : value b (ds ++ es) = value b ds * b ^ es.length + value b es := by
  rw [value, List.reverse_append, Nat.ofDigits_append, List.length_reverse, Nat.add_comm, Nat.mul_comm]
  rfl

theorem value_concat (b : Nat) (ds : List Nat) (d : Nat) : value b (ds ++ [d]) = value b ds * b + d := by
  rw [value_append, List.length_singleton, Nat.pow_one, value, value, List.reverse_singleton, Nat.ofDigits_singleton]

/-- Leading zeros do not count. -/
theorem value_leftpad (b w : Nat) (ds : List Nat) : value b (ds.leftpad w 0) = value b ds := by
  rw [List.leftpad, value, List.reverse_append, List.reverse_replicate, Nat.ofDigits_append_replicate_zero]
  rfl

/-- Reading the digits one by one, with what is above a modulus dropped at each of them, drops it from the number. -/
theorem foldl_mod {α : Type} (b m : Nat) (f : α → Nat) (l : List α) :
    l.foldl (fun v a => (v * b + f a) % m) 0 = value b (l.map f) % m := by
  induction l using List.reverseRecOn with
  | nil => exact (Nat.zero_mod m).symm
  | append_singleton l a ih =>
    rw [List.foldl_append, ih, List.map_append, List.map_singleton, value_concat, List.foldl_cons, List.foldl_nil, Nat.add_mod,
      Nat.mul_mod, Nat.mod_mod, ← Nat.mul_mod, ← Nat.add_mod]

/-! ## Digits -/

/-- The digits of a number, at least one. -/
def digits (b v : Nat) : List Nat := if v = 0 then [0] else (Nat.digits b v).reverse

/-- The digits of a number, with zeros before them up to a width. -/
def padded (b w v : Nat) : List Nat := (digits b v).leftpad w 0

theorem value_digits (b v : Nat) : value b (digits b v) = v := by
  unfold digits
  split_ifs with h
  · rw [value, List.reverse_singleton, Nat.ofDigits_singleton, h]
  · rw [value, List.reverse_reverse, Nat.ofDigits_digits]

theorem value_padded (b w v : Nat) : value b (padded b w v) = v := by rw [padded, value_leftpad, value_digits]

variable {b : Nat}

theorem digits_lt (hb : 1 < b) {v d : Nat} (h : d ∈ digits b v) : d < b := by
  unfold digits at h
  split_ifs at h
  · rw [List.mem_singleton.1 h]
    exact Nat.lt_of_succ_lt hb
  · exact Nat.digits_lt_base hb (List.mem_reverse.1 h)

theorem padded_lt (hb : 1 < b) {w v d : Nat} (h : d ∈ padded b w v) : d < b := by
  rcases List.mem_append.1 h with hz | hd
  · rw [(List.mem_replicate.1 hz).2]
    exact Nat.lt_of_succ_lt hb
  · exact digits_lt hb hd

theorem digits_ne_nil (b v : Nat) : digits b v ≠ [] := by
  unfold digits
  split_ifs with h
  · exact List.cons_ne_nil 0 []
  · rw [Ne, List.reverse_eq_nil_iff]
    exact Nat.digits_ne_nil_iff_ne_zero.2 h

theorem length_padded (b w v : Nat) : (padded b w v).length = max w (digits b v).length := List.length_leftpad

/-- A number below a power of the base has at most as many digits. -/
theorem length_digits_le (hb : 1 < b) {v k : Nat} (hk : 0 < k) (hv : v < b ^ k) : (digits b v).length ≤ k := by
  unfold digits
  split_ifs
  · exact hk
  · rw [List.length_reverse]
    exact (Nat.digits_length_le_iff hb v).2 hv

/-- The last digit is the remainder, and the others are the digits of the quotient. -/
theorem digits_step (hb : 1 < b) (v : Nat) : digits b v = if v / b ≠ 0 then digits b (v / b) ++ [v % b] else [v % b] := by
  by_cases hv : v = 0
  · rw [hv, Nat.zero_div, if_neg (not_not.2 rfl), Nat.zero_mod]
    rfl
  · rw [digits, if_neg hv, Nat.digits_def' hb (Nat.pos_of_ne_zero hv), List.reverse_cons]
    split_ifs with hq
    · rw [digits, if_neg hq]
    · rw [not_not.1 hq, Nat.digits_zero]
      rfl

/-- The digits up to a width, by repeated division. -/
theorem padded_step (hb : 1 < b) (w v : Nat) :
    padded b w v = if v / b ≠ 0 ∨ 1 < w then padded b (w - 1) (v / b) ++ [v % b] else [v % b] := by
  have hconcat : ∀ ds : List Nat, (ds ++ [v % b]).leftpad w 0 = ds.leftpad (w - 1) 0 ++ [v % b] := fun ds => by
    rw [List.leftpad, List.leftpad, List.length_append, List.length_singleton, Nat.sub_add_eq, Nat.sub_right_comm,
      List.append_assoc]
  rw [padded, digits_step hb]
  by_cases hq : v / b ≠ 0
  · rw [if_pos hq, if_pos (Or.inl hq), hconcat]
    rfl
  · rw [if_neg hq]
    have hnil := hconcat []
    rw [List.nil_append] at hnil
    rw [hnil]
    split_ifs with hw
    · have hw1 : 1 < w := hw.resolve_left hq
      obtain ⟨k, rfl⟩ : ∃ k, w = k + 2 := ⟨w - 2, by omega⟩
      rw [not_not.1 hq, padded, digits, if_pos rfl]
      congr 1
      exact (List.append_nil _).trans List.replicate_succ'
    · have hw0 : w - 1 = 0 := by omega
      rw [hw0]
      rfl

/-! ## Text -/

/-- The digit that a character of ASCII stands for, letters of either case being digits from 10 on. -/
def charDigit (ch : UInt8) : Option Nat :=
  if 48 ≤ ch ∧ ch ≤ 57 then some (ch.toNat - 48)
  else if 65 ≤ ch ∧ ch ≤ 90 then some (ch.toNat - 55)
  else if 97 ≤ ch ∧ ch ≤ 122 then some (ch.toNat - 87)
  else none

/-- The character is a digit in the base. -/
def IsDigit (b : Nat) (ch : UInt8) : Prop := ∃ d < b, charDigit ch = some d

instance (b : Nat) (ch : UInt8) : Decidable (IsDigit b ch) :=
  decidable_of_iff (∃ d ∈ charDigit ch, d < b) ⟨fun ⟨d, hd, hlt⟩ => ⟨d, hlt, hd⟩, fun ⟨d, hlt, hd⟩ => ⟨d, hd, hlt⟩⟩

/-- The number that a text denotes in a base: it is not empty, and its characters are digits. -/
def read (b : Nat) (s : List UInt8) : Option Nat :=
  if s ≠ [] ∧ s.all fun ch => IsDigit b ch then some (value b (s.map fun ch => (charDigit ch).getD 0)) else none

theorem read_eq_some {s : List UInt8} {n : Nat} :
    read b s = some n ↔ (s ≠ [] ∧ ∀ ch ∈ s, IsDigit b ch) ∧ n = value b (s.map fun ch => (charDigit ch).getD 0) := by
  have hall : (s.all fun ch => IsDigit b ch) = true ↔ ∀ ch ∈ s, IsDigit b ch := by
    rw [List.all_eq_true]
    exact forall₂_congr fun ch _ => decide_eq_true_iff
  unfold read
  rw [← hall]
  split_ifs with h
  · rw [Option.some.injEq, eq_comm]
    exact (and_iff_right h).symm
  · exact iff_of_false (by simp) fun hn => h hn.1

/-- A digit as a character, letters in upper case. -/
def digitChar (d : Nat) : UInt8 := if d ≤ 9 then UInt8.ofNat (48 + d) else UInt8.ofNat (55 + d)

theorem charDigit_digitChar {d : Nat} (h : d < 36) : charDigit (digitChar d) = some d := by
  revert d
  decide

/-- A text of digits denotes the number that the digits denote. -/
theorem read_map (hb : b ≤ 36) {ds : List Nat} (hne : ds ≠ []) (hds : ∀ d ∈ ds, d < b) :
    read b (ds.map digitChar) = some (value b ds) := by
  have hchar : ∀ d ∈ ds, charDigit (digitChar d) = some d := fun d hd => charDigit_digitChar (Nat.lt_of_lt_of_le (hds d hd) hb)
  rw [read_eq_some, List.map_map]
  refine ⟨⟨fun h => hne (List.map_eq_nil_iff.1 h), fun ch hch => ?_⟩, ?_⟩
  · obtain ⟨d, hd, rfl⟩ := List.mem_map.1 hch
    exact ⟨d, hds d hd, hchar d hd⟩
  · congr 1
    refine (List.map_id ds).symm.trans (List.map_congr_left fun d hd => ?_)
    rw [Function.comp_apply, hchar d hd]
    rfl

/-- Writing a number with a width and reading it back. -/
theorem read_padded (h1 : 1 < b) (hb : b ≤ 36) (w v : Nat) : read b ((padded b w v).map digitChar) = some v := by
  have hne : padded b w v ≠ [] := fun h => digits_ne_nil b v (List.append_eq_nil_iff.1 h).2
  rw [read_map hb hne fun d hd => padded_lt h1 hd, value_padded]

end Numeral
