import NanoS32.Theorems.Numbers

/-!
# Formatting numbers

What `formatstr_putf` writes for `%u`, `%x` and `%d` with a width. The local array holds 23 digits: the loop is bounded by it while
there are digits left of the number, but not while there are digits left of the width.
-/

namespace NanoS32

open Numeral (value digits padded charDigit digitChar IsDigit)

/-- The number that a width denotes; no digits are 0. -/
def widthOf (width : CStr) : Nat := value 10 (width.map fun ch => (charDigit ch).getD 0)

/-- The value of a 32-bit number with a sign. -/
def signed32 (v : Nat) : Int := if v < 2 ^ 31 then v else v - 2 ^ 32

/-- The text of a number in a base, with zeros before it up to a width. -/
def paddedText (base w v : Nat) : CStr := (padded base w v).map digitChar

/-- Inside any format, `%`, the width and the conversion character put this text for the argument. -/
def Puts (width : CStr) (conv : UInt8) (v : Nat) (out : CStr) : Prop :=
  ∀ (fuel : Nat) (rest : CStr) (args : List FormatArg) (count : Nat),
    formatPutf (fuel + 1) (37 :: (width ++ conv :: rest)) (.num v :: args) count =
      out ++ formatPutf fuel rest args (count + out.length)

/-- The conversions of numbers do what they are for, with this width and argument. -/
structure FormatsNumber (width : CStr) (v : Nat) : Prop where
  unsigned : Puts width 117 v (paddedText 10 (widthOf width) v)
  hex : Puts width 120 v (48 :: 120 :: paddedText 16 (if widthOf width = 0 then 8 else widthOf width) v)
  signed : Puts width 100 v ((if signed32 v < 0 then [45] else []) ++ paddedText 10 (widthOf width) (signed32 v).natAbs)
  readUnsigned : ∀ out, Puts width 117 v out → stou out = v
  readHex : ∀ out, Puts width 120 v out → stou out = v
  inside : ∀ conv ∈ [(100 : UInt8), 117, 120], ∀ write ∈ formatWrites conv (formatWidth (width ++ [conv]) 0).1 v,
    0 ≤ write.1 ∧ write.1 < 24

/-! ## The width -/

/-- The decimal digits are one range of characters. -/
theorem isDigit_range {ch : UInt8} (h : IsDigit 10 ch) : 48 ≤ ch ∧ ch ≤ 57 := by
  obtain ⟨d, hd, hch⟩ := h
  unfold charDigit at hch
  split_ifs at hch with hdec hupper hlower
  · exact hdec
  · have hd' := Option.some.inj hch
    have hge := UInt8.le_iff_toNat_le.1 hupper.1
    have : (65 : UInt8).toNat = 65 := rfl
    omega
  · have hd' := Option.some.inj hch
    have hge := UInt8.le_iff_toNat_le.1 hlower.1
    have : (97 : UInt8).toNat = 97 := rfl
    omega

/-- The width that is read, modulo `2 ^ 32`. -/
theorem formatWidth_eq {conv : UInt8} (hconv : ¬(48 ≤ conv ∧ conv ≤ 57)) (rest : CStr) : ∀ {width : CStr} (n : Nat),
    (∀ ch ∈ width, IsDigit 10 ch) → formatWidth (width ++ conv :: rest) n =
      (width.foldl (fun n ch => (n * 10 + (charDigit ch).getD 0) % 4294967296) n, conv :: rest) := by
  intro width
  induction width with
  | nil =>
    intro n _
    rw [List.nil_append, formatWidth, if_neg hconv]
    rfl
  | cons ch width ih =>
    intro n h
    obtain ⟨hch, hwidth⟩ := List.forall_mem_cons.1 h
    have hrange := isDigit_range hch
    have hdigit : charDigit ch = some (ch.toNat - 48) := by rw [charDigit, if_pos hrange]
    rw [List.cons_append, formatWidth, if_pos hrange, ih _ hwidth, List.foldl_cons, hdigit]
    rfl

/-! ## The digits -/

theorem formatDigit_eq (d : Nat) : formatDigit d = digitChar d := by
  unfold formatDigit digitChar
  split_ifs with h
  · rfl
  · congr 1
    omega

/-- What the loop writes is what it puts, from the last place to the first. -/
theorem formatDigits_eq_writes (base nDigits : Nat) : ∀ fuel value n acc, formatDigits base nDigits fuel value n acc =
    ((digitWrites base nDigits fuel value n).map Prod.snd).reverse ++ acc := by
  intro fuel
  induction fuel with
  | zero => exact fun value n acc => rfl
  | succ fuel ih =>
    intro value n acc
    rw [formatDigits, digitWrites, List.map_cons, List.reverse_cons, List.append_assoc]
    split_ifs
    · exact ih _ _ _
    · rfl

/-- The loop puts the digits of the number, with zeros before them up to the width. -/
theorem formatDigits_eq {base nDigits : Nat} (hb : 1 < base) (hn : nDigits ≤ 23) : ∀ fuel value n acc, 0 < fuel →
    (digits base value).length ≤ fuel → nDigits - n ≤ fuel → n + (digits base value).length ≤ 23 →
    formatDigits base nDigits fuel value n acc = paddedText base (nDigits - n) value ++ acc := by
  intro fuel
  induction fuel with
  | zero => exact fun value n acc h => absurd h (Nat.lt_irrefl 0)
  | succ fuel ih =>
    intro value n acc _ hlen hwidth hroom
    have hsub : nDigits - (n + 1) = nDigits - n - 1 := Nat.sub_add_eq _ _ _
    rw [formatDigits, formatDigit_eq, paddedText, Numeral.padded_step hb]
    rw [Numeral.digits_step hb] at hlen hroom
    by_cases hq : value / base ≠ 0
    · rw [if_pos hq, List.length_append, List.length_singleton] at hlen hroom
      have hpos := List.length_pos_iff.2 (Numeral.digits_ne_nil base (value / base))
      rw [if_pos (Or.inl ⟨hq, by omega⟩), if_pos (Or.inl hq), ih _ _ _ (by omega) (by omega) (by omega) (by omega), hsub,
        List.map_append, List.append_assoc]
      rfl
    · by_cases hw : 1 < nDigits - n
      · have hone : (digits base (value / base)).length = 1 := by
          rw [not_not.1 hq]
          rfl
        rw [if_pos (Or.inr (by omega)), if_pos (Or.inr hw), ih _ _ _ (by omega) (by omega) (by omega) (by omega), hsub,
          List.map_append, List.append_assoc]
        rfl
      · rw [if_neg (by omega), if_neg (by omega)]
        rfl

/-- The places that the loop writes go down from the last but one, as many as there are digits. -/
theorem digitWrites_range {base nDigits : Nat} (hb : 1 < base) (hn : nDigits ≤ 23) : ∀ fuel value n,
    n + (digits base value).length ≤ 23 → n < 23 → ∀ write ∈ digitWrites base nDigits fuel value n, 0 ≤ write.1 ∧ write.1 < 24 := by
  intro fuel
  induction fuel with
  | zero => exact fun value n _ _ write h => absurd h List.not_mem_nil
  | succ fuel ih =>
    intro value n hroom hlt write hwrite
    rw [Numeral.digits_step hb] at hroom
    rw [digitWrites, List.mem_cons] at hwrite
    rcases hwrite with rfl | hwrite
    · exact ⟨by omega, by omega⟩
    · by_cases hq : value / base ≠ 0
      · rw [if_pos hq, List.length_append, List.length_singleton] at hroom
        have hpos := List.length_pos_iff.2 (Numeral.digits_ne_nil base (value / base))
        rw [if_pos (Or.inl ⟨hq, by omega⟩)] at hwrite
        exact ih _ _ (by omega) (by omega) write hwrite
      · have hone : (digits base (value / base)).length = 1 := by
          rw [not_not.1 hq]
          rfl
        split_ifs at hwrite with hmore
        · have hw : n + 1 < nDigits := hmore.resolve_left fun h => hq h.1
          exact ih _ _ (by omega) (by omega) write hwrite
        · exact absurd hwrite List.not_mem_nil

/-- A width from 24 on writes before the array. -/
theorem digitWrites_outside {nDigits : Nat} (hn : 24 ≤ nDigits) (base : Nat) : ∀ k fuel value n, n + k + 1 = 24 → k < fuel →
    ∃ write ∈ digitWrites base nDigits fuel value n, write.1 < 0 := by
  intro k
  induction k with
  | zero =>
    intro fuel value n hk hfuel
    obtain ⟨fuel, rfl⟩ : ∃ f, fuel = f + 1 := ⟨fuel - 1, by omega⟩
    exact ⟨_, List.mem_cons_self, by simp only; omega⟩
  | succ k ih =>
    intro fuel value n hk hfuel
    obtain ⟨fuel, rfl⟩ : ∃ f, fuel = f + 1 := ⟨fuel - 1, by omega⟩
    obtain ⟨write, hwrite, hneg⟩ := ih fuel (value / base) (n + 1) (by omega) (by omega)
    refine ⟨write, ?_, hneg⟩
    rw [digitWrites, if_pos (Or.inr (by omega))]
    exact List.mem_cons_of_mem _ hwrite

/-- A 32-bit number has at most ten digits, and eight in base 16. -/
theorem length_digits_word {v : Nat} (hv : v < 2 ^ 32) : (digits 10 v).length ≤ 10 ∧ (digits 16 v).length ≤ 8 :=
  ⟨Numeral.length_digits_le (by decide) (by decide) (Nat.lt_of_lt_of_le hv (by decide)),
    Numeral.length_digits_le (by decide) (by decide) (Nat.lt_of_lt_of_le hv (by decide))⟩

section Conversion

variable {width : CStr} {v : Nat}

/-! ## The conversions -/

/-- The width that `formatstr_putf` reads. -/
theorem formatWidth_width (hwidth : ∀ ch ∈ width, IsDigit 10 ch) {conv : UInt8} (hconv : ¬(48 ≤ conv ∧ conv ≤ 57)) (rest : CStr) :
    formatWidth (width ++ conv :: rest) 0 = (widthOf width % 2 ^ 32, conv :: rest) := by
  rw [formatWidth_eq hconv rest 0 hwidth, Numeral.foldl_mod]
  rfl

/-- A conversion that puts the same text after any number of characters. -/
theorem puts_of_conversion (hwidth : ∀ ch ∈ width, IsDigit 10 ch) {conv : UInt8} (hconv : ¬(48 ≤ conv ∧ conv ≤ 57)) {out : CStr}
    (hout : ∀ count, formatConversion conv (widthOf width % 2 ^ 32) count (.num v) = some out) : Puts width conv v out := by
  intro fuel rest args count
  rw [formatPutf, if_pos rfl, formatWidth_width hwidth hconv]
  simp only [hout]

theorem Puts.unique {conv : UInt8} {out out' : CStr} (h : Puts width conv v out) (h' : Puts width conv v out') : out = out' := by
  have heq := (h 0 [] [] 0).symm.trans (h' 0 [] [] 0)
  rwa [formatPutf, formatPutf, List.append_nil, List.append_nil] at heq

/-- The text of a number is read back. -/
theorem numeral_paddedText (base : Nat) (h1 : 1 < base) (hb : base ≤ 36) (w v : Nat) :
    (paddedText base w v ≠ [] ∧ ∀ ch ∈ paddedText base w v, IsDigit base ch) ∧
      v = value base ((paddedText base w v).map fun ch => (charDigit ch).getD 0) :=
  Numeral.read_eq_some.1 (Numeral.read_padded h1 hb w v)

theorem stou_decimal (hv : v < 2 ^ 32) (w : Nat) : stou (paddedText 10 w v) = v := by
  obtain ⟨⟨hne, hdigits⟩, hval⟩ := numeral_paddedText 10 (by decide) (by decide) w v
  have hnum : numeralOf (paddedText 10 w v) = (10, paddedText 10 w v) := by
    unfold numeralOf
    split
    · next h =>
      rw [h] at hdigits
      exact absurd (hdigits 120 (by simp)) (by decide)
    · rfl
  have hread := stou_eq (s := paddedText 10 w v)
  rw [hnum] at hread
  rw [hread hdigits hne, ← hval]
  exact Nat.mod_eq_of_lt hv

theorem stou_hex (hv : v < 2 ^ 32) (w : Nat) : stou (48 :: 120 :: paddedText 16 w v) = v := by
  obtain ⟨⟨hne, hdigits⟩, hval⟩ := numeral_paddedText 16 (by decide) (by decide) w v
  have hloop := stouLoop_eq (Nat.le_refl 16) hdigits
  rw [← hval] at hloop
  exact hloop.trans (Nat.mod_eq_of_lt hv)

/-- The texts of the conversions, for a width that the array holds. -/
theorem puts_number (hwidth : ∀ ch ∈ width, IsDigit 10 ch) (hv : v < 2 ^ 32) (hn : widthOf width % 2 ^ 32 ≤ 23) :
    Puts width 117 v (paddedText 10 (widthOf width % 2 ^ 32) v) ∧
      Puts width 120 v (48 :: 120 :: paddedText 16 (if widthOf width % 2 ^ 32 = 0 then 8 else widthOf width % 2 ^ 32) v) ∧
      Puts width 100 v ((if signed32 v < 0 then [45] else []) ++
        paddedText 10 (widthOf width % 2 ^ 32) (signed32 v).natAbs) := by
  obtain ⟨p, hp⟩ : ∃ p, p = widthOf width % 2 ^ 32 := ⟨_, rfl⟩
  rw [← hp] at hn
  have hdec : ∀ value < 2 ^ 32, formatDigits 10 p (23 + p) value 0 [] = paddedText 10 p value := by
    intro value hvalue
    have hlen := (length_digits_word hvalue).1
    rw [formatDigits_eq (by decide) hn _ _ _ _ (by omega) (by omega) (by omega) (by omega), Nat.sub_zero, List.append_nil]
  refine ⟨puts_of_conversion hwidth (by decide) fun count => ?_, puts_of_conversion hwidth (by decide) fun count => ?_,
    puts_of_conversion hwidth (by decide) fun count => ?_⟩
  · rw [← hp, formatConversion, if_neg (by decide), if_pos rfl, hdec v hv]
  · have hlen := (length_digits_word hv).2
    obtain ⟨q, hq⟩ : ∃ q, q = if p = 0 then 8 else p := ⟨_, rfl⟩
    have hq23 : q ≤ 23 := by
      rw [hq]
      split_ifs <;> omega
    rw [← hp, formatConversion, if_neg (by decide), if_neg (by decide), if_pos rfl]
    simp only [← hq]
    rw [formatDigits_eq (by decide) hq23 _ _ _ _ (by omega) (by omega) (by omega) (by omega), Nat.sub_zero, List.append_nil]
  · rw [← hp, formatConversion, if_pos rfl]
    by_cases hneg : 2147483648 ≤ v
    · have hsub : sub32 0 v = 2 ^ 32 - v := by
        unfold sub32 wrap32
        omega
      have habs : (signed32 v).natAbs = 2 ^ 32 - v := by
        unfold signed32
        rw [if_neg (by omega)]
        omega
      have hsign : signed32 v < 0 := by
        unfold signed32
        rw [if_neg (by omega)]
        omega
      rw [if_pos hneg, hsub, hdec _ (by omega), habs, if_pos hsign]
      rfl
    · have hsigned : signed32 v = v := by
        unfold signed32
        rw [if_pos (by omega)]
      rw [if_neg hneg, hdec v hv, hsigned, if_neg (by omega), Int.natAbs_natCast]
      rfl

/-- Nothing is written outside the array just when the width it takes is below 24. -/
theorem formatWrites_inside_iff (hv : v < 2 ^ 32) {p : Nat} {conv : UInt8} (hconv : conv ∈ [(100 : UInt8), 117, 120]) :
    (∀ write ∈ formatWrites conv p v, 0 ≤ write.1 ∧ write.1 < 24) ↔ p ≤ 23 := by
  have hlen := length_digits_word hv
  have hsub : sub32 0 v < 2 ^ 32 := Nat.mod_lt _ (by decide)
  have hlen' := (length_digits_word hsub).1
  simp only [List.mem_cons, List.not_mem_nil, or_false] at hconv
  constructor
  · intro h
    by_contra hp
    have hout : ∀ base value, ∃ write ∈ digitWrites base p (23 + p) value 0, write.1 < 0 := fun base value =>
      digitWrites_outside (by omega) base 23 (23 + p) value 0 rfl (by omega)
    obtain ⟨write, hwrite, hneg⟩ : ∃ write ∈ formatWrites conv p v, write.1 < 0 := by
      rcases hconv with rfl | rfl | rfl
      · exact hout 10 _
      · exact hout 10 v
      · rw [formatWrites, if_neg (by decide), if_neg (by decide), if_pos rfl]
        simp only [if_neg (show ¬p = 0 by omega)]
        exact hout 16 v
    have := (h write hwrite).1
    omega
  · intro hp write hwrite
    rcases hconv with rfl | rfl | rfl
    · rw [formatWrites, if_pos rfl] at hwrite
      split_ifs at hwrite
      · exact digitWrites_range (by decide) hp _ _ 0 (by omega) (by decide) write hwrite
      · exact digitWrites_range (by decide) hp _ _ 0 (by omega) (by decide) write hwrite
    · rw [formatWrites, if_neg (by decide), if_pos rfl] at hwrite
      exact digitWrites_range (by decide) hp _ _ 0 (by omega) (by decide) write hwrite
    · rw [formatWrites, if_neg (by decide), if_neg (by decide), if_pos rfl] at hwrite
      refine digitWrites_range (by decide) ?_ _ _ 0 (by omega) (by decide) write hwrite
      split_ifs <;> omega

/-- For all three conversions of a number at once. -/
theorem formatWrites_inside (hv : v < 2 ^ 32) {p : Nat} : (∀ conv ∈ [(100 : UInt8), 117, 120], ∀ write ∈ formatWrites conv p v,
    0 ≤ write.1 ∧ write.1 < 24) ↔ p ≤ 23 :=
  ⟨fun h => (formatWrites_inside_iff hv (by simp)).1 (h 117 (by simp)), fun hp _ hconv => (formatWrites_inside_iff hv hconv).2 hp⟩

/-- The conversions of numbers do what they are for up to a width of 23. -/
theorem format_number (hwidth : ∀ ch ∈ width, IsDigit 10 ch) (hv : v < 2 ^ 32) : FormatsNumber width v ↔ widthOf width ≤ 23 := by
  have hparsed : ∀ conv ∈ [(100 : UInt8), 117, 120], (formatWidth (width ++ [conv]) 0).1 = widthOf width % 2 ^ 32 := by
    intro conv hconv
    have hnot : ¬(48 ≤ conv ∧ conv ≤ 57) := by
      simp only [List.mem_cons, List.not_mem_nil, or_false] at hconv
      rcases hconv with rfl | rfl | rfl <;> decide
    rw [formatWidth_width hwidth hnot []]
  constructor
  · intro h
    by_contra hw
    have hp : widthOf width % 2 ^ 32 ≤ 23 := (formatWrites_inside hv).1 fun conv hconv write hwrite =>
      h.inside conv hconv write (by rwa [hparsed conv hconv])
    have heq := congrArg List.length (h.unsigned.unique (puts_number hwidth hv hp).1)
    have hlen := (length_digits_word hv).1
    rw [paddedText, paddedText, List.length_map, List.length_map, Numeral.length_padded, Numeral.length_padded] at heq
    omega
  · intro hw
    have hmod : widthOf width % 2 ^ 32 = widthOf width := Nat.mod_eq_of_lt (by omega)
    obtain ⟨hunsigned, hhex, hsigned⟩ := puts_number hwidth hv (by rwa [hmod])
    rw [hmod] at hunsigned hhex hsigned
    refine ⟨hunsigned, hhex, hsigned, ?_, ?_, ?_⟩
    · intro out hout
      rw [hout.unique hunsigned, stou_decimal hv]
    · intro out hout
      rw [hout.unique hhex, stou_hex hv]
    · intro conv hconv write hwrite
      rw [hparsed conv hconv, hmod] at hwrite
      exact (formatWrites_inside hv).2 hw conv hconv write hwrite

end Conversion

theorem format_number_eight : FormatsNumber [56] 48879 ↔ widthOf [56] ≤ 23 :=
  format_number (by decide +kernel) (by decide)

/-- With `"%24u"` the loop writes before the array. -/
theorem format_number_wide : ¬FormatsNumber [50, 52] 5 := by
  intro h
  have hwrite : ((-1 : Int), (48 : UInt8)) ∈ formatWrites 117 (formatWidth ([50, 52] ++ [117]) 0).1 5 := by decide
  exact absurd (h.inside 117 (by decide) _ hwrite).1 (by decide)

end NanoS32
