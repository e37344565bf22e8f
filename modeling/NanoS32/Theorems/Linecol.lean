import NanoS32.Theorems.Screen

/-!
# Offsets, and lines and columns

`linecol_to_buffer_offset` undoes `buffer_offset_to_linecol` from the second line of the text on. Its counter of columns starts at
0 for the first line and at 1 for every later one, so a first line that is longer than a row is cut one character late: a row of
it starts an offset too far, and a first line of full rows costs the lines after it one row.
-/

namespace NanoS32

/-- The number of characters of the first line. -/
def firstLine (text : CStr) : Nat := text.findIdx (· = newline)

/-- The offsets that come back: the end, the first row of the first line, and from the end of the first line on, unless this line
fills its rows. -/
def LinecolExact (text : CStr) (offset : Nat) : Prop :=
  offset = text.length ∨ (offset ≤ firstLine text ∧ offset < screenWidth) ∨
    (firstLine text ≤ offset ∧ (firstLine text % screenWidth ≠ 0 ∨ firstLine text = 0))

/-- The row of the text that a key moves the cursor to, from a row, in a text with this last row; none for the other keys. -/
def rowAfter (k line last : Nat) : Option Nat :=
  if k = keyUp then some (line - 1)
  else if k = keyDown then some (min (line + 1) last)
  else if k = keyHome then some line
  else if k = keyPgDn then some (min (line + (screenHeight - 1)) last)
  else if k = keyPgUp then some (line - min line (screenHeight - 1))
  else none

/-- The two loops of `linecol_to_buffer_offset`, from where the first one is. -/
def seek (buff : CStr) (c line col offset : Nat) : Nat :=
  colOffsetLoop (lineOffsetLoop buff c line offset).1 col (lineOffsetLoop buff c line offset).2

section Linecol

variable {text : CStr}

/-! ## The loops -/

theorem seek_nil (c line col offset : Nat) : seek [] c line col offset = offset := rfl

theorem seek_zero (buff : CStr) (c col offset : Nat) : seek buff c 0 col offset = colOffsetLoop buff col offset := by
  cases buff <;> rfl

/-- A character is read before the line is reached. -/
theorem seek_cons (ch : UInt8) (buff : CStr) (c line col offset : Nat) : seek (ch :: buff) c (line + 1) col offset =
    if ch = newline ∨ screenWidth ≤ c then seek buff 1 line col (offset + 1) else seek buff (c + 1) (line + 1) col (offset + 1) := by
  unfold seek
  rw [lineOffsetLoop, if_pos (Nat.succ_pos line)]
  split_ifs <;> rfl

theorem colOffsetLoop_range : ∀ (buff : CStr) (col offset : Nat),
    offset ≤ colOffsetLoop buff col offset ∧ colOffsetLoop buff col offset ≤ offset + buff.length := by
  intro buff
  induction buff with
  | nil => exact fun col offset => ⟨Nat.le_refl _, Nat.le_refl _⟩
  | cons ch buff ih =>
    intro col offset
    have hrest := ih (col - 1) (offset + 1)
    simp only [colOffsetLoop, List.length_cons]
    split_ifs <;> omega

/-- The loops go forward, and not past the end. -/
theorem seek_range : ∀ (buff : CStr) (c line col offset : Nat),
    offset ≤ seek buff c line col offset ∧ seek buff c line col offset ≤ offset + buff.length := by
  intro buff
  induction buff with
  | nil => exact fun c line col offset => ⟨Nat.le_refl _, Nat.le_refl _⟩
  | cons ch buff ih =>
    intro c line col offset
    cases line with
    | zero =>
      rw [seek_zero]
      exact colOffsetLoop_range _ _ _
    | succ line =>
      have h1 := ih 1 line col (offset + 1)
      have h2 := ih (c + 1) (line + 1) col (offset + 1)
      rw [seek_cons, List.length_cons]
      split_ifs <;> omega

theorem rowLen_mono {k l : Nat} (hkl : k ≤ l) (p : Nat) : rowLen text k p ≤ rowLen text l p := by
  induction k generalizing l p with
  | zero => exact Nat.zero_le _
  | succ k ih =>
    obtain ⟨m, rfl⟩ : ∃ m, l = m + 1 := ⟨l - 1, by omega⟩
    simp only [rowLen]
    split_ifs
    · exact Nat.succ_le_succ (ih (by omega) (p + 1))
    · exact Nat.le_refl 0

/-- The characters of a row are in the text. -/
theorem rowLen_length (h0 : 0 ∉ text) {p : Nat} (hp : p ≤ text.length) (k : Nat) : p + rowLen text k p ≤ text.length := by
  cases hrow : rowLen text k p with
  | zero => exact hp
  | succ m =>
    have hc := (rowLen_char (show m < rowLen text k p by omega)).1
    rw [Ne, charAt_eq_zero h0] at hc
    omega

theorem drop_eq_charAt {p : Nat} (h : p < text.length) : text.drop p = charAt text p :: text.drop (p + 1) := by
  rw [List.drop_eq_getElem_cons h, charAt, List.getD_eq_getElem _ _ h]

/-- The loop over the columns takes the characters that a row of as many columns takes. -/
theorem colOffsetLoop_drop (h0 : 0 ∉ text) : ∀ k p offset, colOffsetLoop (text.drop p) k offset = offset + rowLen text k p := by
  intro k
  induction k with
  | zero =>
    intro p offset
    cases text.drop p <;> rfl
  | succ k ih =>
    intro p offset
    by_cases hp : p < text.length
    · have hz : charAt text p ≠ 0 := fun h => absurd ((charAt_eq_zero h0).1 h) (Nat.not_le_of_lt hp)
      rw [drop_eq_charAt hp, colOffsetLoop, if_pos (Nat.succ_pos k), rowLen]
      by_cases hnl : charAt text p = newline
      · rw [if_pos hnl, if_neg fun h => h.2 hnl, Nat.add_zero]
      · rw [if_neg hnl, if_pos ⟨hz, hnl⟩, Nat.add_sub_cancel, ih]
        omega
    · rw [List.drop_eq_nil_of_le (Nat.le_of_not_lt hp), rowLen,
        if_neg fun h => h.1 ((charAt_eq_zero h0).2 (Nat.le_of_not_lt hp)), colOffsetLoop, Nat.add_zero]

/-- One step of `buffer_offset_to_linecol` inside the text. -/
theorem linecolLoop_succ (h0 : 0 ∉ text) {p : Nat} (hp : p < text.length) (n col line : Nat) :
    linecolLoop text (n + 1) p col line =
      if charAt text p = newline ∨ screenWidth ≤ col + 1 then linecolLoop text n (p + 1) 0 (line + 1)
      else linecolLoop text n (p + 1) (col + 1) line := by
  have hz : ¬charAt text p = 0 := fun h => absurd ((charAt_eq_zero h0).1 h) (Nat.not_le_of_lt hp)
  rw [linecolLoop, if_neg hz]
  by_cases hnl : charAt text p = newline
  · rw [if_pos hnl, if_pos (Or.inl hnl)]
  · by_cases hw : screenWidth ≤ col + 1
    · rw [if_neg hnl, if_pos hw, if_pos (Or.inr hw)]
    · rw [if_neg hnl, if_neg hw, if_neg (not_or.2 ⟨hnl, hw⟩)]

theorem linecolLoop_line (h0 : 0 ∉ text) : ∀ n p col line, p + n ≤ text.length → line ≤ (linecolLoop text n p col line).2 ∧
    ((linecolLoop text n p col line).2 = line → (linecolLoop text n p col line).1 = col + n) := by
  intro n
  induction n with
  | zero => exact fun p col line _ => ⟨Nat.le_refl _, fun _ => rfl⟩
  | succ n ih =>
    intro p col line hp
    rw [linecolLoop_succ h0 (by omega)]
    split_ifs
    · have h := ih (p + 1) 0 (line + 1) (by omega)
      exact ⟨by omega, fun heq => by omega⟩
    · have h := ih (p + 1) (col + 1) line (by omega)
      refine ⟨h.1, fun heq => ?_⟩
      rw [h.2 heq]
      omega

/-! ## After the first line -/

/-- Where the counter is one past the column, the loops come back to the offset. -/
theorem seek_sync (h0 : 0 ∉ text) : ∀ n p col line offset, p + n ≤ text.length →
    seek (text.drop p) (col + 1) ((linecolLoop text n p col line).2 - line)
      (if (linecolLoop text n p col line).2 = line then n else (linecolLoop text n p col line).1) offset = offset + n := by
  intro n
  induction n with
  | zero =>
    intro p col line offset _
    have hloop : linecolLoop text 0 p col line = (col, line) := rfl
    rw [hloop, if_pos rfl, Nat.sub_self, seek_zero]
    exact colOffsetLoop_drop h0 0 p offset
  | succ n ih =>
    intro p col line offset hp
    have hlt : p < text.length := by omega
    have hsum : offset + (n + 1) = offset + 1 + n := by omega
    rw [linecolLoop_succ h0 hlt, drop_eq_charAt hlt, hsum]
    by_cases hrow : charAt text p = newline ∨ screenWidth ≤ col + 1
    · simp only [if_pos hrow]
      have hline := linecolLoop_line h0 n (p + 1) 0 (line + 1) (by omega)
      have hih := ih (p + 1) 0 (line + 1) (offset + 1) (by omega)
      obtain ⟨m, hm⟩ : ∃ m, (linecolLoop text n (p + 1) 0 (line + 1)).2 = line + 1 + m := ⟨_, (Nat.add_sub_cancel' hline.1).symm⟩
      have hsub : line + 1 + m - line = m + 1 := by omega
      rw [hm, Nat.add_sub_cancel_left] at hih
      rw [hm, hsub, if_neg (by omega), seek_cons, if_pos hrow]
      by_cases hm0 : m = 0
      · rw [hm0, Nat.add_zero, if_pos rfl] at hih
        rw [hline.2 (by omega), hm0, Nat.zero_add]
        exact hih
      · rw [if_neg (by omega)] at hih
        exact hih
    · simp only [if_neg hrow]
      have hline := linecolLoop_line h0 n (p + 1) (col + 1) line (by omega)
      have hih := ih (p + 1) (col + 1) line (offset + 1) (by omega)
      obtain ⟨m, hm⟩ : ∃ m, (linecolLoop text n (p + 1) (col + 1) line).2 = line + m := ⟨_, (Nat.add_sub_cancel' hline.1).symm⟩
      rw [hm, Nat.add_sub_cancel_left] at hih ⊢
      cases m with
      | zero =>
        rw [if_pos (Nat.add_zero line), seek_zero] at hih ⊢
        rw [colOffsetLoop, if_pos (Nat.succ_pos n), if_neg (not_or.1 hrow).1]
        exact hih
      | succ m =>
        rw [if_neg (by omega)] at hih ⊢
        rw [seek_cons, if_neg hrow]
        exact hih

/-- Where the first loop is one line behind, the loops end past the offset. -/
theorem seek_behind (h0 : 0 ∉ text) : ∀ n p col line offset, p + n ≤ text.length →
    offset + n ≤ seek (text.drop p) (col + 1) ((linecolLoop text n p col line).2 - line + 1) (linecolLoop text n p col line).1 offset ∧
      (p + n < text.length → offset + n <
        seek (text.drop p) (col + 1) ((linecolLoop text n p col line).2 - line + 1) (linecolLoop text n p col line).1 offset) := by
  intro n
  induction n with
  | zero =>
    intro p col line offset _
    refine ⟨(seek_range _ _ _ _ _).1, fun hlt => ?_⟩
    rw [Nat.add_zero] at hlt
    have h1 := seek_range (text.drop (p + 1)) 1 ((linecolLoop text 0 p col line).2 - line) (linecolLoop text 0 p col line).1 (offset + 1)
    have h2 := seek_range (text.drop (p + 1)) (col + 1 + 1) ((linecolLoop text 0 p col line).2 - line + 1)
      (linecolLoop text 0 p col line).1 (offset + 1)
    rw [drop_eq_charAt hlt, seek_cons]
    split_ifs <;> omega
  | succ n ih =>
    intro p col line offset hp
    have hlt : p < text.length := by omega
    have hsum : offset + (n + 1) = offset + 1 + n := by omega
    have hpos : p + (n + 1) = p + 1 + n := by omega
    rw [linecolLoop_succ h0 hlt, drop_eq_charAt hlt, seek_cons, hsum, hpos]
    by_cases hrow : charAt text p = newline ∨ screenWidth ≤ col + 1
    · simp only [if_pos hrow]
      have hline := (linecolLoop_line h0 n (p + 1) 0 (line + 1) (by omega)).1
      have hsub : (linecolLoop text n (p + 1) 0 (line + 1)).2 - line = (linecolLoop text n (p + 1) 0 (line + 1)).2 - (line + 1) + 1 := by
        omega
      rw [hsub]
      exact ih (p + 1) 0 (line + 1) (offset + 1) (by omega)
    · simp only [if_neg hrow]
      exact ih (p + 1) (col + 1) line (offset + 1) (by omega)

/-- The loops land on a row, the last one when there are not as many. -/
theorem seek_lands (h0 : 0 ∉ text) {ct : Nat} (hct : ct < screenWidth) : ∀ n p col line k, p + n = text.length → (k = 0 → col = 0) →
    ∃ m ≤ n, seek (text.drop p) (col + 1) k ct p = p + m ∧
      (linecolLoop text m p col line).2 = min (line + k) (linecolLoop text n p col line).2 := by
  intro n
  induction n with
  | zero =>
    intro p col line k hp _
    refine ⟨0, Nat.le_refl 0, ?_, ?_⟩
    · rw [List.drop_eq_nil_of_le (by omega), seek_nil, Nat.add_zero]
    · exact (Nat.min_eq_right (Nat.le_add_right line k)).symm
  | succ n ih =>
    intro p col line k hp hk
    have hlt : p < text.length := by omega
    cases k with
    | zero =>
      obtain rfl : col = 0 := hk rfl
      have hle := rowLen_le text ct p
      have hmono : rowLen text ct p ≤ rowLen text screenWidth p := rowLen_mono (Nat.le_of_lt hct) p
      have hend : p + rowLen text ct p ≤ text.length := rowLen_length h0 (by omega) ct
      refine ⟨rowLen text ct p, by omega, ?_, ?_⟩
      · rw [seek_zero, colOffsetLoop_drop h0]
      · rw [linecolLoop_row _ screenWidth p 0 line (Nat.zero_add _) (by decide) hmono, Nat.zero_add, if_neg (by omega)]
        exact (Nat.min_eq_left (linecolLoop_line h0 (n + 1) p 0 line (by omega)).1).symm
    | succ k =>
      rw [drop_eq_charAt hlt, seek_cons, linecolLoop_succ h0 hlt]
      by_cases hrow : charAt text p = newline ∨ screenWidth ≤ col + 1
      · obtain ⟨m, hm, hseek, hline⟩ := ih (p + 1) 0 (line + 1) k (by omega) (fun _ => rfl)
        rw [if_pos hrow, if_pos hrow]
        rw [Nat.add_right_comm, Nat.add_assoc] at hseek
        refine ⟨m + 1, by omega, hseek, ?_⟩
        rw [linecolLoop_succ h0 hlt, if_pos hrow, hline]
        congr 1
        omega
      · obtain ⟨m, hm, hseek, hline⟩ := ih (p + 1) (col + 1) line (k + 1) (by omega) (fun h => absurd h (Nat.succ_ne_zero k))
        rw [if_neg hrow, if_neg hrow]
        refine ⟨m + 1, by omega, by rw [hseek]; omega, ?_⟩
        rw [linecolLoop_succ h0 hlt, if_neg hrow, hline]

/-! ## The first line -/

theorem firstLine_le (text : CStr) : firstLine text ≤ text.length := List.findIdx_le_length

theorem firstLine_char {i : Nat} (h : i < firstLine text) : charAt text i ≠ newline := by
  have hchar := List.not_of_lt_findIdx h
  rw [charAt, List.getD_eq_getElem _ _ (Nat.lt_of_lt_of_le h (firstLine_le text))]
  exact of_decide_eq_false hchar

theorem firstLine_newline (h : firstLine text < text.length) : charAt text (firstLine text) = newline := by
  have hchar := List.findIdx_getElem (w := h)
  rw [charAt, List.getD_eq_getElem _ _ h]
  exact of_decide_eq_true hchar

/-- The column and line in the first line. -/
theorem linecolLoop_first (h0 : 0 ∉ text) : ∀ n p col line, p + n ≤ firstLine text → col < screenWidth →
    linecolLoop text n p col line = ((col + n) % screenWidth, line + (col + n) / screenWidth) := by
  intro n
  induction n with
  | zero =>
    intro p col line _ hcol
    rw [Nat.add_zero, Nat.mod_eq_of_lt hcol, Nat.div_eq_of_lt hcol]
    rfl
  | succ n ih =>
    intro p col line hp hcol
    have hle := firstLine_le text
    have hnl : charAt text p ≠ newline := firstLine_char (by omega)
    rw [linecolLoop_succ h0 (by omega)]
    by_cases hw : screenWidth ≤ col + 1
    · have hfull : col + (n + 1) = screenWidth + n := by omega
      rw [if_pos (Or.inr hw), ih (p + 1) 0 (line + 1) (by omega) (by decide), hfull, Nat.zero_add, Nat.add_mod_left,
        Nat.add_div_left _ (by decide), Prod.mk.injEq]
      exact ⟨rfl, by omega⟩
    · rw [if_neg (not_or.2 ⟨hnl, hw⟩), ih (p + 1) (col + 1) line (by omega) (by omega), Nat.add_right_comm col 1 n,
        Nat.add_assoc col n 1]

/-- In the first line a row ends one character late. -/
theorem seek_first {line col : Nat} : ∀ i, i ≤ firstLine text → (i = 0 ∨ (i - 2) / screenWidth < line) →
    seek text 0 line col 0 =
      seek (text.drop i) (if i = 0 then 0 else (i - 1) % screenWidth + 1) (line - (i - 1) / screenWidth) col i := by
  intro i
  induction i with
  | zero =>
    intro _ _
    rfl
  | succ i ih =>
    intro hi hline
    have hle := firstLine_le text
    have hnl : charAt text i ≠ newline := firstLine_char hi
    have hdec : (i - 1) / screenWidth < line := by
      simp only [screenWidth] at hline ⊢
      omega
    rw [ih (by omega) (by simp only [screenWidth] at hdec ⊢; omega), drop_eq_charAt (by omega)]
    obtain ⟨r, hr⟩ : ∃ r, line - (i - 1) / screenWidth = r + 1 := ⟨_, (Nat.succ_pred (by omega)).symm⟩
    rw [hr, seek_cons, Nat.add_sub_cancel, if_neg (Nat.succ_ne_zero i)]
    by_cases hw : i ≠ 0 ∧ i % screenWidth = 0
    · have hcount : (i - 1) % screenWidth + 1 = screenWidth := by
        simp only [screenWidth] at hw ⊢
        omega
      have hdiv : line - i / screenWidth = r := by
        simp only [screenWidth] at hw hr ⊢
        omega
      rw [if_neg hw.1, if_pos (Or.inr (Nat.le_of_eq hcount.symm)), hw.2, hdiv]
    · have hcount : (if i = 0 then 0 else (i - 1) % screenWidth + 1) = i % screenWidth := by
        simp only [screenWidth] at hw ⊢
        split_ifs <;> omega
      have hdiv : line - i / screenWidth = r + 1 := by
        simp only [screenWidth] at hw hr ⊢
        omega
      rw [hcount, if_neg (not_or.2 ⟨hnl, Nat.not_le_of_lt (Nat.mod_lt _ (by decide))⟩), hdiv]

theorem linecol_firstLine (h0 : 0 ∉ text) {o : Nat} (ho : o ≤ firstLine text) :
    bufferOffsetToLinecol text o = (o % screenWidth, o / screenWidth) := by
  unfold bufferOffsetToLinecol
  rw [linecolLoop_first h0 o 0 0 0 (by omega) (by decide), Nat.zero_add, Nat.zero_add]

/-- What a row takes of the first line. -/
theorem rowLen_first (h0 : 0 ∉ text) : ∀ k p, p ≤ firstLine text → rowLen text k p = min k (firstLine text - p) := by
  intro k
  induction k with
  | zero => exact fun p _ => (Nat.zero_min _).symm
  | succ k ih =>
    intro p hp
    have hle := firstLine_le text
    rw [rowLen]
    rcases Nat.lt_or_eq_of_le hp with hlt | heq
    · have hz : charAt text p ≠ 0 := fun h => absurd ((charAt_eq_zero h0).1 h) (by omega)
      rw [if_pos ⟨hz, firstLine_char hlt⟩, ih (p + 1) hlt]
      omega
    · have hstop : ¬(charAt text p ≠ 0 ∧ charAt text p ≠ newline) := by
        rintro ⟨hz, hnl⟩
        rw [Ne, charAt_eq_zero h0] at hz
        exact hnl (heq ▸ firstLine_newline (by omega))
      rw [if_neg hstop]
      omega

theorem linecolToBufferOffset_eq (text : CStr) (col line : Nat) : linecolToBufferOffset text col line = seek text 0 line col 0 := rfl

/-- From the second line on, the column and line count from the end of the first. -/
theorem linecol_later (h0 : 0 ∉ text) (hfirst : firstLine text < text.length) (n : Nat) :
    bufferOffsetToLinecol text (firstLine text + 1 + n) =
      linecolLoop text n (firstLine text + 1) 0 (firstLine text / screenWidth + 1) := by
  have hend : linecolLoop text (firstLine text + 1) 0 0 0 = (0, firstLine text / screenWidth + 1) := by
    have hline := linecol_firstLine h0 (Nat.le_refl (firstLine text))
    unfold bufferOffsetToLinecol at hline
    rw [linecolLoop_add h0 (firstLine text) 1 0 0 0 (by omega), hline, Nat.zero_add, linecolLoop_succ h0 hfirst,
      if_pos (Or.inl (firstLine_newline hfirst)), linecolLoop]
  unfold bufferOffsetToLinecol
  rw [linecolLoop_add h0 (firstLine text + 1) n 0 0 0 (by omega), hend, Nat.zero_add]

/-- The lines after the first one: a first line that fills its rows costs a line more. -/
theorem seek_later (hfirst : firstLine text < text.length) (m col : Nat) :
    seek text 0 (firstLine text / screenWidth + 1 + m) col 0 =
      seek (text.drop (firstLine text + 1)) 1
        (if firstLine text % screenWidth ≠ 0 ∨ firstLine text = 0 then m else m + 1) col (firstLine text + 1) := by
  obtain ⟨r, hr⟩ : ∃ r, firstLine text / screenWidth + 1 + m - (firstLine text - 1) / screenWidth = r + 1 := by
    refine ⟨firstLine text / screenWidth + m - (firstLine text - 1) / screenWidth, ?_⟩
    simp only [screenWidth]
    omega
  have hcost : (if firstLine text % screenWidth ≠ 0 ∨ firstLine text = 0 then m else m + 1) = r := by
    by_cases hfull : firstLine text % screenWidth ≠ 0 ∨ firstLine text = 0
    · rw [if_pos hfull]
      simp only [screenWidth] at hfull hr
      omega
    · rw [if_neg hfull]
      simp only [screenWidth] at hfull hr
      omega
  rw [seek_first (firstLine text) (Nat.le_refl _) (by simp only [screenWidth]; omega), hr, drop_eq_charAt hfirst, seek_cons,
    if_pos (Or.inl (firstLine_newline hfirst)), hcost]

/-! ## The round trip -/

/-- In the rows of the first line after its first, the loops end one character too far, or at the end of the line. -/
theorem linecol_wrapped (h0 : 0 ∉ text) {o : Nat} (ho : o ≤ firstLine text) (hw : screenWidth ≤ o)
    (hrow : 0 < o % screenWidth ∨ o < firstLine text) :
    seek text 0 (o / screenWidth) (o % screenWidth) 0 = min (o + 1) (firstLine text) := by
  have hle := firstLine_le text
  have hstart : o / screenWidth * screenWidth + 1 ≤ firstLine text := by
    simp only [screenWidth] at hrow ⊢
    omega
  have hline : o / screenWidth - (o / screenWidth * screenWidth + 1 - 1) / screenWidth = 0 := by
    simp only [screenWidth]
    omega
  have hlen : rowLen text (o % screenWidth) (o / screenWidth * screenWidth + 1) =
      min (o % screenWidth) (firstLine text - (o / screenWidth * screenWidth + 1)) := rowLen_first h0 _ _ hstart
  rw [seek_first _ hstart (Or.inr (by simp only [screenWidth] at hw ⊢; omega)), hline, seek_zero, colOffsetLoop_drop h0, hlen]
  simp only [screenWidth] at hw hrow hstart ⊢
  omega

/-- The offset comes back just where the rows are the same. -/
theorem linecol_roundtrip (h0 : 0 ∉ text) {o : Nat} (ho : o ≤ text.length) :
    linecolToBufferOffset text (bufferOffsetToLinecol text o).1 (bufferOffsetToLinecol text o).2 = o ↔ LinecolExact text o := by
  rw [linecolToBufferOffset_eq]
  have hle := firstLine_le text
  rcases Nat.lt_or_ge (firstLine text) o with hlater | hfirst
  · obtain ⟨n, rfl⟩ : ∃ n, o = firstLine text + 1 + n := ⟨_, (Nat.add_sub_cancel' hlater).symm⟩
    have hlt : firstLine text < text.length := by omega
    have hline := linecolLoop_line h0 n (firstLine text + 1) 0 (firstLine text / screenWidth + 1) ho
    have hsync := seek_sync h0 n (firstLine text + 1) 0 (firstLine text / screenWidth + 1) (firstLine text + 1) ho
    have hbehind := seek_behind h0 n (firstLine text + 1) 0 (firstLine text / screenWidth + 1) (firstLine text + 1) ho
    rw [linecol_later h0 hlt]
    obtain ⟨m, hm⟩ : ∃ m, (linecolLoop text n (firstLine text + 1) 0 (firstLine text / screenWidth + 1)).2 =
        firstLine text / screenWidth + 1 + m := ⟨_, (Nat.add_sub_cancel' hline.1).symm⟩
    rw [hm, Nat.add_sub_cancel_left] at hsync hbehind
    rw [hm, seek_later hlt]
    unfold LinecolExact
    by_cases hfull : firstLine text % screenWidth ≠ 0 ∨ firstLine text = 0
    · have hcol : (if firstLine text / screenWidth + 1 + m = firstLine text / screenWidth + 1 then n
          else (linecolLoop text n (firstLine text + 1) 0 (firstLine text / screenWidth + 1)).1) =
          (linecolLoop text n (firstLine text + 1) 0 (firstLine text / screenWidth + 1)).1 := by
        split_ifs with hstay
        · rw [hline.2 (by omega), Nat.zero_add]
        · rfl
      rw [hcol] at hsync
      rw [if_pos hfull]
      exact iff_of_true hsync (Or.inr (Or.inr ⟨by omega, hfull⟩))
    · rw [if_neg hfull]
      have hrange := seek_range (text.drop (firstLine text + 1)) 1 (m + 1)
        (linecolLoop text n (firstLine text + 1) 0 (firstLine text / screenWidth + 1)).1 (firstLine text + 1)
      rw [List.length_drop] at hrange
      rw [Nat.zero_add] at hbehind
      constructor
      · intro heq
        left
        by_contra hne
        have := hbehind.2 (by omega)
        omega
      · rintro (hend | ⟨hin, -⟩ | ⟨-, hnot⟩)
        · omega
        · omega
        · exact absurd hnot hfull
  · rw [linecol_firstLine h0 hfirst]
    dsimp only
    unfold LinecolExact
    rcases Nat.lt_or_ge o screenWidth with hrow | hwrap
    · have hzero : o / screenWidth = 0 := Nat.div_eq_of_lt hrow
      rw [hzero, Nat.mod_eq_of_lt hrow, seek_zero]
      have hlen := rowLen_first h0 o 0 (Nat.zero_le _)
      have hseek := colOffsetLoop_drop h0 o 0 0
      rw [Nat.sub_zero, Nat.min_eq_left hfirst] at hlen
      rw [List.drop_zero, hlen, Nat.zero_add] at hseek
      exact iff_of_true hseek (Or.inr (Or.inl ⟨hfirst, hrow⟩))
    · by_cases hin : 0 < o % screenWidth ∨ o < firstLine text
      · rw [linecol_wrapped h0 hfirst hwrap hin]
        simp only [screenWidth] at hwrap hin ⊢
        omega
      · have hfull : o = firstLine text := by omega
        have hmod : o % screenWidth = 0 := by omega
        have hline : o / screenWidth - (o - 1) / screenWidth = 1 := by
          simp only [screenWidth] at hwrap hmod ⊢
          omega
        rw [seek_first o hfirst (Or.inr (by simp only [screenWidth] at hwrap hmod ⊢; omega)), hline, hmod]
        rcases Nat.lt_or_eq_of_le ho with hlt | hend
        · -- the newline of a full line is taken for one more character of its last row
          have hnl : charAt text o = newline := hfull ▸ firstLine_newline (hfull ▸ hlt)
          have hrange := seek_range (text.drop (o + 1)) 1 0 0 (o + 1)
          rw [drop_eq_charAt hlt, seek_cons, if_pos (Or.inl hnl)]
          refine iff_of_false (by omega) ?_
          simp only [screenWidth] at hwrap hmod ⊢
          omega
        · rw [hend, List.drop_length, seek_nil]
          exact iff_of_true rfl (Or.inl rfl)

/-! ## The keys that move -/

/-- In a text whose first line is shorter than a row, every line and column are sent to the row that was asked for. -/
theorem linecol_lands (h0 : 0 ∉ text) (hfirst : firstLine text < screenWidth) {col : Nat} (hcol : col < screenWidth) (line : Nat) :
    (bufferOffsetToLinecol text (linecolToBufferOffset text col line)).2 =
      min line (bufferOffsetToLinecol text text.length).2 := by
  have hle := firstLine_le text
  have hzero : firstLine text / screenWidth = 0 := Nat.div_eq_of_lt hfirst
  rw [linecolToBufferOffset_eq]
  cases line with
  | zero =>
    have hlen := rowLen_first h0 col 0 (Nat.zero_le _)
    have hseek := colOffsetLoop_drop h0 col 0 0
    rw [List.drop_zero, hlen, Nat.zero_add, Nat.sub_zero] at hseek
    rw [seek_zero, hseek, linecol_firstLine h0 (Nat.min_le_right _ _), Nat.zero_min]
    exact Nat.div_eq_of_lt (by omega)
  | succ m =>
    rcases Nat.lt_or_eq_of_le hle with hlt | hend
    · have hshort : firstLine text % screenWidth ≠ 0 ∨ firstLine text = 0 := by
        rw [Nat.mod_eq_of_lt hfirst]
        omega
      have hseek := seek_later hlt m col
      rw [hzero, if_pos hshort, Nat.zero_add, Nat.add_comm 1 m] at hseek
      obtain ⟨n, hn⟩ : ∃ n, firstLine text + 1 + n = text.length := ⟨_, Nat.add_sub_cancel' hlt⟩
      obtain ⟨j, hj, hland, hline⟩ := seek_lands h0 hcol n (firstLine text + 1) 0 1 m hn (fun _ => rfl)
      rw [Nat.zero_add] at hland
      have hlast := linecol_later h0 hlt n
      rw [hn, hzero, Nat.zero_add] at hlast
      rw [hseek, hland, linecol_later h0 hlt, hzero, Nat.zero_add, hline, hlast, Nat.add_comm 1 m]
    · have hstop : seek text 0 (m + 1) col 0 = text.length := by
        rw [seek_first (firstLine text) (Nat.le_refl _) (by simp only [screenWidth] at hfirst ⊢; omega), hend, List.drop_length,
          seek_nil]
      have hline := linecol_firstLine h0 (Nat.le_of_eq hend.symm)
      rw [← hend, hzero] at hline
      rw [hstop, ← hend, hline]
      exact (Nat.min_zero _).symm

/-- Where the keys that go to another row leave the cursor. -/
theorem keyAction_cursor {st : EditState} {col line : Nat} (hlc : bufferOffsetToLinecol st.buff.str st.cursor = (col, line)) :
    (keyAction st keyUp).cursor = (if 0 < line then linecolToBufferOffset st.buff.str col (line - 1) else st.cursor) ∧
      (keyAction st keyDown).cursor = linecolToBufferOffset st.buff.str col (line + 1) ∧
      (keyAction st keyHome).cursor = linecolToBufferOffset st.buff.str 0 line ∧
      (keyAction st keyPgDn).cursor = linecolToBufferOffset st.buff.str col (line + (screenHeight - 1)) ∧
      (keyAction st keyPgUp).cursor = linecolToBufferOffset st.buff.str col (line - min line (screenHeight - 1)) := by
  unfold keyAction
  rw [hlc]
  refine ⟨?_, rfl, rfl, rfl, rfl⟩
  by_cases hpos : 0 < line
  · rw [if_pos hpos]
    exact congrArg EditState.cursor (if_pos hpos)
  · rw [if_neg hpos]
    exact congrArg EditState.cursor (if_neg hpos)

/-- The row that a key moves the cursor to. -/
theorem keyAction_row (h0 : 0 ∉ text) (hfirst : firstLine text < screenWidth) {st : EditState} (htext : st.buff.str = text)
    (ho : st.cursor ≤ text.length) {k row : Nat}
    (hrow : rowAfter k (bufferOffsetToLinecol text st.cursor).2 (bufferOffsetToLinecol text text.length).2 = some row) :
    (bufferOffsetToLinecol text (keyAction st k).cursor).2 = row := by
  obtain ⟨col, line, hlc⟩ : ∃ col line, bufferOffsetToLinecol text st.cursor = (col, line) := ⟨_, _, rfl⟩
  have hcol : col < screenWidth := by
    have h := linecolLoop_col text st.cursor 0 0 0 (by decide)
    unfold bufferOffsetToLinecol at hlc
    rwa [hlc] at h
  have hlast : line ≤ (bufferOffsetToLinecol text text.length).2 := by
    have hrest := linecolLoop_line h0 (text.length - st.cursor) st.cursor col line (by omega)
    have hsplit := linecolLoop_add h0 st.cursor (text.length - st.cursor) 0 0 0 (by omega)
    rw [Nat.add_sub_cancel' ho, Nat.zero_add] at hsplit
    unfold bufferOffsetToLinecol at hlc ⊢
    rw [hsplit, hlc]
    exact hrest.1
  rw [hlc] at hrow
  unfold rowAfter at hrow
  subst htext
  obtain ⟨hkup, hkdown, hkhome, hkpgdn, hkpgup⟩ := keyAction_cursor hlc
  split_ifs at hrow with hup hdown hhome hpgdn hpgup
  all_goals
    obtain rfl := Option.some.inj hrow
    subst k
  · rw [hkup]
    by_cases hpos : 0 < line
    · rw [if_pos hpos, linecol_lands h0 hfirst hcol]
      exact Nat.min_eq_left (by omega)
    · obtain rfl : line = 0 := Nat.eq_zero_of_not_pos hpos
      rw [if_neg hpos, hlc]
      rfl
  · rw [hkdown]
    exact linecol_lands h0 hfirst hcol _
  · rw [hkhome]
    exact (linecol_lands h0 hfirst (by decide) _).trans (Nat.min_eq_left hlast)
  · rw [hkpgdn]
    exact linecol_lands h0 hfirst hcol _
  · rw [hkpgup]
    exact (linecol_lands h0 hfirst hcol _).trans (Nat.min_eq_left (Nat.le_trans (Nat.sub_le _ _) hlast))

/-- The column and line of an offset give the offset back just where the rows of the first line do not differ, and while the first
line is shorter than a row, the keys that move the cursor to another row land on this row. -/
theorem edit_linecol (h0 : 0 ∉ text) {offset : Nat} (ho : offset ≤ text.length) :
    (linecolToBufferOffset text (bufferOffsetToLinecol text offset).1 (bufferOffsetToLinecol text offset).2 = offset ↔
      LinecolExact text offset) ∧
      (firstLine text < screenWidth → ∀ (st : EditState) (k row : Nat), st.buff.str = text → st.cursor = offset →
        rowAfter k (bufferOffsetToLinecol text offset).2 (bufferOffsetToLinecol text text.length).2 = some row →
        (bufferOffsetToLinecol text (keyAction st k).cursor).2 = row) := by
  refine ⟨linecol_roundtrip h0 ho, fun hfirst st k row htext hcursor hrow => ?_⟩
  rw [← hcursor] at ho hrow
  exact keyAction_row h0 hfirst htext ho hrow

end Linecol

theorem edit_linecol_sample :
    (linecolToBufferOffset [97, 10, 98] (bufferOffsetToLinecol [97, 10, 98] 2).1 (bufferOffsetToLinecol [97, 10, 98] 2).2 = 2 ↔
      LinecolExact [97, 10, 98] 2) ∧
      (firstLine [97, 10, 98] < screenWidth → ∀ (st : EditState) (k row : Nat), st.buff.str = [97, 10, 98] → st.cursor = 2 →
        rowAfter k (bufferOffsetToLinecol [97, 10, 98] 2).2
          (bufferOffsetToLinecol [97, 10, 98] ([97, 10, 98] : CStr).length).2 = some row →
        (bufferOffsetToLinecol [97, 10, 98] (keyAction st k).cursor).2 = row) :=
  edit_linecol (by decide) (by decide)

/-- In a first line of 100 characters, the cell of offset 80 is taken for offset 81. -/
theorem linecol_first_line : 0 ∉ List.replicate 100 (97 : UInt8) ∧ 80 ≤ (List.replicate 100 (97 : UInt8)).length ∧
    linecolToBufferOffset (List.replicate 100 97) (bufferOffsetToLinecol (List.replicate 100 97) 80).1
      (bufferOffsetToLinecol (List.replicate 100 97) 80).2 ≠ 80 := by
  decide +kernel

end NanoS32
