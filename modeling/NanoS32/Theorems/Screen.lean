import NanoS32.Programs.Edit

/-!
# The cursor of the editor

The text is cut into rows by `next_line`, which draws it, and by `buffer_offset_to_linecol`, which places the cursor. `next_line`
takes the newline after a full row into this row; `buffer_offset_to_linecol` counts one more line for it.
-/

namespace NanoS32

/-- The characters before a position since the last newline. -/
def lineLength (text : CStr) (p : Nat) : Nat := ((text.take p).reverse.takeWhile (· ≠ newline)).length

/-- There is a newline before this position, and before the newline a line that fills its rows. -/
def FullBreak (text : CStr) (p : Nat) : Prop :=
  ∃ i < p, charAt text i = newline ∧ 0 < lineLength text i ∧ lineLength text i % screenWidth = 0

/-- The cursor is in the area of the editor, and where the character at its offset is drawn. -/
structure CursorAgrees (text : CStr) (offset : Nat) (screen : EditScreen) : Prop where
  area : screen.col < screenWidth ∧ 1 ≤ screen.row ∧ screen.row < screenHeight
  drawn : offset < text.length → charAt text offset ≠ newline →
    ∀ c r, { col := c, row := r, src := some offset } ∈ screen.calls ↔ c = screen.col ∧ r = screen.row

section Rows

variable (text : CStr)

/-- The characters that a row of `k` columns takes from a position on. -/
def rowLen : Nat → Nat → Nat
  | 0, _ => 0
  | k + 1, p => if charAt text p ≠ 0 ∧ charAt text p ≠ newline then rowLen k (p + 1) + 1 else 0

/-- Where row `j` of the text starts. -/
def rowStart : Nat → Nat
  | 0 => 0
  | j + 1 => (nextLine text .skipCurrent 0 (rowStart j)).2

/-- The character at this offset is in column `c` of row `j`. -/
def InRow (j c offset : Nat) : Prop := c < rowLen text screenWidth (rowStart text j) ∧ offset = rowStart text j + c

/-- The number of full rows before row `j` with a newline after them. -/
def fullRows (j : Nat) : Nat :=
  (List.range j).countP fun i => decide (rowLen text screenWidth (rowStart text i) = screenWidth ∧
    charAt text (rowStart text i + screenWidth) = newline)

end Rows

section Text

variable {text : CStr}

/-! ## Rows -/

theorem rowLen_le (text : CStr) (k p : Nat) : rowLen text k p ≤ k := by
  induction k generalizing p with
  | zero => exact Nat.le_refl 0
  | succ k ih =>
    unfold rowLen
    split_ifs
    · exact Nat.succ_le_succ (ih _)
    · exact Nat.zero_le _

/-- The characters of a row. -/
theorem rowLen_char {k p i : Nat} (h : i < rowLen text k p) : charAt text (p + i) ≠ 0 ∧ charAt text (p + i) ≠ newline := by
  induction k generalizing p i with
  | zero => exact absurd h (Nat.not_lt_zero i)
  | succ k ih =>
    unfold rowLen at h
    split_ifs at h with hc
    · cases i with
      | zero => exact hc
      | succ i =>
        have := ih (p := p + 1) (Nat.lt_of_succ_lt_succ h)
        rwa [Nat.add_right_comm] at this
    · exact absurd h (Nat.not_lt_zero i)

/-- The character after a row that is not full. -/
theorem rowLen_stop {k p : Nat} (h : rowLen text k p < k) :
    charAt text (p + rowLen text k p) = 0 ∨ charAt text (p + rowLen text k p) = newline := by
  induction k generalizing p with
  | zero => exact absurd h (Nat.not_lt_zero _)
  | succ k ih =>
    unfold rowLen at h ⊢
    split_ifs at h ⊢ with hc
    · have := ih (p := p + 1) (Nat.lt_of_succ_lt_succ h)
      rwa [Nat.add_right_comm] at this
    · rw [Nat.add_zero]
      by_contra hno
      exact hc (not_or.1 hno)

/-- The first loop of `next_line` draws the characters of the row. -/
theorem nextLineLoop_eq (mode : LineMode) (row : Nat) : ∀ k col p, nextLineLoop text mode row k col p =
    (if mode = .showCurrent then
      (List.range (rowLen text k p)).map fun i => { col := col + i, row := row, src := some (p + i) } else [],
      col + rowLen text k p, p + rowLen text k p) := by
  intro k
  induction k with
  | zero =>
    intro col p
    simp [nextLineLoop, rowLen]
  | succ k ih =>
    intro col p
    unfold nextLineLoop rowLen
    by_cases hc : charAt text p ≠ 0 ∧ charAt text p ≠ newline
    · rw [if_pos hc, if_pos hc, ih]
      have hlast : ∀ a n : Nat, a + 1 + n = a + (n + 1) := fun a n => by omega
      simp only [hlast]
      cases mode with
      | showCurrent =>
        simp only [if_true, List.range_succ_eq_map, List.map_cons, List.map_map]
        rfl
      | skipCurrent => rfl
    · rw [if_neg hc, if_neg hc]
      simp

/-- The position that `next_line` returns. -/
theorem nextLine_snd (mode : LineMode) (row p : Nat) : (nextLine text mode row p).2 =
    if charAt text (p + rowLen text screenWidth p) = newline then p + rowLen text screenWidth p + 1
    else p + rowLen text screenWidth p := by
  unfold nextLine
  rw [nextLineLoop_eq]

theorem rowStart_succ (mode : LineMode) (row j : Nat) : (nextLine text mode row (rowStart text j)).2 = rowStart text (j + 1) := by
  rw [rowStart, nextLine_snd, nextLine_snd]

/-- The characters that `next_line` draws. -/
theorem mem_nextLine {row p c r o : Nat} : { col := c, row := r, src := some o } ∈ (nextLine text .showCurrent row p).1 ↔
    r = row ∧ c < rowLen text screenWidth p ∧ o = p + c := by
  unfold nextLine clearLine
  rw [nextLineLoop_eq]
  simp only [if_true, List.mem_append, List.mem_map, List.mem_range, Putchar.mk.injEq, Option.some.injEq, reduceCtorEq,
    and_false, exists_false, or_false]
  constructor
  · rintro ⟨i, hi, hc, hr, ho⟩
    exact ⟨hr.symm, by omega, by omega⟩
  · rintro ⟨hr, hc, ho⟩
    exact ⟨c, hc, by omega, hr.symm, ho.symm⟩

theorem not_mem_clearLine {row c r o : Nat} : { col := c, row := r, src := some o } ∉ clearLine .showCurrent row 0 := by
  simp [clearLine]

/-! ## What is drawn -/

theorem charAt_eq_zero (h0 : 0 ∉ text) {p : Nat} : charAt text p = 0 ↔ text.length ≤ p := by
  unfold charAt
  constructor
  · intro h
    by_contra hlt
    rw [List.getD_eq_getElem _ _ (by omega)] at h
    exact h0 (h ▸ List.getElem_mem _)
  · exact List.getD_eq_default _ _

/-- Past the end of the text the rows are empty. -/
theorem rowLen_end {p : Nat} (h : charAt text p = 0) : rowLen text screenWidth p = 0 := by
  rw [screenWidth, rowLen, if_neg fun hc => hc.1 h]

theorem rowStart_end {j : Nat} (h : charAt text (rowStart text j) = 0) : rowStart text (j + 1) = rowStart text j := by
  rw [rowStart, nextLine_snd, rowLen_end h, Nat.add_zero, h, if_neg (by decide)]

theorem skipLines_eq (text : CStr) : ∀ n j, skipLines text n (rowStart text j) = rowStart text (j + n) := by
  intro n
  induction n with
  | zero => exact fun j => rfl
  | succ n ih =>
    intro j
    have hsum : j + (n + 1) = j + 1 + n := by omega
    unfold skipLines
    split_ifs with h
    · rw [rowStart_succ, ih, hsum]
    · have hend := rowStart_end (not_not.1 h)
      rw [hsum, ← ih, hend, ih]
      have hstay : ∀ m, rowStart text (j + m) = rowStart text j := by
        intro m
        induction m with
        | zero => rfl
        | succ m ihm => rw [← Nat.add_assoc, rowStart_end (by rw [ihm]; exact not_not.1 h), ihm]
      exact (hstay n).symm

theorem showLines_succ (k l p : Nat) : showLines text (k + 1) l p =
    if charAt text p ≠ 0 then
      (nextLine text .showCurrent l p).1 ++ showLines text k (l + 1) (nextLine text .showCurrent l p).2
    else clearLine .showCurrent l 0 ++ showLines text k (l + 1) p := rfl

/-- The characters that the rows show. -/
theorem mem_showLines : ∀ k l j c r o, { col := c, row := r, src := some o } ∈ showLines text k l (rowStart text j) ↔
    ∃ i < k, r = l + i ∧ InRow text (j + i) c o := by
  intro k
  induction k with
  | zero =>
    intro l j c r o
    simp [showLines]
  | succ k ih =>
    intro l j c r o
    have hsplit : (∃ i < k + 1, r = l + i ∧ InRow text (j + i) c o) ↔
        (r = l ∧ InRow text j c o) ∨ ∃ i < k, r = l + 1 + i ∧ InRow text (j + 1 + i) c o := by
      constructor
      · rintro ⟨i, hi, hr, hin⟩
        cases i with
        | zero => exact Or.inl ⟨hr, hin⟩
        | succ i =>
          rw [Nat.add_comm i 1, ← Nat.add_assoc] at hin hr
          exact Or.inr ⟨i, by omega, hr, hin⟩
      · rintro (⟨hr, hin⟩ | ⟨i, hi, hr, hin⟩)
        · exact ⟨0, by omega, hr, hin⟩
        · rw [Nat.add_assoc] at hin hr
          exact ⟨1 + i, by omega, hr, hin⟩
    rw [hsplit, showLines_succ]
    by_cases h : charAt text (rowStart text j) ≠ 0
    · rw [if_pos h, rowStart_succ, List.mem_append, mem_nextLine, ih]
      rfl
    · have hend := not_not.1 h
      have hempty : ¬InRow text j c o := fun hin => by
        have hlt := hin.1
        rw [rowLen_end hend] at hlt
        exact Nat.not_lt_zero _ hlt
      rw [if_neg h, List.mem_append, ← rowStart_end hend, ih]
      simp only [not_mem_clearLine, hempty, and_false, false_or]

/-- The characters that `show_buffer_at_line` draws. -/
theorem mem_showBufferAtLine {n c r o : Nat} : { col := c, row := r, src := some o } ∈ showBufferAtLine text n ↔
    ∃ i < 27, r = 1 + i ∧ InRow text (n + i) c o := by
  have hskip := skipLines_eq text n 0
  rw [Nat.zero_add] at hskip
  unfold showBufferAtLine
  rw [← rowStart, hskip, mem_showLines]
  rfl

/-! ## The row of a character -/

/-- While the text goes on, a row starts after the one before. -/
theorem rowStart_lt (h0 : 0 ∉ text) {j : Nat} (h : rowStart text j < text.length) : rowStart text j < rowStart text (j + 1) := by
  rw [rowStart, nextLine_snd]
  split_ifs with hnl
  · omega
  · by_cases hlen : 0 < rowLen text screenWidth (rowStart text j)
    · omega
    · have hzero : rowLen text screenWidth (rowStart text j) = 0 := by omega
      rw [hzero, Nat.add_zero] at hnl
      have hlt : rowLen text screenWidth (rowStart text j) < screenWidth := by
        rw [hzero]
        decide
      rcases rowLen_stop hlt with hc | hc
      · rw [hzero, Nat.add_zero, charAt_eq_zero h0] at hc
        omega
      · rw [hzero, Nat.add_zero] at hc
        exact absurd hc hnl

theorem rowStart_mono (h0 : 0 ∉ text) {i j : Nat} (h : i ≤ j) : rowStart text i ≤ rowStart text j := by
  induction h with
  | refl => exact Nat.le_refl _
  | @step m _ ih =>
    refine Nat.le_trans ih ?_
    by_cases hlt : rowStart text m < text.length
    · exact Nat.le_of_lt (rowStart_lt h0 hlt)
    · exact Nat.le_of_eq (rowStart_end ((charAt_eq_zero h0).2 (Nat.le_of_not_lt hlt))).symm

/-- Every offset in the text is between two starts of rows. -/
theorem exists_row (h0 : 0 ∉ text) {o : Nat} (ho : o < text.length) : ∃ j, rowStart text j ≤ o ∧ o < rowStart text (j + 1) := by
  have hgrow : ∀ n, n ≤ rowStart text n ∨ text.length ≤ rowStart text n := by
    intro n
    induction n with
    | zero => exact Or.inl (Nat.le_refl 0)
    | succ n ih =>
      by_cases hlt : rowStart text n < text.length
      · have := rowStart_lt h0 hlt
        omega
      · have : rowStart text n ≤ rowStart text (n + 1) := rowStart_mono h0 (Nat.le_succ n)
        omega
  have hfind : ∀ n, rowStart text n ≤ o ∨ ∃ j, rowStart text j ≤ o ∧ o < rowStart text (j + 1) := by
    intro n
    induction n with
    | zero => exact Or.inl (Nat.zero_le o)
    | succ n ih =>
      rcases ih with hn | hn
      · by_cases hlt : o < rowStart text (n + 1)
        · exact Or.inr ⟨n, hn, hlt⟩
        · exact Or.inl (Nat.le_of_not_lt hlt)
      · exact Or.inr hn
  have := hgrow (o + 1)
  exact (hfind (o + 1)).resolve_left (by omega)

/-- Between two starts there are the characters of the row, and a newline that may follow. -/
theorem row_cases {j o : Nat} (hlo : rowStart text j ≤ o) (hhi : o < rowStart text (j + 1)) :
    InRow text j (o - rowStart text j) o ∨
      (o = rowStart text j + rowLen text screenWidth (rowStart text j) ∧ charAt text o = newline) := by
  rw [rowStart, nextLine_snd] at hhi
  by_cases hin : o - rowStart text j < rowLen text screenWidth (rowStart text j)
  · exact Or.inl ⟨hin, by omega⟩
  · split_ifs at hhi with hnl
    · obtain rfl : o = rowStart text j + rowLen text screenWidth (rowStart text j) := by omega
      exact Or.inr ⟨rfl, hnl⟩
    · omega

theorem inRow_next {j c o : Nat} (h : InRow text j c o) : o < rowStart text (j + 1) := by
  have := h.1
  rw [rowStart, nextLine_snd, h.2]
  split_ifs <;> omega

/-- A character is drawn in one place. -/
theorem inRow_unique (h0 : 0 ∉ text) {j j' c c' o : Nat} (h : InRow text j c o) (h' : InRow text j' c' o) : j = j' ∧ c = c' := by
  have hjj : j = j' := by
    rcases Nat.lt_trichotomy j j' with hlt | heq | hlt
    · have h1 := inRow_next h
      have h2 : rowStart text (j + 1) ≤ rowStart text j' := rowStart_mono h0 hlt
      have h3 := h'.2
      omega
    · exact heq
    · have h1 := inRow_next h'
      have h2 : rowStart text (j' + 1) ≤ rowStart text j := rowStart_mono h0 hlt
      have h3 := h.2
      omega
  subst hjj
  have h1 := h.2
  have h2 := h'.2
  exact ⟨rfl, by omega⟩

/-! ## The line of an offset -/

theorem linecolLoop_add (h0 : 0 ∉ text) : ∀ (a b p col line : Nat), p + a ≤ text.length →
    linecolLoop text (a + b) p col line =
      linecolLoop text b (p + a) (linecolLoop text a p col line).1 (linecolLoop text a p col line).2 := by
  intro a
  induction a with
  | zero =>
    intro b p col line _
    rw [Nat.zero_add]
    rfl
  | succ a ih =>
    intro b p col line hp
    have hc : ¬charAt text p = 0 := fun h => by
      have := (charAt_eq_zero h0).1 h
      omega
    have hsum : a + 1 + b = a + b + 1 := by omega
    have hpos : p + (a + 1) = p + 1 + a := by omega
    rw [hsum, hpos]
    simp only [linecolLoop, if_neg hc]
    split_ifs <;> exact ih b (p + 1) _ _ (by omega)

/-- Along a row the column goes up, and a full row is followed by the next line. -/
theorem linecolLoop_row : ∀ (a k p col line : Nat), col + k = screenWidth → col < screenWidth → a ≤ rowLen text k p →
    linecolLoop text a p col line = if col + a = screenWidth then (0, line + 1) else (col + a, line) := by
  intro a
  induction a with
  | zero =>
    intro k p col line _ hcol _
    rw [Nat.add_zero, if_neg (Nat.ne_of_lt hcol)]
    rfl
  | succ a ih =>
    intro k p col line hk hcol ha
    cases k with
    | zero => exact absurd ha (Nat.not_succ_le_zero a)
    | succ k =>
      unfold rowLen at ha
      split_ifs at ha with hc
      · rw [linecolLoop, if_neg hc.1, if_neg hc.2]
        by_cases hfull : screenWidth ≤ col + 1
        · have hk0 : k = 0 := by omega
          rw [hk0, rowLen] at ha
          have ha0 : a = 0 := by omega
          rw [if_pos hfull, ha0, if_pos (by omega)]
          rfl
        · rw [if_neg hfull, ih k (p + 1) (col + 1) line (by omega) (by omega) (by omega), Nat.add_right_comm col 1 a,
            Nat.add_assoc col a 1]
      · omega

theorem linecolLoop_col (text : CStr) : ∀ (a p col line : Nat), col < screenWidth → (linecolLoop text a p col line).1 < screenWidth := by
  intro a
  induction a with
  | zero => exact fun p col line h => h
  | succ a ih =>
    intro p col line h
    unfold linecolLoop
    split_ifs with h1 h2 h3
    · exact h
    · exact ih _ _ _ (by decide)
    · exact ih _ _ _ (by decide)
    · exact ih _ _ _ (by omega)

theorem fullRows_succ (j : Nat) : fullRows text (j + 1) = fullRows text j +
    if rowLen text screenWidth (rowStart text j) = screenWidth ∧ charAt text (rowStart text j + screenWidth) = newline
    then 1 else 0 := by
  unfold fullRows
  rw [List.range_succ, List.countP_append, List.countP_singleton]
  simp only [decide_eq_true_eq]

/-- The start of a row is at column 0, as many lines further down as there have been full rows with a newline after them. -/
theorem linecol_rowStart (h0 : 0 ∉ text) : ∀ j, rowStart text j < text.length →
    bufferOffsetToLinecol text (rowStart text j) = (0, j + fullRows text j) := by
  intro j
  induction j with
  | zero => exact fun _ => rfl
  | succ j ih =>
    intro hj
    have hlt : rowStart text j < text.length := Nat.lt_of_le_of_lt (rowStart_mono h0 (Nat.le_succ j)) hj
    obtain ⟨p, hp⟩ : ∃ p, p = rowStart text j := ⟨_, rfl⟩
    obtain ⟨m, hm⟩ : ∃ m, m = rowLen text screenWidth p := ⟨_, rfl⟩
    have hnext : rowStart text (j + 1) = if charAt text (p + m) = newline then p + m + 1 else p + m := by
      rw [rowStart, nextLine_snd, hm, hp]
    have hle := rowLen_le text screenWidth p
    have hstop : rowLen text screenWidth p < screenWidth → _ := rowLen_stop
    rw [fullRows_succ, ← hp, ← hm]
    rw [← hm] at hle hstop
    rw [hnext] at hj ⊢
    have hpm : p + m < text.length := by split_ifs at hj <;> omega
    have hrow : bufferOffsetToLinecol text (p + m) =
        if m = screenWidth then (0, j + fullRows text j + 1) else (m, j + fullRows text j) := by
      have hih := ih hlt
      rw [← hp] at hih
      unfold bufferOffsetToLinecol at hih ⊢
      rw [linecolLoop_add h0 p m 0 0 0 (by omega), hih, Nat.zero_add,
        linecolLoop_row m screenWidth p 0 _ (Nat.zero_add _) (by decide) (Nat.le_of_eq hm), Nat.zero_add]
    by_cases hnl : charAt text (p + m) = newline
    · have hstep : bufferOffsetToLinecol text (p + m + 1) = (0, (bufferOffsetToLinecol text (p + m)).2 + 1) := by
        have hc : ¬charAt text (p + m) = 0 := fun h => absurd (h.symm.trans hnl) (by decide)
        unfold bufferOffsetToLinecol
        rw [linecolLoop_add h0 (p + m) 1 0 0 0 (by omega), Nat.zero_add, linecolLoop, if_neg hc, if_pos hnl, linecolLoop]
      rw [if_pos hnl, hstep, hrow]
      by_cases hfull : m = screenWidth
      · rw [if_pos hfull, if_pos ⟨hfull, hfull ▸ hnl⟩, Prod.mk.injEq]
        exact ⟨rfl, by omega⟩
      · rw [if_neg hfull, if_neg fun h => hfull h.1, Prod.mk.injEq]
        exact ⟨rfl, by omega⟩
    · have hfull : m = screenWidth := by
        by_contra hne
        rcases hstop (by omega) with hc | hc
        · rw [charAt_eq_zero h0] at hc
          omega
        · exact hnl hc
      rw [if_neg hnl, hrow, if_pos hfull, if_neg fun h => hnl (hfull ▸ h.2), Prod.mk.injEq]
      exact ⟨rfl, by omega⟩

/-- The column and line of a character in a row. -/
theorem linecol_inRow (h0 : 0 ∉ text) {j c o : Nat} (h : InRow text j c o) :
    bufferOffsetToLinecol text o = (c, j + fullRows text j) := by
  have hc := rowLen_char h.1
  have hle := rowLen_le text screenWidth (rowStart text j)
  have hlt : rowStart text j + c < text.length := by
    have := hc.1
    rw [Ne, charAt_eq_zero h0] at this
    omega
  have hstart := linecol_rowStart h0 j (by omega)
  have hcw : ¬c = screenWidth := by
    have := h.1
    omega
  rw [h.2]
  unfold bufferOffsetToLinecol at hstart ⊢
  rw [linecolLoop_add h0 (rowStart text j) c 0 0 0 (by omega), hstart, Nat.zero_add,
    linecolLoop_row c screenWidth _ 0 _ (Nat.zero_add _) (by decide) (Nat.le_of_lt h.1), Nat.zero_add, if_neg hcw]

/-! ## Full rows and the lines of the text -/

theorem lineLength_succ {p : Nat} (h : p < text.length) :
    lineLength text (p + 1) = if charAt text p = newline then 0 else lineLength text p + 1 := by
  have hget : charAt text p = text[p] := List.getD_eq_getElem _ _ h
  unfold lineLength
  rw [List.take_add_one, List.getElem?_eq_getElem h, Option.toList_some, List.reverse_append, List.reverse_singleton,
    List.singleton_append, List.takeWhile_cons, hget]
  by_cases hc : text[p] = newline <;> simp [hc]

theorem lineLength_row (h0 : 0 ∉ text) {k p : Nat} : ∀ a ≤ rowLen text k p, lineLength text (p + a) = lineLength text p + a := by
  intro a
  induction a with
  | zero => exact fun _ => rfl
  | succ a ih =>
    intro ha
    have hc := rowLen_char (show a < rowLen text k p from ha)
    have hlt : p + a < text.length := by
      have := hc.1
      rw [Ne, charAt_eq_zero h0] at this
      omega
    rw [← Nat.add_assoc, lineLength_succ hlt, if_neg hc.2, ih (by omega)]
    rfl

/-- A row starts a multiple of the width into its line, and at a newline only when the line is empty. -/
theorem lineLength_rowStart (h0 : 0 ∉ text) : ∀ j, rowStart text j < text.length →
    lineLength text (rowStart text j) % screenWidth = 0 ∧
      (charAt text (rowStart text j) = newline → lineLength text (rowStart text j) = 0) := by
  intro j
  induction j with
  | zero => exact fun _ => ⟨rfl, fun _ => rfl⟩
  | succ j ih =>
    intro hj
    have hlt : rowStart text j < text.length := Nat.lt_of_le_of_lt (rowStart_mono h0 (Nat.le_succ j)) hj
    have hle := rowLen_le text screenWidth (rowStart text j)
    have hrow := lineLength_row h0 (k := screenWidth) (p := rowStart text j) _ (Nat.le_refl _)
    have hstop : rowLen text screenWidth (rowStart text j) < screenWidth → _ := rowLen_stop
    rw [rowStart, nextLine_snd] at hj ⊢
    by_cases hnl : charAt text (rowStart text j + rowLen text screenWidth (rowStart text j)) = newline
    · rw [if_pos hnl] at hj ⊢
      have hzero : lineLength text (rowStart text j + rowLen text screenWidth (rowStart text j) + 1) = 0 := by
        rw [lineLength_succ (by omega), if_pos hnl]
      exact ⟨by rw [hzero]; rfl, fun _ => hzero⟩
    · rw [if_neg hnl] at hj ⊢
      have hfull : rowLen text screenWidth (rowStart text j) = screenWidth := by
        by_contra hne
        rcases hstop (by omega) with hc | hc
        · rw [charAt_eq_zero h0] at hc
          omega
        · exact hnl hc
      refine ⟨?_, fun h => absurd h hnl⟩
      rw [hrow, hfull, Nat.add_mod_right]
      exact (ih hlt).1

/-- For a character that is drawn, the two ways to count rows differ just when a newline before it follows full rows. -/
theorem fullRows_pos (h0 : 0 ∉ text) {j c o : Nat} (h : InRow text j c o) : fullRows text j ≠ 0 ↔ FullBreak text o := by
  have hlt : o < text.length := by
    have := (rowLen_char h.1).1
    rw [← h.2, Ne, charAt_eq_zero h0] at this
    omega
  have hcount : fullRows text j ≠ 0 ↔ ∃ i < j, rowLen text screenWidth (rowStart text i) = screenWidth ∧
      charAt text (rowStart text i + screenWidth) = newline := by
    unfold fullRows
    rw [Ne, List.countP_eq_zero]
    simp only [List.mem_range, decide_eq_true_eq]
    push Not
    rfl
  rw [hcount]
  have ho := h.2
  constructor
  · rintro ⟨i, hi, hfull, hnl⟩
    have hnext : rowStart text (i + 1) = rowStart text i + screenWidth + 1 := by
      rw [rowStart, nextLine_snd, hfull, if_pos hnl]
    have hmono := rowStart_mono h0 (show i + 1 ≤ j from hi)
    have hrow := lineLength_row h0 (k := screenWidth) (p := rowStart text i) _ (Nat.le_of_eq hfull.symm)
    refine ⟨rowStart text i + screenWidth, by omega, hnl, ?_, ?_⟩
    · rw [hrow]
      exact Nat.lt_of_lt_of_le (by decide) (Nat.le_add_left _ _)
    · rw [hrow, Nat.add_mod_right]
      exact (lineLength_rowStart h0 i (by omega)).1
  · rintro ⟨p, hp, hnl, hpos, hmod⟩
    obtain ⟨i, hlo, hhi⟩ := exists_row h0 (show p < text.length by omega)
    have hend : p = rowStart text i + rowLen text screenWidth (rowStart text i) := by
      rcases row_cases hlo hhi with hin | ⟨hend, -⟩
      · have hc := (rowLen_char hin.1).2
        rw [← hin.2] at hc
        exact absurd hnl hc
      · exact hend
    have hij : i < j := by
      by_contra hge
      have hmono := rowStart_mono h0 (Nat.le_of_not_lt hge)
      have hin : p - rowStart text j < rowLen text screenWidth (rowStart text j) := by
        have := h.1
        omega
      have hc := (rowLen_char hin).2
      rw [Nat.add_sub_cancel' (by omega)] at hc
      exact hc hnl
    have hrow := lineLength_row h0 (k := screenWidth) (p := rowStart text i) _ (Nat.le_refl _)
    obtain ⟨hstart, hempty⟩ := lineLength_rowStart h0 i (by omega)
    rw [← hend] at hrow
    have hle := rowLen_le text screenWidth (rowStart text i)
    have hfull : rowLen text screenWidth (rowStart text i) = screenWidth := by
      by_cases hz : rowLen text screenWidth (rowStart text i) = 0
      · rw [hz, Nat.add_zero] at hend
        rw [hend] at hnl hpos
        have := hempty hnl
        omega
      · unfold screenWidth at *
        omega
    exact ⟨i, hij, hfull, by rw [← hfull, ← hend]; exact hnl⟩

/-! ## The cursor -/

theorem scrollTo_range (currentLine line : Nat) : scrollTo currentLine line ≤ line ∧ line ≤ scrollTo currentLine line + 26 := by
  unfold scrollTo screenHeight
  split_ifs <;> omega

/-- The cursor is in the editor area, and on the character at its offset just when no newline before this offset follows a line
that fills its rows. -/
theorem edit_cursor_cell (h0 : 0 ∉ text) (offset currentLine : Nat) :
    CursorAgrees text offset (editDisplay text offset currentLine).2 ↔
      (offset < text.length → charAt text offset ≠ newline → ¬FullBreak text offset) := by
  obtain ⟨col, line, hlc⟩ : ∃ col line, bufferOffsetToLinecol text offset = (col, line) := ⟨_, _, rfl⟩
  have hcol : col < screenWidth := by
    have h := linecolLoop_col text offset 0 0 0 (by decide)
    unfold bufferOffsetToLinecol at hlc
    rwa [hlc] at h
  obtain ⟨n, hn⟩ : ∃ n, n = scrollTo currentLine line := ⟨_, rfl⟩
  have hrange := scrollTo_range currentLine line
  have hshow : (editDisplay text offset currentLine).2 =
      { calls := showBufferAtLine text n, col := col, row := line - n + 1 } := by
    unfold editDisplay
    rw [hlc, hn]
  rw [hshow]
  rw [← hn] at hrange
  have hplace : offset < text.length → charAt text offset ≠ newline → ∃ j, InRow text j col offset ∧ line = j + fullRows text j := by
    intro hlt hnl
    obtain ⟨j, hlo, hhi⟩ := exists_row h0 hlt
    rcases row_cases hlo hhi with hin | ⟨-, hc⟩
    · have h := linecol_inRow h0 hin
      rw [hlc, Prod.mk.injEq] at h
      exact ⟨j, h.1 ▸ hin, h.2⟩
    · exact absurd hc hnl
  constructor
  · rintro ⟨-, hdrawn⟩ hlt hnl hbreak
    obtain ⟨j, hin, hline⟩ := hplace hlt hnl
    obtain ⟨i, hi, hr, hin'⟩ := mem_showBufferAtLine.1 ((hdrawn hlt hnl _ _).2 ⟨rfl, rfl⟩)
    obtain ⟨hj, -⟩ := inRow_unique h0 hin hin'
    have hpos := (fullRows_pos h0 hin).2 hbreak
    simp only at hr
    omega
  · intro h
    refine ⟨⟨hcol, Nat.succ_pos _, by simp only [screenHeight]; omega⟩, fun hlt hnl c r => ?_⟩
    obtain ⟨j, hin, hline⟩ := hplace hlt hnl
    have hzero : fullRows text j = 0 := not_not.1 fun hne => h hlt hnl ((fullRows_pos h0 hin).1 hne)
    rw [hzero, Nat.add_zero] at hline
    rw [mem_showBufferAtLine]
    constructor
    · rintro ⟨i, hi, hr, hin'⟩
      obtain ⟨hj, hc⟩ := inRow_unique h0 hin hin'
      exact ⟨hc.symm, by simp only; omega⟩
    · rintro ⟨hc, hr⟩
      simp only at hc hr
      refine ⟨line - n, by omega, by omega, ?_⟩
      rw [hc, Nat.add_sub_cancel' hrange.1, hline]
      exact hin

end Text

theorem edit_cursor_cell_sample :
    CursorAgrees [97, 10, 98] 2 (editDisplay [97, 10, 98] 2 0).2 ↔
      (2 < [97, 10, 98].length → charAt [97, 10, 98] 2 ≠ newline → ¬FullBreak [97, 10, 98] 2) :=
  edit_cursor_cell (by decide) 2 0

/-- After a line of 80 characters, the cursor is one row below the character at its offset. -/
theorem edit_cursor_below : 0 ∉ List.replicate 80 97 ++ [newline, 98] ∧
    ¬CursorAgrees (List.replicate 80 97 ++ [newline, 98]) 81 (editDisplay (List.replicate 80 97 ++ [newline, 98]) 81 0).2 := by
  refine ⟨by decide, fun h => ?_⟩
  have hmem := (h.drawn (by decide) (by decide) _ _).2 ⟨rfl, rfl⟩
  revert hmem
  decide +kernel

end NanoS32
