import Mathlib.Data.List.Basic

/-!
# A scrolling terminal

A screen of `h` rows of `w` cells with a cursor on one of its cells. A cell that is written moves the cursor on, to the start of the
next row at the end of a row; below the last row the screen moves up by one row, and a blank row comes in.
-/

/-- A screen with a cursor on it. -/
@[ext]
structure Terminal (α : Type) (h w : Nat) where
  rows : List (List α)
  row : Nat
  col : Nat
  height : rows.length = h
  width : ∀ line ∈ rows, line.length = w
  row_lt : row < h
  col_lt : col < w

namespace Terminal

variable {α : Type} {h w : Nat}

/-- The cell at a row and a column of the screen. -/
def cell (t : Terminal α h w) (r k : Nat) : Option α := t.rows[r]?.bind fun cells => cells[k]?

/-- The screen with the cell at the cursor replaced. -/
def write (t : Terminal α h w) (a : α) : Terminal α h w :=
  { t with
    rows := t.rows.modify t.row fun line => line.set t.col a
    height := (List.length_modify _ _ _).trans t.height
    width := by
      intro line hline
      obtain ⟨r, hr⟩ := List.mem_iff_getElem?.1 hline
      rw [List.getElem?_modify] at hr
      obtain ⟨line', hline', rfl⟩ := Option.map_eq_some_iff.1 hr
      have hw := t.width line' (List.mem_of_getElem? hline')
      split_ifs
      · rw [List.length_set, hw]
      · exact hw }

/-- The rows with the first one gone and a blank one behind the last. -/
def scrolled (t : Terminal α h w) (blank : α) : List (List α) := t.rows.tail ++ [List.replicate w blank]

/-- The cursor at the start of the next row. -/
def lineFeed (t : Terminal α h w) (blank : α) : Terminal α h w :=
  if hrow : t.row + 1 < h then { t with row := t.row + 1, col := 0, row_lt := hrow, col_lt := Nat.zero_lt_of_lt t.col_lt }
  else
    { rows := t.scrolled blank
      row := t.row
      col := 0
      height := by
        have hpos := t.row_lt
        rw [scrolled, List.length_append, List.length_tail, t.height, List.length_singleton]
        omega
      width := by
        intro line hline
        rcases List.mem_append.1 hline with hline | hline
        · exact t.width line (List.mem_of_mem_tail hline)
        · rw [List.mem_singleton.1 hline, List.length_replicate]
      row_lt := t.row_lt
      col_lt := Nat.zero_lt_of_lt t.col_lt }

/-- The cursor at the start of its row. -/
def carriageReturn (t : Terminal α h w) : Terminal α h w := { t with col := 0, col_lt := Nat.zero_lt_of_lt t.col_lt }

/-- A cell is written at the cursor, which moves to the next one. -/
def put (t : Terminal α h w) (blank a : α) : Terminal α h w :=
  if hcol : t.col + 1 < w then { t.write a with col := t.col + 1, col_lt := hcol } else (t.write a).lineFeed blank

/-! ## The cells -/

theorem cell_write (t : Terminal α h w) (a : α) (r k : Nat) (hk : k < w) :
    (t.write a).cell r k = if r = t.row ∧ k = t.col then some a else t.cell r k := by
  have hrow := t.row_lt
  rw [cell, cell, write, List.getElem?_modify]
  by_cases hr : r = t.row
  · have hlt : t.row < t.rows.length := by rw [t.height]; exact hrow
    have hw := t.width _ (List.getElem_mem hlt)
    subst hr
    rw [List.getElem?_eq_getElem hlt, Option.map_eq_map, Option.map_some, Option.bind_some, Option.bind_some, if_pos rfl,
      List.getElem?_set, hw]
    by_cases hkc : k = t.col
    · rw [if_pos hkc.symm, if_pos (by omega), if_pos ⟨rfl, hkc⟩]
    · rw [if_neg (Ne.symm hkc), if_neg fun hc => hkc hc.2]
  · have hid : (fun line : List α => if t.row = r then line.set t.col a else line) = id := funext fun _ => if_neg (Ne.symm hr)
    rw [hid, id_map, if_neg fun hc => hr hc.1]

theorem cell_scrolled (t : Terminal α h w) (blank : α) (r k : Nat) (hr : r < h) (hk : k < w) :
    ((t.scrolled blank)[r]?.bind fun cells => cells[k]?) = if r + 1 < h then t.cell (r + 1) k else some blank := by
  rw [scrolled, List.getElem?_append, List.length_tail, t.height]
  by_cases hlast : r + 1 < h
  · rw [if_pos (by omega), if_pos hlast, cell, List.getElem?_tail]
  · have h0 : r - (h - 1) = 0 := by omega
    rw [if_neg (by omega), if_neg hlast, h0, List.getElem?_cons_zero, Option.bind_some, List.getElem?_replicate, if_pos hk]

/-- Screens with the same cells and the same cursor are the same. -/
theorem eq_of_cell {t t' : Terminal α h w} (hcell : ∀ r < h, ∀ k < w, t.cell r k = t'.cell r k) (hrow : t.row = t'.row)
    (hcol : t.col = t'.col) : t = t' := by
  refine Terminal.ext (List.ext_getElem (t.height.trans t'.height.symm) fun r hr hr' => ?_) hrow hcol
  have hw := t.width _ (List.getElem_mem hr)
  have hw' := t'.width _ (List.getElem_mem hr')
  refine List.ext_getElem (hw.trans hw'.symm) fun k hk hk' => ?_
  have heq := hcell r (by rw [← t.height]; exact hr) k (by rw [← hw]; exact hk)
  rw [cell, cell, List.getElem?_eq_getElem hr, List.getElem?_eq_getElem hr', Option.bind_some, Option.bind_some,
    List.getElem?_eq_getElem hk, List.getElem?_eq_getElem hk'] at heq
  exact Option.some.inj heq

end Terminal
