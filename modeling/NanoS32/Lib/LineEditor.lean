import Mathlib.Data.List.Basic
import Mathlib.Data.List.GetD

/-!
# Editing a line of bounded length

The abstract line editor: a text of at most `cap` elements with a cursor in it, and the edits a user makes at the cursor. An
array that holds the text and then blanks is edited by moving parts of it; the lemmas say which element each edit leaves at each
place.
-/

/-- A text of at most `cap` elements, with a cursor at one of them or behind the last. -/
@[ext]
structure LineEditor (α : Type) (cap : Nat) where
  text : List α
  cursor : Nat
  fits : text.length ≤ cap
  inside : cursor ≤ text.length

namespace LineEditor

/-- An edit. -/
inductive Edit (α : Type) where
  | insert (a : α)
  | backspace
  | delete
  | left
  | right
  | home
  | last

variable {α : Type} {cap : Nat}

/-- The line with no text. -/
def empty : LineEditor α cap := ⟨[], 0, Nat.zero_le _, Nat.le_refl 0⟩

/-- Insertion at the cursor, which moves behind the new element. A full line ignores it. -/
def insert (l : LineEditor α cap) (a : α) : LineEditor α cap :=
  if h : l.text.length < cap then
    { text := l.text.insertIdx l.cursor a
      cursor := l.cursor + 1
      fits := by rw [List.length_insertIdx_of_le_length l.inside]; exact h
      inside := by rw [List.length_insertIdx_of_le_length l.inside]; exact Nat.succ_le_succ l.inside }
  else l

/-- Deletion of the element before the cursor. -/
def backspace (l : LineEditor α cap) : LineEditor α cap :=
  { text := if 0 < l.cursor then l.text.eraseIdx (l.cursor - 1) else l.text
    cursor := l.cursor - 1
    fits := by
      have hfits := l.fits
      have hle := List.length_eraseIdx_le l.text (l.cursor - 1)
      split_ifs <;> omega
    inside := by
      have hin := l.inside
      split_ifs with h
      · rw [List.length_eraseIdx_of_lt (by omega)]
        omega
      · omega }

/-- Deletion of the element at the cursor. -/
def delete (l : LineEditor α cap) : LineEditor α cap :=
  { text := l.text.eraseIdx l.cursor
    cursor := l.cursor
    fits := Nat.le_trans (List.length_eraseIdx_le _ _) l.fits
    inside := by
      have hin := l.inside
      rw [List.length_eraseIdx]
      split_ifs <;> omega }

/-- The line with the cursor somewhere else. -/
def moveTo (l : LineEditor α cap) (i : Nat) (h : i ≤ l.text.length) : LineEditor α cap := { l with cursor := i, inside := h }

/-- What an edit does. -/
def apply (l : LineEditor α cap) : Edit α → LineEditor α cap
  | .insert a => l.insert a
  | .backspace => l.backspace
  | .delete => l.delete
  | .left => l.moveTo (l.cursor - 1) (Nat.le_trans (Nat.sub_le _ _) l.inside)
  | .right => l.moveTo (min (l.cursor + 1) l.text.length) (Nat.min_le_right _ _)
  | .home => l.moveTo 0 (Nat.zero_le _)
  | .last => l.moveTo l.text.length (Nat.le_refl _)

/-- The line after a run of edits. -/
def run (l : LineEditor α cap) (edits : List (Edit α)) : LineEditor α cap := edits.foldl apply l

/-! ## The element at a place -/

/-- An insertion moves the elements from the cursor on to the next place. -/
theorem getD_insertIdx {text : List α} {i : Nat} (hi : i ≤ text.length) (a blank : α) (j : Nat) :
    (text.insertIdx i a).getD j blank =
      if j < i then text.getD j blank else if j = i then a else text.getD (j - 1) blank := by
  rw [List.getD_eq_getElem?_getD, List.getElem?_insertIdx]
  split_ifs with h1 h2 h3
  · rfl
  · rfl
  · omega
  · rfl

/-- A deletion moves the elements behind the place to the one before. -/
theorem getD_eraseIdx (text : List α) (i : Nat) (blank : α) (j : Nat) :
    (text.eraseIdx i).getD j blank = if j < i then text.getD j blank else text.getD (j + 1) blank := by
  rw [List.getD_eq_getElem?_getD, List.getElem?_eraseIdx]
  split_ifs
  · rfl
  · rfl

/-- An edit puts no element into the text but the one it inserts. -/
theorem forall_apply {P : α → Prop} {l : LineEditor α cap} (h : ∀ a ∈ l.text, P a) {e : Edit α}
    (he : ∀ a, e = .insert a → P a) : ∀ a ∈ (l.apply e).text, P a := by
  intro b hb
  cases e with
  | insert a =>
    simp only [apply, insert] at hb
    split_ifs at hb with hlt
    · rcases (List.mem_insertIdx l.inside).1 hb with rfl | hb
      · exact he _ rfl
      · exact h b hb
    · exact h b hb
  | backspace =>
    simp only [apply, backspace] at hb
    split_ifs at hb
    · exact h b (List.mem_of_mem_eraseIdx hb)
    · exact h b hb
  | delete => exact h b (List.mem_of_mem_eraseIdx hb)
  | left => exact h b hb
  | right => exact h b hb
  | home => exact h b hb
  | last => exact h b hb

/-- An edit makes the text at most one element longer. -/
theorem length_apply_le (l : LineEditor α cap) (e : Edit α) : (l.apply e).text.length ≤ l.text.length + 1 := by
  cases e with
  | insert a =>
    simp only [apply, insert]
    split_ifs
    · exact List.length_insertIdx_le_succ
    · exact Nat.le_succ _
  | backspace =>
    simp only [apply, backspace]
    split_ifs
    · exact Nat.le_trans (List.length_eraseIdx_le _ _) (Nat.le_succ _)
    · exact Nat.le_succ _
  | delete => exact Nat.le_trans (List.length_eraseIdx_le _ _) (Nat.le_succ _)
  | left => exact Nat.le_succ _
  | right => exact Nat.le_succ _
  | home => exact Nat.le_succ _
  | last => exact Nat.le_succ _

end LineEditor
