import Mathlib.Data.List.Basic
import Mathlib.Data.List.GetD
import Mathlib.Data.List.Nodup

/-!
# Doubly linked lists in a table

A table of cells, each with the index of the next cell and of the one before it; the index 0 ends a list. `Linked next prev l`
says that the cells `l` are such a list, from its head to its end.
-/

/-- The cells `l`, in this order, are linked: each is followed by the next and preceded by the one before, and the last is
followed by none. -/
def Linked (next prev : Nat → Nat) : List Nat → Prop
  | [] => False
  | [a] => next a = 0
  | a :: b :: l => next a = b ∧ b ≠ 0 ∧ prev b = a ∧ Linked next prev (b :: l)

namespace Linked

variable {next prev next' prev' : Nat → Nat}

theorem ne_nil {l : List Nat} (h : Linked next prev l) : l ≠ [] := by
  rintro rfl
  exact h

theorem tail {a b : Nat} {l : List Nat} (h : Linked next prev (a :: b :: l)) : Linked next prev (b :: l) := h.2.2.2

theorem next_head {a : Nat} {l : List Nat} (h : Linked next prev (a :: l)) : next a = l.headD 0 := by
  cases l with
  | nil => exact h
  | cons b l => exact h.1

theorem headD_ne_zero {a : Nat} {l : List Nat} (h : Linked next prev (a :: l)) (hl : l ≠ []) : l.headD 0 ≠ 0 := by
  cases l with
  | nil => exact absurd rfl hl
  | cons b l => exact h.2.1

/-- The links of a list stay in any table that agrees on its cells; the cell before its head is not one of its links. -/
theorem congr {a : Nat} {l : List Nat} (h : Linked next prev (a :: l)) (hn : ∀ x ∈ a :: l, next' x = next x)
    (hp : ∀ x ∈ l, prev' x = prev x) : Linked next' prev' (a :: l) := by
  induction l generalizing a with
  | nil => rw [Linked, hn a (by simp)]; exact h
  | cons b l ih =>
    obtain ⟨h1, h2, h3, h4⟩ := h
    refine ⟨(hn a (by simp)).trans h1, h2, (hp b (by simp)).trans h3, ih h4 ?_ ?_⟩
    · exact fun x hx => hn x (List.mem_cons_of_mem _ hx)
    · exact fun x hx => hp x (List.mem_cons_of_mem _ hx)

/-- The end of a list is a list. -/
theorem suffix {l₁ : List Nat} {a : Nat} {l₂ : List Nat} (h : Linked next prev (l₁ ++ a :: l₂)) :
    Linked next prev (a :: l₂) := by
  induction l₁ with
  | nil => exact h
  | cons b l₁ ih =>
    cases l₁ with
    | nil => exact h.tail
    | cons c l₁ => exact ih h.tail

/-- Cells after the first are not 0. -/
theorem ne_zero {a : Nat} {l : List Nat} (h : Linked next prev (a :: l)) : ∀ x ∈ l, x ≠ 0 := by
  induction l generalizing a with
  | nil => exact fun x hx => absurd hx List.not_mem_nil
  | cons b l ih =>
    intro x hx
    rcases List.mem_cons.1 hx with rfl | hx
    · exact h.2.1
    · exact ih h.tail x hx

/-- A list is determined by its head. -/
theorem unique {a : Nat} {l l' : List Nat} (h : Linked next prev (a :: l)) (h' : Linked next prev (a :: l')) : l = l' := by
  induction l generalizing a l' with
  | nil =>
    cases l' with
    | nil => rfl
    | cons b l' => exact absurd (h'.1.symm.trans h) h'.2.1
  | cons b l ih =>
    cases l' with
    | nil => exact absurd (h.1.symm.trans h') h.2.1
    | cons c l' =>
      obtain rfl : b = c := h.1.symm.trans h'.1
      rw [ih h.tail h'.tail]

/-- The cell after a given one. -/
theorem next_of_split {l₁ : List Nat} {a : Nat} {l₂ : List Nat} (h : Linked next prev (l₁ ++ a :: l₂)) :
    next a = l₂.headD 0 := h.suffix.next_head

/-- The cell before a given one. -/
theorem prev_of_split {l₁ : List Nat} {a b : Nat} {l₂ : List Nat} (h : Linked next prev (l₁ ++ a :: b :: l₂)) :
    prev b = a := h.suffix.2.2.1

/-- Cutting a list: the cells up to `a` are a list in a table where nothing follows `a`. -/
theorem take {l₁ : List Nat} {a : Nat} {l₂ : List Nat} (h : Linked next prev (l₁ ++ a :: l₂))
    (hn : ∀ x ∈ l₁, next' x = next x) (ha : next' a = 0) (hp : ∀ x ∈ l₁ ++ [a], prev' x = prev x) :
    Linked next' prev' (l₁ ++ [a]) := by
  induction l₁ with
  | nil => exact ha
  | cons b l₁ ih =>
    cases l₁ with
    | nil =>
      obtain ⟨h1, h2, h3, -⟩ := h
      exact ⟨(hn b (by simp)).trans h1, h2, (hp a (by simp)).trans h3, ha⟩
    | cons c l₁ =>
      obtain ⟨h1, h2, h3, h4⟩ := h
      refine ⟨(hn b (by simp)).trans h1, h2, (hp c (by simp)).trans h3, ih h4 ?_ ?_⟩
      · exact fun x hx => hn x (List.mem_cons_of_mem _ hx)
      · exact fun x hx => hp x (List.mem_cons_of_mem _ hx)

/-- Lengthening a list: after its last cell `a`, another list, whose head is preceded by `a`. -/
theorem append {l₁ : List Nat} {a b : Nat} {l₂ : List Nat} (h : Linked next prev (l₁ ++ [a]))
    (hn : ∀ x ∈ l₁, next' x = next x) (hp : ∀ x ∈ l₁ ++ [a], prev' x = prev x) (ha : next' a = b) (hb : b ≠ 0)
    (hba : prev' b = a) (h2 : Linked next' prev' (b :: l₂)) : Linked next' prev' (l₁ ++ a :: b :: l₂) := by
  induction l₁ with
  | nil => exact ⟨ha, hb, hba, h2⟩
  | cons c l₁ ih =>
    cases l₁ with
    | nil =>
      obtain ⟨h1, h2', h3, -⟩ := h
      exact ⟨(hn c (by simp)).trans h1, h2', (hp a (by simp)).trans h3, ha, hb, hba, h2⟩
    | cons e l₁ =>
      obtain ⟨h1, h2', h3, h4⟩ := h
      refine ⟨(hn c (by simp)).trans h1, h2', (hp e (by simp)).trans h3, ih h4 ?_ ?_⟩
      · exact fun x hx => hn x (List.mem_cons_of_mem _ hx)
      · exact fun x hx => hp x (List.mem_cons_of_mem _ hx)

/-- The cell at a place of a list is followed by the cell at the next place, and the last by none. -/
theorem next_getElem {l : List Nat} (h : Linked next prev l) {k : Nat} (hk : k < l.length) :
    next l[k] = l.getD (k + 1) 0 := by
  have hs : l = l.take k ++ l[k] :: l.drop (k + 1) := by simp
  have h' := h
  rw [hs] at h'
  rw [h'.next_of_split]
  cases hd : l.drop (k + 1) with
  | nil =>
    have : l.length ≤ k + 1 := List.drop_eq_nil_iff.1 hd
    rw [List.getD_eq_default _ _ this]
    rfl
  | cons b t =>
    have h1 : l[k + 1]? = some b := by
      rw [← List.head?_drop, hd]; rfl
    simp [List.getD_eq_getElem?_getD, h1]

/-- Cells that follow each other in the table are linked when each has the one after it as its next and the last has none. -/
theorem range' : ∀ {m e : Nat}, (∀ k < m, next (e + k) = e + k + 1 ∧ prev (e + k + 1) = e + k) → next (e + m) = 0 →
    Linked next prev (List.range' e (m + 1)) := by
  intro m
  induction m with
  | zero => exact fun _ hlast => hlast
  | succ m ih =>
    intro e h hlast
    obtain ⟨h1, h2⟩ := h 0 (Nat.succ_pos m)
    have hrest : Linked next prev (List.range' (e + 1) (m + 1)) := by
      refine ih (fun k hk => ?_) ?_
      · rw [Nat.add_assoc, Nat.add_comm 1 k]
        exact h (k + 1) (Nat.succ_lt_succ hk)
      · rw [Nat.add_assoc, Nat.add_comm 1 m]
        exact hlast
    rw [List.range'_succ] at hrest ⊢
    rw [List.range'_succ]
    exact ⟨h1, Nat.succ_ne_zero e, h2, hrest⟩

end Linked
