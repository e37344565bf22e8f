import Mathlib.Logic.Function.Iterate

/-!
# Parent functions

A function `f` that gives each node its parent, with a root that is its own parent. `Under f n m` says that going up from `m`
reaches `n`. A node from which going up reaches the root is on no cycle, and the subtrees of two of its children are disjoint.
-/

namespace Forest

variable {α : Type} {f g : α → α} {r n m : α}

/-- Going up from `m` reaches `n`. -/
def Under (f : α → α) (n m : α) : Prop := ∃ k, f^[k] m = n

theorem Under.refl (f : α → α) (n : α) : Under f n n := ⟨0, rfl⟩

theorem Under.trans {k : α} (h : Under f n m) (h' : Under f m k) : Under f n k := by
  obtain ⟨i, hi⟩ := h
  obtain ⟨j, hj⟩ := h'
  exact ⟨i + j, by rw [Function.iterate_add_apply, hj, hi]⟩

/-- A node is under another when its parent is. -/
theorem Under.step (h : Under f n (f m)) : Under f n m := by
  obtain ⟨k, hk⟩ := h
  exact ⟨k + 1, by rw [Function.iterate_succ_apply, hk]⟩

/-- A node under another is the other, or its parent is under it. -/
theorem Under.cases (h : Under f n m) : m = n ∨ Under f n (f m) := by
  obtain ⟨k, hk⟩ := h
  cases k with
  | zero => exact Or.inl hk
  | succ k => exact Or.inr ⟨k, by rw [← hk, Function.iterate_succ_apply]⟩

/-- A node under another is the other, or under one of its children. -/
theorem Under.child (h : Under f n m) (hne : m ≠ n) : ∃ c, f c = n ∧ c ≠ n ∧ Under f c m := by
  obtain ⟨k, hk⟩ := h
  induction k with
  | zero => exact absurd hk hne
  | succ k ih =>
    rw [Function.iterate_succ_apply'] at hk
    by_cases hc : f^[k] m = n
    · exact ih hc
    · exact ⟨f^[k] m, hk, hc, k, rfl⟩

theorem iterate_root (hr : f r = r) (k : Nat) : f^[k] r = r := Function.iterate_fixed hr k

/-- What is under the root's child path ends at the root: going up from the root stays there. -/
theorem Under.root_eq (hr : f r = r) (h : Under f n r) : n = r := by
  obtain ⟨k, hk⟩ := h
  rw [iterate_root hr] at hk
  exact hk.symm

/-- A node from which going up reaches the root is on no cycle, but for the root. -/
theorem root_of_cycle (hr : f r = r) (hn : Under f r n) {k : Nat} (hk : 0 < k) (hc : f^[k] n = n) : n = r := by
  obtain ⟨j, hj⟩ := hn
  have hloop : ∀ t, f^[k * t] n = n := by
    intro t
    rw [Function.iterate_mul]
    exact Function.iterate_fixed hc t
  have hle : j ≤ k * (j + 1) := by
    calc j ≤ 1 * (j + 1) := by omega
      _ ≤ k * (j + 1) := Nat.mul_le_mul_right _ hk
  obtain ⟨i, hi⟩ : ∃ i, k * (j + 1) = i + j := ⟨k * (j + 1) - j, by omega⟩
  have h := hloop (j + 1)
  rw [hi, Function.iterate_add_apply, hj, iterate_root hr] at h
  exact h.symm

/-- Two nodes under each other are the same. -/
theorem Under.antisymm (hr : f r = r) (hn : Under f r n) (h : Under f n m) (h' : Under f m n) : n = m := by
  obtain ⟨i, hi⟩ := h
  obtain ⟨j, hj⟩ := h'
  rcases Nat.eq_zero_or_pos (i + j) with h0 | hpos
  · obtain rfl : i = 0 := by omega
    exact hi.symm
  · have hcyc : f^[i + j] n = n := by rw [Function.iterate_add_apply, hj, hi]
    obtain rfl := root_of_cycle hr hn hpos hcyc
    rw [iterate_root hr] at hj
    exact hj

/-- Of two nodes above a third, one is above the other. -/
theorem Under.total {k : α} (h : Under f n k) (h' : Under f m k) : Under f n m ∨ Under f m n := by
  obtain ⟨i, hi⟩ := h
  obtain ⟨j, hj⟩ := h'
  rcases Nat.le_total i j with hij | hij
  · obtain ⟨t, rfl⟩ : ∃ t, j = t + i := ⟨j - i, by omega⟩
    rw [Function.iterate_add_apply, hi] at hj
    exact Or.inr ⟨t, hj⟩
  · obtain ⟨t, rfl⟩ : ∃ t, i = t + j := ⟨i - j, by omega⟩
    rw [Function.iterate_add_apply, hj] at hi
    exact Or.inl ⟨t, hi⟩

/-- The subtrees of two children of one node are disjoint. -/
theorem Under.child_unique (hr : f r = r) (hp : Under f r n) (hpr : n ≠ r) {a b k : α} (ha : f a = n) (hb : f b = n)
    (hak : Under f a k) (hbk : Under f b k) : a = b := by
  have up : ∀ {x y : α}, f x = n → f y = n → Under f x y → x = y := by
    intro x y hx hy hxy
    rcases hxy.cases with h | h
    · exact h.symm
    · rw [hy] at h
      -- then the parent is under its child, so on a cycle
      obtain ⟨t, ht⟩ := h
      have hcyc : f^[t + 1] n = n := by rw [Function.iterate_succ_apply', ht, hx]
      exact absurd (root_of_cycle hr hp (by omega) hcyc) hpr
  rcases hak.total hbk with h | h
  · exact up ha hb h
  · exact (up hb ha h).symm

/-- Going up in a set that is closed under parents does not depend on the parents outside it. -/
theorem Under.congr {S : α → Prop} (hS : ∀ x, S x → S (f x)) (hfg : ∀ x, S x → g x = f x) (hm : S m) :
    Under g n m ↔ Under f n m := by
  have hit : ∀ k x, S x → g^[k] x = f^[k] x := by
    intro k
    induction k with
    | zero => intro x _; rfl
    | succ k ih =>
      intro x hx
      rw [Function.iterate_succ_apply, Function.iterate_succ_apply, hfg x hx]
      exact ih _ (hS x hx)
  constructor
  · rintro ⟨k, hk⟩
    exact ⟨k, by rw [← hit k m hm, hk]⟩
  · rintro ⟨k, hk⟩
    exact ⟨k, by rw [hit k m hm, hk]⟩

end Forest
