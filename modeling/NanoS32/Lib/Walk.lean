import Mathlib.Data.Fintype.Pigeonhole
import Mathlib.Data.Set.Finite.Basic

/-!
# Walks of a partial function

A loop whose next state depends only on its state is a walk of a partial function, which ends where the function is undefined.
When it is defined on finitely many states, a walk ends exactly when it reaches no state that it comes back to (`Walk.ends_iff`).
-/

namespace Walk

variable {α : Type} (f : α → Option α)

/-- The state after `n` steps, unless the walk has ended. -/
def after : Nat → α → Option α
  | 0, a => some a
  | n + 1, a => (f a).bind (after n)

/-- The walk from `a` ends. -/
def Ends (a : α) : Prop := ∃ n, after f n a = none

/-- The walk from `a` reaches `b`. -/
def Reaches (a b : α) : Prop := ∃ n, after f n a = some b

/-- The walk from `a` comes back to `a`. -/
def OnCycle (a : α) : Prop := ∃ n, after f (n + 1) a = some a

variable {f}

theorem after_add (m n : Nat) (a : α) : after f (m + n) a = (after f m a).bind (after f n) := by
  induction m generalizing a with
  | zero => rw [Nat.zero_add, after, Option.bind_some]
  | succ m ih =>
    rw [Nat.succ_add, after, after, Option.bind_assoc]
    exact congrArg _ (funext ih)

/-- A walk that has ended stays so. -/
theorem after_none_of_le {m n : Nat} {a : α} (h : after f m a = none) (hle : m ≤ n) : after f n a = none := by
  obtain ⟨k, rfl⟩ := Nat.exists_eq_add_of_le hle
  rw [after_add, h, Option.bind_none]

/-- A walk ends in one state. -/
theorem reaches_end_unique {a b b' : α} (h : Reaches f a b) (hb : f b = none) (h' : Reaches f a b') (hb' : f b' = none) :
    b = b' := by
  have hle : ∀ {m n : Nat} {b b' : α}, m ≤ n → after f m a = some b → f b = none → after f n a = some b' → b = b' := by
    intro m n b b' hmn hm hnone hn
    obtain ⟨k, rfl⟩ := Nat.exists_eq_add_of_le hmn
    rw [after_add, hm, Option.bind_some] at hn
    cases k with
    | zero => exact Option.some.inj hn
    | succ k =>
      rw [after, hnone, Option.bind_none] at hn
      exact absurd hn.symm (Option.some_ne_none b')
  obtain ⟨m, hm⟩ := h
  obtain ⟨n, hn⟩ := h'
  rcases Nat.le_total m n with hmn | hmn
  · exact hle hmn hm hb hn
  · exact (hle hmn hn hb' hm).symm

theorem Reaches.head {a b c : α} (h : f a = some b) : Reaches f b c → Reaches f a c := by
  rintro ⟨n, hn⟩
  exact ⟨n + 1, by rw [after, h, Option.bind_some, hn]⟩

/-- A walk on a cycle goes round for ever. -/
theorem OnCycle.after_ne_none {a : α} (h : OnCycle f a) (n : Nat) : after f n a ≠ none := by
  obtain ⟨k, hk⟩ := h
  have hround : ∀ i, after f (i * (k + 1)) a = some a := by
    intro i
    induction i with
    | zero => rw [Nat.zero_mul, after]
    | succ i ih => rw [Nat.succ_mul, after_add, ih, Option.bind_some, hk]
  intro hnone
  have hle : n ≤ n * (k + 1) := Nat.le_mul_of_pos_right n (Nat.succ_pos k)
  have hend := after_none_of_le hnone hle
  rw [hround n] at hend
  exact absurd hend (Option.some_ne_none a)

/-- A walk that reaches a cycle does not end. -/
theorem not_ends_of_reaches {a b : α} (h : Reaches f a b) (hcycle : OnCycle f b) : ¬Ends f a := by
  rintro ⟨n, hn⟩
  obtain ⟨m, hm⟩ := h
  have hend := after_none_of_le hn (Nat.le_add_left n m)
  rw [after_add, hm, Option.bind_some] at hend
  exact hcycle.after_ne_none n hend

/-- A loop with a bound that follows `f` and returns where it is undefined: it uses up its bound while the walk goes on, and
otherwise returns where the walk ends. -/
theorem loop_spec {β : Type} {bound : β} {stop : α → β} (loop : Nat → α → β) (h0 : ∀ a, loop 0 a = bound)
    (hstep : ∀ n a, loop (n + 1) a = (f a).elim (stop a) (loop n)) (n : Nat) (a : α) :
    (after f n a ≠ none → loop n a = bound) ∧
      (after f n a = none → ∃ b, Reaches f a b ∧ f b = none ∧ loop n a = stop b) := by
  induction n generalizing a with
  | zero => exact ⟨fun _ => h0 a, fun h => absurd h (Option.some_ne_none a)⟩
  | succ n ih =>
    rw [after, hstep]
    cases ha : f a with
    | none => exact ⟨fun h => absurd rfl h, fun _ => ⟨a, ⟨0, rfl⟩, ha, rfl⟩⟩
    | some next =>
      refine ⟨(ih next).1, fun h => ?_⟩
      obtain ⟨b, hb, hend, hloop⟩ := (ih next).2 h
      exact ⟨b, hb.head ha, hend, hloop⟩

/-- The walk from `a` never comes back to a state. -/
def Acyclic (f : α → Option α) (a : α) : Prop := ∀ b, Reaches f a b → ¬OnCycle f b

/-- A walk through finitely many states ends exactly when it never comes back to one. -/
theorem ends_iff (hfin : {a | f a ≠ none}.Finite) (a : α) : Ends f a ↔ Acyclic f a := by
  constructor
  · intro h b hreach hcycle
    exact not_ends_of_reaches hreach hcycle h
  · intro h
    by_contra hends
    have hsome : ∀ n, ∃ b, after f n a = some b := fun n => Option.ne_none_iff_exists'.1 fun hn => hends ⟨n, hn⟩
    choose x hx using hsome
    -- all states of the walk are among the finitely many where the function is defined, so one of them comes twice
    have hdef : ∀ n, f (x n) ≠ none := by
      intro n hn
      have hnext := hx (n + 1)
      rw [after_add, hx n, Option.bind_some, after, hn, Option.bind_none] at hnext
      exact absurd hnext.symm (Option.some_ne_none _)
    have : Finite {a | f a ≠ none} := hfin
    obtain ⟨i, j, hij, hxij⟩ := Finite.exists_ne_map_eq_of_infinite fun n => (⟨x n, hdef n⟩ : {a | f a ≠ none})
    have hxij : x i = x j := congrArg Subtype.val hxij
    have hcycle : ∀ i j, i < j → x i = x j → OnCycle f (x i) := by
      intro i j hlt heq
      obtain ⟨k, rfl⟩ := Nat.exists_eq_add_of_lt hlt
      have hj := hx (i + k + 1)
      rw [Nat.add_assoc, after_add, hx i, Option.bind_some] at hj
      exact ⟨k, hj.trans (by rw [heq, Nat.add_assoc])⟩
    rcases Nat.lt_or_gt_of_ne hij with hlt | hlt
    · exact h (x i) ⟨i, hx i⟩ (hcycle i j hlt hxij)
    · exact h (x j) ⟨j, hx j⟩ (hcycle j i hlt hxij.symm)

end Walk
