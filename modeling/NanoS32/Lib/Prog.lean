import Mathlib.Logic.Basic
import Mathlib.Tactic.Common

/-!
# Programs over a state that return, fail with a code, or do not return

A C function that reports failure through its return value is a function from a state to an outcome: a value and a state, an
error code and a state, or no outcome within the bound its loops were given. `Prog σ` is the monad of such functions, generic
in the state. The rules below take a program apart at a bind, and carry a property of states through one.
-/

namespace Prog

/-- How a program ends: with a value, with an error code, or not within the bound its loops were given, with the state when this
bound was reached. -/
inductive Outcome (σ α : Type) where
  | ok (a : α) (s : σ)
  | error (code : Nat) (s : σ)
  | stuck (s : σ)

end Prog

/-- A program over states `σ`. -/
structure Prog (σ α : Type) where
  run : σ → Prog.Outcome σ α

namespace Prog

variable {σ α β : Type}

/-- Return a value, leaving the state. -/
def ret (a : α) : Prog σ α := ⟨fun s => .ok a s⟩

/-- Run one program, and then the next on its value. An error ends both. -/
def seq (x : Prog σ α) (f : α → Prog σ β) : Prog σ β := ⟨fun s =>
  match x.run s with
  | .ok a s' => (f a).run s'
  | .error code s' => .error code s'
  | .stuck s' => .stuck s'⟩

instance : Monad (Prog σ) where
  pure := ret
  bind := seq

/-- The state. -/
def get : Prog σ σ := ⟨fun s => .ok s s⟩

/-- Change the state. -/
def update (f : σ → σ) : Prog σ Unit := ⟨fun s => .ok () (f s)⟩

/-- Fail with a code. -/
def fail (code : Nat) : Prog σ α := ⟨fun s => .error code s⟩

/-- Fail with a code when a condition holds: `if(c) return code;`. -/
def failIf (c : Prop) [Decidable c] (code : Nat) : Prog σ Unit :=
  ⟨fun s => if c then .error code s else .ok () s⟩

/-- The program whose loops have used up their bound. -/
def noReturn : Prog σ α := ⟨fun s => .stuck s⟩

/-- Run a program and look at how it ended, instead of failing with it. -/
def attempt (x : Prog σ α) : Prog σ (Except Nat α) := ⟨fun s =>
  match x.run s with
  | .ok a s' => .ok (.ok a) s'
  | .error code s' => .ok (.error code) s'
  | .stuck s' => .stuck s'⟩

/-- Run a program for each element of a list, in order. -/
def each (f : α → Prog σ Unit) : List α → Prog σ Unit
  | [] => ret ()
  | a :: l => seq (f a) (fun _ => each f l)

/-- The program, run only from the states that meet a condition. -/
noncomputable def guarded (P : σ → Prop) (x : Prog σ α) : Prog σ α :=
  open Classical in ⟨fun s => if P s then x.run s else .stuck s⟩

/-- The state an outcome leaves, when there is one. -/
def Outcome.state : Outcome σ α → Option σ
  | .ok _ s => some s
  | .error _ s => some s
  | .stuck _ => none

/-- The value of an outcome, when there is one. -/
def Outcome.value : Outcome σ α → Option α
  | .ok a _ => some a
  | .error _ _ => none
  | .stuck _ => none

/-- The state at the end of an outcome, whichever it is. -/
def Outcome.after : Outcome σ α → σ
  | .ok _ s => s
  | .error _ s => s
  | .stuck s => s

/-- A program that has ended has ended in its last state. -/
theorem Outcome.state_eq_after {o : Outcome σ α} (h : o.state.isSome = true) : o.state = some o.after := by
  cases o with
  | ok a s => rfl
  | error code s => rfl
  | stuck s => cases h

theorem Outcome.eq_ok_after {o : Outcome σ α} (h : o.value.isSome = true) : ∃ a, o = .ok a o.after := by
  cases o with
  | ok a s => exact ⟨a, rfl⟩
  | error code s => cases h
  | stuck s => cases h

/-! ## Taking a program apart -/

@[simp] theorem run_pure (a : α) (s : σ) : (pure a : Prog σ α).run s = .ok a s := rfl

@[simp] theorem run_fail (code : Nat) (s : σ) : (fail code : Prog σ α).run s = .error code s := rfl

@[simp] theorem run_update (f : σ → σ) (s : σ) : (update f).run s = .ok () (f s) := rfl

@[simp] theorem run_noReturn (s : σ) : (noReturn : Prog σ α).run s = .stuck s := rfl

theorem run_bind (x : Prog σ α) (f : α → Prog σ β) (s : σ) :
    (x >>= f).run s = match x.run s with
      | .ok a s' => (f a).run s'
      | .error code s' => .error code s'
      | .stuck s' => .stuck s' := rfl

theorem bind_ok {x : Prog σ α} {f : α → Prog σ β} {s s' : σ} {a : α} (h : x.run s = .ok a s') :
    (x >>= f).run s = (f a).run s' := by
  rw [run_bind, h]

theorem bind_error {x : Prog σ α} {f : α → Prog σ β} {s s' : σ} {code : Nat} (h : x.run s = .error code s') :
    (x >>= f).run s = .error code s' := by
  rw [run_bind, h]

/-- Programs are equal when they run in the same way from every state. -/
theorem ext {x y : Prog σ α} (h : ∀ s, x.run s = y.run s) : x = y := by
  cases x
  cases y
  exact congrArg Prog.mk (funext h)

/-- A sequence that begins with a value. -/
theorem pure_bind (a : α) (f : α → Prog σ β) : (pure a : Prog σ α) >>= f = f a := rfl

/-- A sequence that ends with the value of its first part. -/
theorem bind_pure (x : Prog σ α) : (x >>= fun a => pure a) = x := by
  refine ext fun s => ?_
  rw [run_bind]
  cases x.run s with
  | ok a s' => rfl
  | error code s' => rfl
  | stuck s' => rfl

/-- A sequence of three programs, taken apart from either end. -/
theorem bind_assoc {γ : Type} (x : Prog σ α) (f : α → Prog σ β) (g : β → Prog σ γ) :
    x >>= f >>= g = x >>= fun a => f a >>= g := by
  refine ext fun s => ?_
  rw [run_bind, run_bind, run_bind]
  cases x.run s with
  | ok a s' => rfl
  | error code s' => rfl
  | stuck s' => rfl

/-- A sequence that returns has a first part that does, and its second part returns from there. -/
theorem bind_eq_ok {x : Prog σ α} {f : α → Prog σ β} {s s'' : σ} {b : β} (h : (x >>= f).run s = .ok b s'') :
    ∃ a s', x.run s = .ok a s' ∧ (f a).run s' = .ok b s'' := by
  rw [run_bind] at h
  cases hx : x.run s with
  | ok a s' =>
    rw [hx] at h
    exact ⟨a, s', rfl, h⟩
  | error code s' =>
    rw [hx] at h
    cases h
  | stuck s' =>
    rw [hx] at h
    cases h

/-- A check that passes leaves the state. -/
theorem failIf_eq_ok {c : Prop} [Decidable c] {code : Nat} {s s' : σ} {u : Unit}
    (h : (failIf c code : Prog σ Unit).run s = .ok u s') : ¬c ∧ s' = s := by
  rw [failIf] at h
  by_cases hc : c
  · simp only [hc, if_true] at h
    cases h
  · simp only [hc, if_false] at h
    cases h
    exact ⟨hc, rfl⟩

@[simp] theorem run_failIf_bind (c : Prop) [Decidable c] (code : Nat) (f : Unit → Prog σ β) (s : σ) :
    (failIf c code >>= f).run s = if c then .error code s else (f ()).run s := by
  rw [run_bind, failIf]
  split_ifs <;> rfl

@[simp] theorem run_failIf (c : Prop) [Decidable c] (code : Nat) (s : σ) :
    (failIf c code : Prog σ Unit).run s = if c then .error code s else .ok () s := rfl

theorem attempt_ok {x : Prog σ α} {s s' : σ} {a : α} (h : x.run s = .ok a s') :
    x.attempt.run s = .ok (.ok a) s' := by
  simp only [attempt, h]

theorem attempt_error {x : Prog σ α} {s s' : σ} {code : Nat} (h : x.run s = .error code s') :
    x.attempt.run s = .ok (.error code) s' := by
  simp only [attempt, h]

/-- An attempt that gave a value. -/
theorem attempt_eq_ok {x : Prog σ α} {s s' : σ} {a : α} (h : x.attempt.run s = .ok (.ok a) s') : x.run s = .ok a s' := by
  simp only [attempt] at h
  cases hx : x.run s with
  | ok b t =>
    rw [hx] at h
    cases h
    rfl
  | error code t =>
    rw [hx] at h
    cases h
  | stuck t =>
    rw [hx] at h
    cases h

/-- An attempt that gave a code. -/
theorem attempt_eq_error {x : Prog σ α} {s s' : σ} {code : Nat} (h : x.attempt.run s = .ok (.error code) s') :
    x.run s = .error code s' := by
  simp only [attempt] at h
  cases hx : x.run s with
  | ok b t =>
    rw [hx] at h
    cases h
  | error c t =>
    rw [hx] at h
    cases h
    rfl
  | stuck t =>
    rw [hx] at h
    cases h

@[simp] theorem each_nil (f : α → Prog σ Unit) (s : σ) : (each f []).run s = .ok () s := rfl

theorem each_cons (f : α → Prog σ Unit) (a : α) (l : List α) : each f (a :: l) = f a >>= fun _ => each f l := rfl

/-! ## Properties that the constructions of a program keep -/

/-- A property of programs that holds of the constructions of a program when it holds of their parts. Programs fail only with
certain codes; one that looks at how a part ended goes on after a quiet code, and fails with any other. -/
structure Rules (σ : Type) where
  Holds : {α : Type} → Prog σ α → Prop
  Fails : Nat → Prop
  Quiet : Nat → Prop
  ret : ∀ {α : Type} (a : α), Holds (Prog.ret a)
  fail : ∀ {α : Type} {code : Nat}, Fails code → Holds (Prog.fail code : Prog σ α)
  noReturn : ∀ {α : Type}, Holds (Prog.noReturn : Prog σ α)
  bind : ∀ {α β : Type} {x : Prog σ α} {f : α → Prog σ β}, Holds x → (∀ a, Holds (f a)) → Holds (x >>= f)
  attempt : ∀ {α β : Type} {x : Prog σ α} {f : Except Nat α → Prog σ β}, Holds x → (∀ a, Holds (f (.ok a))) →
    (∀ code, Quiet code → Holds (f (.error code))) → (∀ code, ¬Quiet code → f (.error code) = Prog.fail code) →
      Holds (x.attempt >>= f)

namespace Rules

variable (R : Rules σ)

theorem pure (a : α) : R.Holds (Pure.pure a : Prog σ α) := R.ret a

theorem failIf {c : Prop} [Decidable c] {code : Nat} (h : c → R.Fails code) : R.Holds (Prog.failIf c code) := by
  by_cases hc : c
  · have he : (Prog.failIf c code : Prog σ Unit) = Prog.fail code := by simp only [Prog.failIf, Prog.fail, if_pos hc]
    rw [he]
    exact R.fail (h hc)
  · have he : (Prog.failIf c code : Prog σ Unit) = Prog.ret () := by simp only [Prog.failIf, Prog.ret, if_neg hc]
    rw [he]
    exact R.ret ()

theorem ite {c : Prop} [Decidable c] {x y : Prog σ α} (hx : c → R.Holds x) (hy : ¬c → R.Holds y) :
    R.Holds (if c then x else y) := by
  split_ifs with h
  · exact hx h
  · exact hy h

theorem each {f : α → Prog σ Unit} {l : List α} (hf : ∀ a ∈ l, R.Holds (f a)) : R.Holds (Prog.each f l) := by
  induction l with
  | nil => exact R.ret ()
  | cons a l ih => exact R.bind (hf a (by simp)) fun _ => ih fun b hb => hf b (List.mem_cons_of_mem _ hb)

end Rules

/-- A check that fails ends the program that goes on after it. -/
theorem failIf_bind_of {c : Prop} [Decidable c] (h : c) (code : Nat) (f : Unit → Prog σ β) :
    (failIf c code >>= f) = fail code := by
  have he : ∀ s, (failIf c code >>= f).run s = (fail code : Prog σ β).run s := by
    intro s
    rw [run_failIf_bind, if_pos h, run_fail]
  cases hx : failIf c code >>= f with
  | mk run =>
    rw [hx] at he
    exact congrArg Prog.mk (funext he)

/-- A relation of the state after a program to the state before it, that programs run one after the other keep. -/
structure Frame (σ : Type) where
  rel : σ → σ → Prop
  refl : ∀ s, rel s s
  trans : ∀ s s' s'', rel s s' → rel s' s'' → rel s s''

/-- The frame is kept from `s` on, except that the outcome may be another code than `notFound` where it is broken; every code is
one from `high` on. -/
def Outcome.Reports (F : Frame σ) (high notFound : Nat) (s : σ) : Outcome σ α → Prop
  | .ok _ s' => F.rel s s'
  | .error code s' => high ≤ code ∧ (code = notFound → F.rel s s')
  | .stuck s' => F.rel s s'

theorem Outcome.Reports.trans {F : Frame σ} {high notFound : Nat} {s s' : σ} (h : F.rel s s') {o : Outcome σ α}
    (ho : o.Reports F high notFound s') : o.Reports F high notFound s := by
  cases o with
  | ok a s₂ => exact F.trans _ _ _ h ho
  | error code s₂ => exact ⟨ho.1, fun hq => F.trans _ _ _ h (ho.2 hq)⟩
  | stuck s₂ => exact F.trans _ _ _ h ho

/-- The program keeps the frame or reports that it is broken. -/
def Reports (F : Frame σ) (high notFound : Nat) (x : Prog σ α) : Prop := ∀ s, (x.run s).Reports F high notFound s

/-- A program whose parts report does so too. -/
def Frame.reports (F : Frame σ) (high notFound : Nat) : Rules σ where
  Holds x := x.Reports F high notFound
  Fails code := high ≤ code
  Quiet code := code = notFound
  ret _ s := F.refl s
  fail h s := ⟨h, fun _ => F.refl s⟩
  noReturn s := F.refl s
  bind := by
    intro α β x f hx hf s
    have h := hx s
    rw [run_bind]
    cases hr : x.run s with
    | ok a s₁ =>
      rw [hr] at h
      exact (hf a s₁).trans h
    | error code s₁ =>
      rw [hr] at h
      exact h
    | stuck s₁ =>
      rw [hr] at h
      exact h
  attempt := by
    intro α β x f hx hok hquiet hloud s
    have h := hx s
    cases hr : x.run s with
    | ok a s₁ =>
      rw [hr] at h
      rw [bind_ok (attempt_ok hr)]
      exact (hok a s₁).trans h
    | error code s₁ =>
      rw [hr] at h
      rw [bind_ok (attempt_error hr)]
      by_cases hq : code = notFound
      · exact (hquiet code hq s₁).trans (h.2 hq)
      · rw [hloud code hq]
        exact ⟨h.1, fun hq' => absurd hq' hq⟩
    | stuck s₁ =>
      rw [hr] at h
      simp only [run_bind, Prog.attempt, hr]
      exact h

/-- The program ends, if it does, in a state with `I`. -/
def Outcome.Ends (I : σ → Prop) : Outcome σ α → Prop
  | .ok _ s => I s
  | .error _ s => I s
  | .stuck _ => True

theorem Outcome.Ends.mono {I J : σ → Prop} (h : ∀ s, I s → J s) {o : Outcome σ α} (ho : o.Ends I) : o.Ends J := by
  cases o with
  | ok a s => exact h s ho
  | error code s => exact h s ho
  | stuck s => trivial

/-- The program keeps `I`, whichever way it ends. -/
def Keeps (I : σ → Prop) (x : Prog σ α) : Prop := ∀ s, I s → (x.run s).Ends I

/-- What a program ends with when it goes on after a part that ends with `I`. -/
theorem Outcome.Ends.bind {I J : σ → Prop} {x : Prog σ α} {f : α → Prog σ β} {s : σ} (hx : (x.run s).Ends I)
    (herr : ∀ s', I s' → J s') (hf : ∀ a s', x.run s = .ok a s' → ((f a).run s').Ends J) : ((x >>= f).run s).Ends J := by
  rw [run_bind]
  cases hr : x.run s with
  | ok a s' => exact hf a s' hr
  | error code s' =>
    rw [hr] at hx
    exact herr s' hx
  | stuck s' => trivial

theorem Outcome.Ends.map {I : σ → Prop} {x : Prog σ α} {s : σ} (hx : (x.run s).Ends I) (g : α → β) :
    ((x >>= fun a => pure (g a)).run s).Ends I := by
  rw [run_bind]
  cases hr : x.run s with
  | ok a s' =>
    rw [hr] at hx
    exact hx
  | error code s' =>
    rw [hr] at hx
    exact hx
  | stuck s' => trivial

theorem Outcome.Ends.of_state {I : σ → Prop} {o : Outcome σ α} {s : σ} (h : o.Ends I) (hs : o.state = some s) : I s := by
  cases o with
  | ok a s' =>
    obtain rfl := Option.some.inj hs
    exact h
  | error code s' =>
    obtain rfl := Option.some.inj hs
    exact h
  | stuck s' => cases hs

/-- A program whose parts keep `I` keeps it. -/
def Rules.keeps (I : σ → Prop) (notFound : Nat) : Rules σ where
  Holds x := x.Keeps I
  Fails _ := True
  Quiet code := code = notFound
  ret _ _ h := h
  fail _ _ h := h
  noReturn _ _ := trivial
  bind := by
    intro α β x f hx hf s hs
    refine (hx s hs).bind (fun _ h => h) fun a s' hr => hf a s' ?_
    have h := hx s hs
    rw [hr] at h
    exact h
  attempt := by
    intro α β x f hx hok hquiet hloud s hs
    have h := hx s hs
    cases hr : x.run s with
    | ok a s' =>
      rw [hr] at h
      rw [bind_ok (attempt_ok hr)]
      exact hok a s' h
    | error code s' =>
      rw [hr] at h
      rw [bind_ok (attempt_error hr)]
      by_cases hq : code = notFound
      · exact hquiet code hq s' h
      · rw [hloud code hq]
        exact h
    | stuck s' =>
      simp only [run_bind, Prog.attempt, hr]
      trivial

/-- The program returns no value, and ends, if it does, in the state `s`. -/
def Outcome.FailsAt (s : σ) : Outcome σ α → Prop
  | .ok _ _ => False
  | .error _ s' => s' = s
  | .stuck _ => True

theorem Outcome.FailsAt.bind {x : Prog σ α} {f : α → Prog σ β} {s : σ} (hx : (x.run s).FailsAt s) :
    ((x >>= f).run s).FailsAt s := by
  rw [run_bind]
  cases hr : x.run s with
  | ok a s' =>
    rw [hr] at hx
    exact hx.elim
  | error code s' =>
    rw [hr] at hx
    exact hx
  | stuck s' => trivial

/-- A program that goes on to fail, after a part that keeps the state. -/
theorem Outcome.FailsAt.bind_keeps {x : Prog σ α} {f : α → Prog σ β} {s : σ} (hx : x.Keeps fun t => t = s)
    (hf : ∀ a, x.run s = .ok a s → ((f a).run s).FailsAt s) : ((x >>= f).run s).FailsAt s := by
  have h := hx s rfl
  rw [run_bind]
  cases hr : x.run s with
  | ok a s' =>
    rw [hr] at h
    obtain rfl : s' = s := h
    exact hf a hr
  | error code s' =>
    rw [hr] at h
    exact h
  | stuck s' => trivial

theorem Outcome.FailsAt.ends {I : σ → Prop} {o : Outcome σ α} {s : σ} (h : o.FailsAt s) (hs : I s) : o.Ends I := by
  cases o with
  | ok a s' => exact h.elim
  | error code s' =>
    obtain rfl : s' = s := h
    exact hs
  | stuck s' => trivial

/-- A guarded program keeps `I` when the program does from the states that the guard lets pass. -/
theorem keeps_guarded {I P : σ → Prop} {x : Prog σ α} (h : ∀ s, I s → P s → (x.run s).Ends I) : (guarded P x).Keeps I := by
  intro s hs
  unfold guarded
  dsimp only
  by_cases hp : P s
  · rw [if_pos hp]
    exact h s hs hp
  · rw [if_neg hp]
    trivial

/-! ## Programs that are stuck more often -/

/-- The program `x` is stuck, or does what `y` does. -/
def Below (x y : Prog σ α) : Prop := ∀ s, (∃ s', x.run s = .stuck s') ∨ x.run s = y.run s

namespace Below

theorem refl (x : Prog σ α) : Below x x := fun _ => Or.inr rfl

theorem bind {x y : Prog σ α} {f g : α → Prog σ β} (hx : Below x y) (hf : ∀ a, Below (f a) (g a)) : Below (x >>= f) (y >>= g) := by
  intro s
  rw [run_bind, run_bind]
  rcases hx s with ⟨s', h⟩ | h
  · exact Or.inl ⟨s', by rw [h]⟩
  · rw [← h]
    cases x.run s with
    | ok a s' => exact hf a s'
    | error code s' => exact Or.inr rfl
    | stuck s' => exact Or.inl ⟨s', rfl⟩

theorem ite {c : Prop} [Decidable c] {x x' y y' : Prog σ α} (hx : Below x x') (hy : Below y y') :
    Below (if c then x else y) (if c then x' else y') := by
  split_ifs
  · exact hx
  · exact hy

theorem each {f g : α → Prog σ Unit} (h : ∀ a, Below (f a) (g a)) (l : List α) : Below (each f l) (each g l) := by
  induction l with
  | nil => exact refl _
  | cons a l ih => exact bind (h a) fun _ => ih

theorem guarded (P : σ → Prop) (x : Prog σ α) : Below (guarded P x) x := by
  intro s
  unfold Prog.guarded
  dsimp only
  by_cases hp : P s
  · exact Or.inr (if_pos hp)
  · exact Or.inl ⟨s, if_neg hp⟩

/-- What the program above keeps, when the program below is not stuck. -/
theorem ends {x y : Prog σ α} (h : Below x y) {I : σ → Prop} {s : σ} (hx : (x.run s).Ends I) (hstuck : ∀ s', x.run s ≠ .stuck s') :
    (y.run s).Ends I := by
  rcases h s with ⟨s', h⟩ | h
  · exact absurd h (hstuck s')
  · rwa [← h]

end Below

end Prog
