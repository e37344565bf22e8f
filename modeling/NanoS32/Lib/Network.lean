import Mathlib.Logic.Function.Basic

/-!
# Networks

Nodes that exchange messages through a medium which may lose them, and deliver them late, out of order, more than once and to any
node. A message can be delivered from when it has been sent. Of such a network, what is true of each node and of each message stays
true over any run, when the steps of a single node keep it.
-/

/-- The steps of a node: of itself, and when a message is delivered to it. The messages that it has sent are part of its state. -/
structure Network (α μ σ : Type) where
  act : α → σ → σ
  receive : μ → σ → σ
  sent : σ → List μ

namespace Network

/-- A step of the node `n`. -/
inductive Event (ν α μ : Type) where
  | act (n : ν) (a : α)
  | receive (n : ν) (m : μ)

section Run

variable {ν α μ σ : Type} [DecidableEq ν]

/-- The nodes after a list of events, the last one first. -/
inductive Run (N : Network α μ σ) (init : ν → σ) : List (Event ν α μ) → (ν → σ) → Prop where
  | init : Run N init [] init
  | act {es : List (Event ν α μ)} {w : ν → σ} (h : Run N init es w) (n : ν) (a : α) :
      Run N init (.act n a :: es) (Function.update w n (N.act a (w n)))
  | receive {es : List (Event ν α μ)} {w : ν → σ} (h : Run N init es w) (n k : ν) {m : μ} (hm : m ∈ N.sent (w k)) :
      Run N init (.receive n m :: es) (Function.update w n (N.receive m (w n)))

/-- What is true of a node, and of a message, after some events. -/
structure Invariant (N : Network α μ σ) (init : ν → σ) (node : List (Event ν α μ) → ν → σ → Prop)
    (message : List (Event ν α μ) → μ → Prop) : Prop where
  node_init : ∀ n, node [] n (init n)
  message_init : ∀ n, ∀ m ∈ N.sent (init n), message [] m
  node_later : ∀ {es n s} e, node es n s → node (e :: es) n s
  message_later : ∀ {es m} e, message es m → message (e :: es) m
  node_act : ∀ {es n s} a, node es n s → node (.act n a :: es) n (N.act a s)
  message_act : ∀ {es n s} a, node es n s → ∀ m ∈ N.sent (N.act a s), m ∈ N.sent s ∨ message (.act n a :: es) m
  node_receive : ∀ {es n s m}, node es n s → message es m → node (.receive n m :: es) n (N.receive m s)
  message_receive : ∀ {es n s m}, node es n s → message es m →
    ∀ m' ∈ N.sent (N.receive m s), m' ∈ N.sent s ∨ message (.receive n m :: es) m'

variable {N : Network α μ σ} {init : ν → σ} {node : List (Event ν α μ) → ν → σ → Prop} {message : List (Event ν α μ) → μ → Prop}

/-- A step of one node, when it keeps what is true of this node and of the messages. -/
theorem Invariant.update (hi : N.Invariant init node message) {es : List (Event ν α μ)} {w : ν → σ} (e : Event ν α μ) {n : ν} {s : σ}
    (hnodes : ∀ n, node es n (w n)) (hmessages : ∀ n, ∀ m ∈ N.sent (w n), message es m) (hnode : node (e :: es) n s)
    (hmessage : ∀ m ∈ N.sent s, m ∈ N.sent (w n) ∨ message (e :: es) m) :
    (∀ k, node (e :: es) k (Function.update w n s k)) ∧ ∀ k, ∀ m ∈ N.sent (Function.update w n s k), message (e :: es) m := by
  refine ⟨fun k => ?_, fun k m hm => ?_⟩
  · by_cases hk : k = n
    · subst hk
      rw [Function.update_self]
      exact hnode
    · rw [Function.update_of_ne hk]
      exact hi.node_later e (hnodes k)
  · by_cases hk : k = n
    · subst hk
      rw [Function.update_self] at hm
      exact (hmessage m hm).elim (fun hold => hi.message_later e (hmessages k m hold)) id
    · rw [Function.update_of_ne hk] at hm
      exact hi.message_later e (hmessages k m hm)

/-- An invariant holds after any run. -/
theorem Invariant.run (hi : N.Invariant init node message) {es : List (Event ν α μ)} {w : ν → σ} (h : N.Run init es w) :
    (∀ n, node es n (w n)) ∧ ∀ n, ∀ m ∈ N.sent (w n), message es m := by
  induction h with
  | init => exact ⟨hi.node_init, hi.message_init⟩
  | act _ n a ih => exact hi.update _ ih.1 ih.2 (hi.node_act a (ih.1 n)) (hi.message_act a (ih.1 n))
  | receive _ n k hm ih =>
    exact hi.update _ ih.1 ih.2 (hi.node_receive (ih.1 n) (ih.2 k _ hm)) (hi.message_receive (ih.1 n) (ih.2 k _ hm))

end Run

end Network
