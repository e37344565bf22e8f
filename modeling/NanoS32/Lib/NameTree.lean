import NanoS32.Lib.Forest

/-!
# Trees of named nodes

A tree as a file system keeps it: the nodes there are, the parent of each, and its name in its parent. A change makes a node below
another, removes a node with all that is below it, or moves a node below another under a new name. `Step` says what a change leaves
as it was, so that a tree in memory or on a disk can be compared with another by their nodes only. Two properties that changes may
break are that all nodes are below the root, and that no two nodes of one parent have the same name.
-/

/-- The nodes of a tree, with their parents and names. -/
structure NameTree (α ν : Type) where
  node : α → Prop
  parent : α → α
  name : α → ν

namespace NameTree

variable {α ν : Type} {t t' : NameTree α ν} {r n p : α} {name : ν}

/-- What a change does to a tree. -/
inductive Change (α ν : Type) where
  | none
  | create (n p : α) (name : ν)
  | remove (n : α)
  | move (n p : α) (name : ν)

/-- A node has the parent and the name it had. -/
def SameAt (t t' : NameTree α ν) (m : α) : Prop := t'.parent m = t.parent m ∧ t'.name m = t.name m

/-- The change leads from one tree to the other. -/
def Step (t : NameTree α ν) : Change α ν → NameTree α ν → Prop
  | .none, t' => (∀ m, t'.node m ↔ t.node m) ∧ ∀ m, t.node m → SameAt t t' m
  | .create n p name, t' =>
    ¬t.node n ∧ t.node p ∧ (∀ m, t'.node m ↔ t.node m ∨ m = n) ∧ (∀ m, t.node m → SameAt t t' m) ∧ t'.parent n = p ∧
      t'.name n = name
  | .remove n, t' => (∀ m, t'.node m ↔ t.node m ∧ ¬Forest.Under t.parent n m) ∧ ∀ m, t'.node m → SameAt t t' m
  | .move n p name, t' =>
    t.node p ∧ (∀ m, t'.node m ↔ t.node m) ∧ (∀ m, t.node m → m ≠ n → SameAt t t' m) ∧ t'.parent n = p ∧ t'.name n = name

/-- The parents of nodes are nodes, and the root is its own. -/
structure Closed (r : α) (t : NameTree α ν) : Prop where
  root : t.parent r = r
  parent : ∀ m, t.node m → t.node (t.parent m)

/-- All nodes are below the root. -/
def Rooted (r : α) (t : NameTree α ν) : Prop := ∀ m, t.node m → Forest.Under t.parent r m

/-- No node below `p` has this name. -/
def Free (t : NameTree α ν) (p : α) (name : ν) : Prop := ∀ m, t.node m → t.parent m = p → t.name m ≠ name

/-- No two nodes of one parent have the same name. -/
def Distinct (t : NameTree α ν) : Prop :=
  ∀ m m', t.node m → t.node m' → t.parent m = t.parent m' → t.name m = t.name m' → m = m'

/-- The node is one of this parent with this name. -/
def Child (t : NameTree α ν) (p : α) (name : ν) (m : α) : Prop := t.node m ∧ t.parent m = p ∧ t.name m = name

/-- The names of a parent that stand for nodes stand for the same ones. -/
def Extends (t t' : NameTree α ν) : Prop := ∀ p name m, t.Child p name m → ∀ k, t'.Child p name k ↔ t.Child p name k

/-! ## Being below the root -/

/-- What is below the root stays there when its ancestors keep their parents. -/
theorem Closed.under (hc : t.Closed r) (hsame : ∀ m, t.node m → t'.parent m = t.parent m) (hn : t.node n)
    (h : Forest.Under t.parent r n) : Forest.Under t'.parent r n :=
  (Forest.Under.congr (S := t.node) hc.parent hsame hn).2 h

theorem Rooted.none (hc : t.Closed r) (h : t.Rooted r) (hs : t.Step .none t') : t'.Rooted r := by
  intro m hm
  rw [hs.1] at hm
  exact hc.under (fun k hk => (hs.2 k hk).1) hm (h m hm)

theorem Rooted.create (hc : t.Closed r) (h : t.Rooted r) (hs : t.Step (.create n p name) t') : t'.Rooted r := by
  obtain ⟨-, hp, hnode, hsame, hpar, -⟩ := hs
  have hold : ∀ m, t.node m → Forest.Under t'.parent r m := fun m hm => hc.under (fun k hk => (hsame k hk).1) hm (h m hm)
  intro m hm
  rcases (hnode m).1 hm with hm | rfl
  · exact hold m hm
  · exact Forest.Under.step (hpar ▸ hold p hp)

theorem Rooted.remove (hc : t.Closed r) (h : t.Rooted r) (hs : t.Step (.remove n) t') : t'.Rooted r := by
  intro m hm
  refine (Forest.Under.congr (S := t'.node) (fun k hk => ?_) (fun k hk => (hs.2 k hk).1) hm).2 (h m ((hs.1 m).1 hm).1)
  obtain ⟨hk, hout⟩ := (hs.1 k).1 hk
  exact (hs.1 _).2 ⟨hc.parent k hk, fun hu => hout hu.step⟩

/-- Nodes stay below the root when a node is moved to a place that is not below it. -/
theorem Rooted.move (hc : t.Closed r) (h : t.Rooted r) (hs : t.Step (.move n p name) t') (hout : ¬Forest.Under t.parent n p) :
    t'.Rooted r := by
  obtain ⟨hp, hnode, hsame, hpar, -⟩ := hs
  -- nodes that are not below the one that is moved have the ancestors they had
  have hother : ∀ m, t.node m → ¬Forest.Under t.parent n m → Forest.Under t'.parent r m := by
    intro m hm hm'
    refine (Forest.Under.congr (S := fun k => t.node k ∧ ¬Forest.Under t.parent n k) (fun k hk => ?_) (fun k hk => ?_)
      ⟨hm, hm'⟩).2 (h m hm)
    · exact ⟨hc.parent k hk.1, fun hu => hk.2 hu.step⟩
    · refine (hsame k hk.1 ?_).1
      rintro rfl
      exact hk.2 (Forest.Under.refl _ _)
  have hmoved : Forest.Under t'.parent r n := Forest.Under.step (hpar ▸ hother p hp hout)
  -- the others reach the node that is moved on their way up
  have hbelow : ∀ k m, t.node m → t.parent^[k] m = n → Forest.Under t'.parent r m := by
    intro k
    induction k with
    | zero =>
      rintro m - rfl
      exact hmoved
    | succ k ih =>
      intro m hm hk
      by_cases hmn : m = n
      · exact hmn ▸ hmoved
      · have hup := ih (t.parent m) (hc.parent m hm) (by rw [← Function.iterate_succ_apply, hk])
        exact Forest.Under.step ((hsame m hm hmn).1 ▸ hup)
  intro m hm
  rw [hnode] at hm
  by_cases hu : Forest.Under t.parent n m
  · obtain ⟨k, hk⟩ := hu
    exact hbelow k m hm hk
  · exact hother m hm hu

/-! ## Distinct names -/

theorem Distinct.none (h : t.Distinct) (hs : t.Step .none t') : t'.Distinct := by
  intro m m' hm hm' hpar hname
  rw [hs.1] at hm hm'
  obtain ⟨h1, h2⟩ := hs.2 m hm
  obtain ⟨h1', h2'⟩ := hs.2 m' hm'
  exact h m m' hm hm' (by rw [← h1, hpar, h1']) (by rw [← h2, hname, h2'])

/-- A node that is made under a free name. -/
theorem Distinct.create (h : t.Distinct) (hs : t.Step (.create n p name) t') (hfree : t.Free p name) : t'.Distinct := by
  obtain ⟨-, -, hnode, hsame, hpar, hname⟩ := hs
  have hnew : ∀ m, t.node m → t'.parent m = t'.parent n → t'.name m ≠ t'.name n := by
    intro m hm hp
    rw [hpar, (hsame m hm).1] at hp
    rw [hname, (hsame m hm).2]
    exact hfree m hm hp
  intro m m' hm hm' hp hn
  rcases (hnode m).1 hm with hm | rfl
  · rcases (hnode m').1 hm' with hm' | rfl
    · rw [(hsame m hm).1, (hsame m' hm').1] at hp
      rw [(hsame m hm).2, (hsame m' hm').2] at hn
      exact h m m' hm hm' hp hn
    · exact absurd hn (hnew m hm hp)
  · rcases (hnode m').1 hm' with hm' | rfl
    · exact absurd hn.symm (hnew m' hm' hp.symm)
    · rfl

theorem Distinct.remove (h : t.Distinct) (hs : t.Step (.remove n) t') : t'.Distinct := by
  intro m m' hm hm' hp hn
  obtain ⟨h1, h2⟩ := hs.2 m hm
  obtain ⟨h1', h2'⟩ := hs.2 m' hm'
  exact h m m' ((hs.1 m).1 hm).1 ((hs.1 m').1 hm').1 (by rw [← h1, hp, h1']) (by rw [← h2, hn, h2'])

/-- A node that is moved to a free name. -/
theorem Distinct.move (h : t.Distinct) (hs : t.Step (.move n p name) t') (hfree : t.Free p name) : t'.Distinct := by
  obtain ⟨-, hnode, hsame, hpar, hname⟩ := hs
  have hnew : ∀ m, t.node m → m ≠ n → t'.parent m = t'.parent n → t'.name m ≠ t'.name n := by
    intro m hm hmn hp
    rw [hpar, (hsame m hm hmn).1] at hp
    rw [hname, (hsame m hm hmn).2]
    exact hfree m hm hp
  intro m m' hm hm' hp hn
  rw [hnode] at hm hm'
  by_cases hmn : m = n
  · by_cases hmn' : m' = n
    · rw [hmn, hmn']
    · rw [hmn] at hp hn
      exact absurd hn.symm (hnew m' hm' hmn' hp.symm)
  · by_cases hmn' : m' = n
    · rw [hmn'] at hp hn
      exact absurd hn (hnew m hm hmn hp)
    · rw [(hsame m hm hmn).1, (hsame m' hm' hmn').1] at hp
      rw [(hsame m hm hmn).2, (hsame m' hm' hmn').2] at hn
      exact h m m' hm hm' hp hn

/-! ## Names that stay -/

theorem Extends.trans {t₁ : NameTree α ν} (h : t.Extends t₁) (h' : t₁.Extends t') : t.Extends t' := fun p name m hm k =>
  (h' p name m ((h p name m hm m).2 hm) k).trans (h p name m hm k)

theorem Extends.none (hs : t.Step .none t') : t.Extends t' := by
  intro p name m _ k
  have hchild : t.node k → (t'.parent k = t.parent k ∧ t'.name k = t.name k) := hs.2 k
  rw [Child, Child, hs.1]
  refine and_congr_right fun hk => ?_
  rw [(hchild hk).1, (hchild hk).2]

/-- A new node has a name that is not there. -/
theorem Extends.create (hfree : t.Free p name) (hs : t.Step (.create n p name) t') : t.Extends t' := by
  obtain ⟨hnew, -, hnode, hsame, hparent, hname⟩ := hs
  rintro q name' m ⟨hm, hmq, hmname⟩ k
  rw [Child, Child, hnode]
  constructor
  · rintro ⟨hk | rfl, hkq, hkname⟩
    · rw [(hsame k hk).1] at hkq
      rw [(hsame k hk).2] at hkname
      exact ⟨hk, hkq, hkname⟩
    · -- the node that is there would have the name of the new one
      exact absurd (hmname.trans (hkname.symm.trans hname)) (hfree m hm (hmq.trans (hkq.symm.trans hparent)))
  · rintro ⟨hk, hkq, hkname⟩
    exact ⟨Or.inl hk, (hsame k hk).1.trans hkq, (hsame k hk).2.trans hkname⟩

end NameTree
