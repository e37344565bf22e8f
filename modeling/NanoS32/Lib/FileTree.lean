import NanoS32.Lib.NameTree
import Mathlib.Data.List.Basic

/-!
# Trees of named files

A tree of names some of whose nodes are files, which have contents. Besides the changes of the tree there are writes to a file, and
changes that leave a file with contents that nothing is said about.
-/

/-- A tree of named nodes, and the contents of those that are files. -/
structure FileTree (α ν β : Type) extends NameTree α ν where
  data : α → Option (List β)

namespace FileTree

variable {α ν β : Type}

/-- The contents `new` are `old` with `buff` written from `offset` on, and end after it if they are cut. What comes to be between the
end of `old` and `offset` is left open. -/
structure Overwrites (old : List β) (offset : Nat) (buff : List β) (cut : Bool) (new : List β) : Prop where
  length : new.length = if cut = true ∨ old.length < offset + buff.length then offset + buff.length else old.length
  inside : ∀ i < buff.length, new[offset + i]? = buff[i]?
  outside : ∀ i < old.length, i < new.length → i < offset ∨ offset + buff.length ≤ i → new[i]? = old[i]?

/-- A write that starts inside the file or at its end. -/
theorem Overwrites.eq {old buff new : List β} {offset : Nat} {cut : Bool} (h : Overwrites old offset buff cut new)
    (hoffset : offset ≤ old.length) :
    new = old.take offset ++ (buff ++ if cut = true then [] else old.drop (offset + buff.length)) := by
  have hlen := h.length
  have htake : (old.take offset).length = offset := List.length_take_of_le hoffset
  refine List.ext_getElem? fun i => ?_
  rcases Nat.lt_or_ge i offset with hi | hi
  · rw [List.getElem?_append_left (by omega), List.getElem?_take_of_lt hi]
    exact h.outside i (by omega) (by split_ifs at hlen <;> omega) (Or.inl hi)
  · rw [List.getElem?_append_right (by omega), htake]
    rcases Nat.lt_or_ge (i - offset) buff.length with hin | hout
    · rw [List.getElem?_append_left hin, ← h.inside _ hin, Nat.add_sub_cancel' hi]
    · rw [List.getElem?_append_right hout]
      by_cases hcut : cut = true
      · rw [if_pos hcut]
        rw [if_pos (Or.inl hcut)] at hlen
        rw [List.getElem?_eq_none (by omega), List.getElem?_nil]
      · rw [if_congr (or_iff_right hcut) rfl rfl] at hlen
        rw [if_neg hcut, List.getElem?_drop, show offset + buff.length + (i - offset - buff.length) = i by omega]
        rcases Nat.lt_or_ge i old.length with hold | hend
        · refine h.outside i hold ?_ (Or.inr (by omega))
          split_ifs at hlen <;> omega
        · rw [List.getElem?_eq_none hend, List.getElem?_eq_none]
          split_ifs at hlen <;> omega

/-- What a change does to a tree of files: a new node is an empty directory or has contents, a node is removed with all that is below
it, or moved, or a file is written to, or its contents are lost. -/
inductive Change (α ν β : Type) where
  | create (n p : α) (name : ν) (new : Option (List β))
  | remove (n : α)
  | move (n p : α) (name : ν)
  | write (n : α) (offset : Nat) (buff : List β) (cut : Bool)
  | spoil (n : α)

namespace Change

/-- The change of the tree of names. -/
def names : Change α ν β → NameTree.Change α ν
  | .create n p name _ => .create n p name
  | .remove n => .remove n
  | .move n p name => .move n p name
  | .write _ _ _ _ => .none
  | .spoil _ => .none

/-- The change is one of the contents of the node. -/
def Writes : Change α ν β → α → Prop
  | .write n _ _ _, m => m = n
  | .spoil n, m => m = n
  | _, _ => False

/-- What the change makes of the contents of its node. -/
def Contents : Change α ν β → (α → Option (List β)) → (α → Option (List β)) → Prop
  | .create n _ _ new, _, data' => data' n = new
  | .write n offset buff cut, data, data' => ∃ old new, data n = some old ∧ data' n = some new ∧ Overwrites old offset buff cut new
  | .spoil n, data, data' => ∃ old new, data n = some old ∧ data' n = some new
  | _, _, _ => True

/-- The change makes nodes only, under names that are not there, and changes contents. -/
def Adds : Change α ν β → FileTree α ν β → Prop
  | .create _ p name _, t => t.Free p name
  | .write _ _ _ _, _ => True
  | .spoil _, _ => True
  | _, _ => False

end Change

/-- The change leads from one tree to the other. -/
structure Step (t : FileTree α ν β) (c : Change α ν β) (t' : FileTree α ν β) : Prop where
  names : t.toNameTree.Step c.names t'.toNameTree
  others : ∀ m, t.node m → t'.node m → ¬c.Writes m → t'.data m = t.data m
  contents : c.Contents t.data t'.data

/-- The changes lead, one after the other, from one tree to the other. -/
inductive Steps : FileTree α ν β → List (Change α ν β) → FileTree α ν β → Prop where
  | nil (t : FileTree α ν β) : Steps t [] t
  | cons {t t₁ t₂ : FileTree α ν β} {c : Change α ν β} {cs : List (Change α ν β)} (h : t.Step c t₁) (hs : Steps t₁ cs t₂) :
      Steps t (c :: cs) t₂

theorem Step.single {t t' : FileTree α ν β} {c : Change α ν β} (h : t.Step c t') : t.Steps [c] t' := .cons h (.nil t')

theorem Steps.append {t t₁ t₂ : FileTree α ν β} {cs cs' : List (Change α ν β)} (h : t.Steps cs t₁) (h' : t₁.Steps cs' t₂) :
    t.Steps (cs ++ cs') t₂ := by
  induction h with
  | nil => exact h'
  | cons hstep _ ih => exact .cons hstep (ih h')

/-- The first changes lead to a tree from which the others lead on. -/
theorem Steps.split {t t' : FileTree α ν β} {cs cs' : List (Change α ν β)} (h : t.Steps (cs ++ cs') t') :
    ∃ t₁, t.Steps cs t₁ ∧ t₁.Steps cs' t' := by
  induction cs generalizing t with
  | nil => exact ⟨t, .nil t, h⟩
  | cons c cs ih =>
    cases h with
    | cons hstep hs =>
      obtain ⟨t₁, h₁, h₂⟩ := ih hs
      exact ⟨t₁, .cons hstep h₁, h₂⟩

theorem Steps.of_nil {t t' : FileTree α ν β} (h : t.Steps [] t') : t' = t := by
  cases h
  rfl

theorem Steps.of_single {t t' : FileTree α ν β} {c : Change α ν β} (h : t.Steps [c] t') : t.Step c t' := by
  cases h with
  | cons hstep hs =>
    cases hs
    exact hstep

/-- The nodes of the first tree are in the second, with the names and kinds that they had. -/
structure Extends (t t' : FileTree α ν β) : Prop where
  names : t.toNameTree.Extends t'.toNameTree
  nodes : ∀ m, t.node m → t'.node m
  kinds : ∀ m, t.node m → (t'.data m = none ↔ t.data m = none)

theorem Extends.refl (t : FileTree α ν β) : t.Extends t := ⟨fun _ _ _ _ _ => Iff.rfl, fun _ h => h, fun _ _ => Iff.rfl⟩

theorem Extends.trans {t t₁ t' : FileTree α ν β} (h : t.Extends t₁) (h' : t₁.Extends t') : t.Extends t' :=
  ⟨h.names.trans h'.names, fun m hm => h'.nodes m (h.nodes m hm), fun m hm => (h'.kinds m (h.nodes m hm)).trans (h.kinds m hm)⟩

theorem Step.extends {t t' : FileTree α ν β} {c : Change α ν β} (h : t.Step c t') (hc : c.Adds t) : t.Extends t' := by
  have hwritten : ∀ {n}, c.names = .none → (∀ m, c.Writes m → m = n) → (∃ old new, t.data n = some old ∧ t'.data n = some new) →
      t.Extends t' := by
    rintro n hnone hwrites ⟨old, new, hold, hnew⟩
    have hs : t.toNameTree.Step .none t'.toNameTree := hnone ▸ h.names
    refine ⟨.none hs, fun m hm => (hs.1 m).2 hm, fun m hm => ?_⟩
    by_cases hmn : m = n
    · rw [hmn, hold, hnew]
      exact iff_of_false (fun h => nomatch h) fun h => nomatch h
    · rw [h.others m hm ((hs.1 m).2 hm) fun hw => hmn (hwrites m hw)]
  cases c with
  | create n p name new =>
    have hnode : ∀ m, t.node m → t'.node m := fun m hm => (h.names.2.2.1 m).2 (Or.inl hm)
    exact ⟨.create hc h.names, hnode, fun m hm => by rw [h.others m hm (hnode m hm) not_false]⟩
  | remove n => exact hc.elim
  | move n p name => exact hc.elim
  | write n offset buff cut =>
    obtain ⟨old, new, hold, hnew, -⟩ := h.contents
    exact hwritten rfl (fun _ hm => hm) ⟨old, new, hold, hnew⟩
  | spoil n => exact hwritten rfl (fun _ hm => hm) h.contents

end FileTree
