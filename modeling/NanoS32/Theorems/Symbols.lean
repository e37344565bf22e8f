import Mathlib.Data.Finset.Card
import NanoS32.Lemmas.Assembler

/-!
# The table of symbols

What the calls of `find_or_add_symbol` and `find_symbol` say about the names that they are given. An entry keeps the first seven
characters of the name it was added for, and a name is compared with them in full.
-/

namespace NanoS32

/-! ## Runs -/

/-- A call for a name. -/
inductive SymCall where
  | add (name : CStr)
  | find (name : CStr)

/-- The name of a call. -/
def SymCall.name : SymCall → CStr
  | .add name => name
  | .find name => name

/-- A call: the table after it, and what it returns. -/
def SymCall.run (sTable : Nat → Symbol) : SymCall → (Nat → Symbol) × Nat
  | .add name => findOrAddSymbol sTable name
  | .find name => (sTable, findSymbol sTable name)

/-- The calls since the table was cleared, with what each returned, and the table after them. Between two calls `main` gives
symbols types and values. -/
inductive SymbolRun : List (SymCall × Nat) → (Nat → Symbol) → Prop where
  | clear {sTable : Nat → Symbol} (h : ∀ s, (sTable s).name = []) : SymbolRun [] sTable
  | set {calls : List (SymCall × Nat)} {sTable : Nat → Symbol} (h : SymbolRun calls sTable) (s : Nat) (type : SType) (value : Nat) :
      SymbolRun calls (setAt sTable s { sTable s with type := type, value := value })
  | call {calls : List (SymCall × Nat)} {sTable : Nat → Symbol} (h : SymbolRun calls sTable) (c : SymCall) :
      SymbolRun (calls ++ [(c, (c.run sTable).2)]) (c.run sTable).1

/-- The calls tell names apart: adding a name gives an index, and after a call that gave one another call gives it just when its
name is the same. -/
structure NamesApart (calls : List (SymCall × Nat)) : Prop where
  index : ∀ name s, (.add name, s) ∈ calls → s < sMax
  apart : calls.Pairwise fun c c' => c.2 < sMax → (c'.2 = c.2 ↔ c'.1.name = c.1.name)

/-- After a name of eight characters or more has been added, neither that name nor its first seven characters are used, unless these
were added before it. -/
def NamesFit (calls : List SymCall) : Prop :=
  ∀ pre name post, calls = pre ++ .add name :: post → 8 ≤ name.length → ∀ c ∈ post,
    c.name ≠ name ∧ (c.name = name.take 7 → .add (name.take 7) ∈ pre)

/-! ## One call -/

/-- The table holds these names, in order. -/
structure Holds (sTable : Nat → Symbol) (names : List CStr) : Prop where
  room : names.length ≤ sMax
  entry : ∀ s name, names[s]? = some name → (sTable s).name = name.take 7
  empty : ∀ s, names.length ≤ s → (sTable s).name = []
  ne_nil : ∀ name ∈ names, name ≠ []

/-- An entry is the first one that a name is found at. -/
def FirstAt (names : List CStr) (name : CStr) (s : Nat) : Prop :=
  (∃ e, names[s]? = some e ∧ e.take 7 = name) ∧ ∀ i < s, ∀ e, names[i]? = some e → e.take 7 ≠ name

/-- A name is not found. -/
def NotFound (names : List CStr) (name : CStr) : Prop := ∀ e ∈ names, e.take 7 ≠ name

/-- How a call ends: its name is found, it is added behind the others, or there is no index for it. -/
inductive Answer (names : List CStr) : SymCall → List CStr → Nat → Prop where
  | found {c : SymCall} {s : Nat} (h : FirstAt names c.name s) : Answer names c names s
  | added {name : CStr} (h : NotFound names name) (hroom : names.length < sMax) :
      Answer names (.add name) (names ++ [name]) names.length
  | none {c : SymCall} (h : NotFound names c.name) (hfull : ∀ name, c = .add name → names.length = sMax) :
      Answer names c names errorNotFound

theorem findSymbolLoop_spec (sTable : Nat → Symbol) (name : CStr) : ∀ k s, s + k = sMax →
    (∀ i < s, (sTable i).name ≠ [] ∧ (sTable i).name ≠ name) →
    SymbolAt sTable name (findSymbolLoop sTable name k s) ∨ findSymbolLoop sTable name k s = errorNotFound ∧
      ∃ e ≤ sMax, (e < sMax → (sTable e).name = []) ∧ ∀ i < e, (sTable i).name ≠ [] ∧ (sTable i).name ≠ name := by
  intro k
  induction k with
  | zero =>
    intro s hs hbefore
    exact Or.inr ⟨rfl, s, by omega, fun h => by omega, hbefore⟩
  | succ k ih =>
    intro s hs hbefore
    unfold findSymbolLoop
    split_ifs with hempty hname
    · exact Or.inr ⟨rfl, s, by omega, fun _ => hempty, hbefore⟩
    · exact Or.inl ⟨by omega, hname, hbefore⟩
    · refine ih (s + 1) (by omega) fun i hi => ?_
      rcases Nat.lt_or_eq_of_le (Nat.le_of_lt_succ hi) with hlt | rfl
      · exact hbefore i hlt
      · exact ⟨hempty, hname⟩

section Call

variable {sTable : Nat → Symbol} {names : List CStr} {name : CStr}

/-- A symbol of the table is the first name that it is found at. -/
theorem Holds.firstAt (h : Holds sTable names) (hne : name ≠ []) {s : Nat} (hs : SymbolAt sTable name s) : FirstAt names name s := by
  have hlt : s < names.length := by
    by_contra hge
    exact hne (hs.name_eq.symm.trans (h.empty s (Nat.le_of_not_lt hge)))
  have hget := List.getElem?_eq_getElem hlt
  refine ⟨⟨names[s], hget, (h.entry s _ hget).symm.trans hs.name_eq⟩, fun i hi e he => ?_⟩
  rw [← h.entry i e he]
  exact (hs.before i hi).2

/-- A name that no entry has is not found. -/
theorem Holds.notFound (h : Holds sTable names) {e : Nat} (hle : names.length ≤ e)
    (hbefore : ∀ i < e, (sTable i).name ≠ [] ∧ (sTable i).name ≠ name) : NotFound names name := by
  intro n hn
  obtain ⟨i, hi, rfl⟩ := List.getElem_of_mem hn
  rw [← h.entry i _ (List.getElem?_eq_getElem hi)]
  exact (hbefore i (Nat.lt_of_lt_of_le hi hle)).2

/-- A name whose first seven characters are empty is empty. -/
theorem Holds.take_ne_nil (h : Holds sTable names) {s : Nat} {n : CStr} (hs : names[s]? = some n) : n.take 7 ≠ [] := by
  intro hnil
  rcases List.take_eq_nil_iff.1 hnil with h7 | rfl
  · exact absurd h7 (by decide)
  · exact h.ne_nil _ (List.mem_of_getElem? hs) rfl

/-- The first empty entry is behind the names. -/
theorem Holds.length_eq (h : Holds sTable names) {e : Nat} (hempty : (sTable e).name = [])
    (hbefore : ∀ i < e, (sTable i).name ≠ []) : e = names.length := by
  rcases Nat.lt_trichotomy e names.length with hlt | heq | hgt
  · have hget := List.getElem?_eq_getElem hlt
    exact absurd ((h.entry e _ hget).symm.trans hempty) (h.take_ne_nil hget)
  · exact heq
  · exact absurd (h.empty _ (Nat.le_refl _)) (hbefore _ hgt)

/-- What a call does to the names. -/
theorem Holds.answer (h : Holds sTable names) (c : SymCall) (hne : c.name ≠ []) :
    ∃ names', Answer names c names' (c.run sTable).2 ∧ Holds (c.run sTable).1 names' := by
  cases c with
  | add name =>
    have hfound := findOrAddSymbol_found sTable name
    simp only [SymCall.run]
    generalize findOrAddSymbol sTable name = r at hfound ⊢
    obtain ⟨T, s⟩ := r
    dsimp only at hfound ⊢
    cases hfound with
    | found hs => exact ⟨names, .found (h.firstAt hne hs), h⟩
    | added hlt hempty hbefore =>
      obtain rfl := h.length_eq hempty fun i hi => (hbefore i hi).1
      refine ⟨names ++ [name], .added (h.notFound (Nat.le_refl _) hbefore) hlt, ?_, ?_, ?_, ?_⟩
      · rw [List.length_append, List.length_singleton]
        exact hlt
      · intro s n hs
        rcases Nat.lt_trichotomy s names.length with hlt' | rfl | hgt
        · rw [List.getElem?_append_left hlt'] at hs
          rw [setAt_ne _ _ (by omega), h.entry s n hs]
        · rw [List.getElem?_append_right (Nat.le_refl _), Nat.sub_self, List.getElem?_singleton, if_pos rfl] at hs
          rw [setAt_self, ← Option.some.inj hs]
          rfl
        · rw [List.getElem?_eq_none (by rw [List.length_append, List.length_singleton]; omega)] at hs
          cases hs
      · intro s hs
        rw [List.length_append, List.length_singleton] at hs
        rw [setAt_ne _ _ (by omega)]
        exact h.empty s (by omega)
      · intro n hn
        rcases List.mem_append.1 hn with hn | hn
        · exact h.ne_nil n hn
        · rwa [List.mem_singleton.1 hn]
    | full hfull =>
      have hlen : names.length = sMax := by
        refine Nat.le_antisymm h.room (Nat.le_of_not_lt fun hlt => ?_)
        exact (hfull _ hlt).1 (h.empty _ (Nat.le_refl _))
      exact ⟨names, .none (h.notFound h.room hfull) fun _ _ => hlen, h⟩
  | find name =>
    rcases findSymbolLoop_spec sTable name sMax 0 (Nat.zero_add _) (fun _ hi => absurd hi (Nat.not_lt_zero _)) with hs | hs
    · exact ⟨names, .found (h.firstAt hne hs), h⟩
    · obtain ⟨hnone, e, hle, hempty, hbefore⟩ := hs
      have hlen : names.length ≤ e := by
        by_cases hlt : e < sMax
        · exact Nat.le_of_eq (h.length_eq (hempty hlt) fun i hi => (hbefore i hi).1).symm
        · exact Nat.le_trans h.room (Nat.le_of_not_lt hlt)
      refine ⟨names, ?_, h⟩
      rw [SymCall.run, findSymbol, hnone]
      exact .none (h.notFound hlen hbefore) fun _ heq => nomatch heq

end Call

/-! ## All calls -/

/-- The calls on the names alone. -/
inductive NameRun : List (SymCall × Nat) → List CStr → Prop where
  | nil : NameRun [] []
  | snoc {calls : List (SymCall × Nat)} {names names' : List CStr} {c : SymCall} {r : Nat} (h : NameRun calls names)
      (ha : Answer names c names' r) : NameRun (calls ++ [(c, r)]) names'

theorem SymbolRun.nameRun {calls : List (SymCall × Nat)} {sTable : Nat → Symbol} (h : SymbolRun calls sTable)
    (hne : ∀ c ∈ calls, c.1.name ≠ []) : ∃ names, Holds sTable names ∧ NameRun calls names := by
  induction h with
  | clear hempty =>
    refine ⟨[], ⟨Nat.zero_le _, fun s name hs => ?_, fun s _ => hempty s, fun name hname => absurd hname List.not_mem_nil⟩, .nil⟩
    exact absurd (List.mem_of_getElem? hs) List.not_mem_nil
  | set _ s type value ih =>
    obtain ⟨names, hholds, hrun⟩ := ih hne
    have hname : ∀ (T : Nat → Symbol) i, (setAt T s { T s with type := type, value := value } i).name = (T i).name := by
      intro T i
      by_cases hi : i = s
      · rw [hi, setAt_self]
      · rw [setAt_ne _ _ hi]
    exact ⟨names, ⟨hholds.room, fun i name hi => (hname _ i).trans (hholds.entry i name hi),
      fun i hi => (hname _ i).trans (hholds.empty i hi), hholds.ne_nil⟩, hrun⟩
  | call _ c ih =>
    obtain ⟨names, hholds, hrun⟩ := ih fun c' hc' => hne c' (List.mem_append_left _ hc')
    obtain ⟨names', hans, hholds'⟩ := hholds.answer c (hne _ (List.mem_append_right _ (List.mem_singleton_self _)))
    exact ⟨names', hholds', .snoc hrun hans⟩

/-- A list split at an element: that is the last one, or one before it. -/
theorem split_concat {α : Type} {l pre post : List α} {y x : α} (h : l ++ [y] = pre ++ x :: post) :
    (pre = l ∧ x = y ∧ post = []) ∨ ∃ post', post = post' ++ [y] ∧ l = pre ++ x :: post' := by
  rcases List.eq_nil_or_concat post with rfl | ⟨post', z, rfl⟩
  · obtain ⟨hl, hy⟩ := List.append_inj' h rfl
    exact Or.inl ⟨hl.symm, (List.singleton_inj.1 hy).symm, rfl⟩
  · rw [List.concat_eq_append, ← List.cons_append, ← List.append_assoc] at h
    obtain ⟨hl, hy⟩ := List.append_inj' h rfl
    exact Or.inr ⟨post', by rw [List.concat_eq_append, List.singleton_inj.1 hy], hl⟩

/-- What is so after any calls: an entry is not the start of a name before it, each entry comes from a call that added it, no later
than a call that returned it or an entry behind it, and a call for a name of eight characters or more returns no index again. -/
structure RunInv (calls : List (SymCall × Nat)) (names : List CStr) : Prop where
  order : names.Pairwise fun a b => a.take 7 ≠ b
  entry : ∀ s e, names[s]? = some e → (SymCall.add e, s) ∈ calls
  created : ∀ pre x post, calls = pre ++ x :: post → x.2 < sMax → ∀ s ≤ x.2, ∃ e, (SymCall.add e, s) ∈ pre ++ [x] ∧
    names[s]? = some e
  fresh : calls.Pairwise fun p q => 8 ≤ q.1.name.length → p.2 < sMax → q.2 ≠ p.2

section Run

variable {calls : List (SymCall × Nat)} {names names' : List CStr} {c : SymCall} {r : Nat}

theorem not_errorNotFound_lt : ¬errorNotFound < sMax := by decide

/-- Only a short name is found. -/
theorem FirstAt.length_le {name : CStr} {s : Nat} (h : FirstAt names name s) : name.length ≤ 7 := by
  obtain ⟨⟨e, -, rfl⟩, -⟩ := h
  exact List.length_take_le 7 e

/-- The entries stay. -/
theorem Answer.keeps (h : Answer names c names' r) {s : Nat} {e : CStr} (hs : names[s]? = some e) : names'[s]? = some e := by
  cases h with
  | found => exact hs
  | added =>
    obtain ⟨hlt, -⟩ := List.getElem?_eq_some_iff.1 hs
    rwa [List.getElem?_append_left hlt]
  | none => exact hs

/-- An index that was returned is that of an entry. -/
theorem RunInv.get (h : RunInv calls names) {p : SymCall × Nat} (hp : p ∈ calls) (hlt : p.2 < sMax) : ∃ e, names[p.2]? = some e := by
  obtain ⟨pre, post, hsplit⟩ := List.append_of_mem hp
  obtain ⟨e, -, he⟩ := h.created pre p post hsplit hlt p.2 (Nat.le_refl _)
  exact ⟨e, he⟩

/-- The entries after one more call. -/
theorem RunInv.entry_step (h : RunInv calls names) (ha : Answer names c names' r) :
    ∀ s e, names'[s]? = some e → (SymCall.add e, s) ∈ calls ++ [(c, r)] := by
  intro s e hs
  cases ha with
  | found => exact List.mem_append_left _ (h.entry s e hs)
  | none => exact List.mem_append_left _ (h.entry s e hs)
  | @added name =>
    rcases Nat.lt_trichotomy s names.length with hlt | rfl | hgt
    · rw [List.getElem?_append_left hlt] at hs
      exact List.mem_append_left _ (h.entry s e hs)
    · rw [List.getElem?_append_right (Nat.le_refl _), Nat.sub_self, List.getElem?_singleton, if_pos rfl] at hs
      rw [← Option.some.inj hs]
      exact List.mem_append_right _ (List.mem_singleton_self _)
    · rw [List.getElem?_eq_none (by rw [List.length_append, List.length_singleton]; omega)] at hs
      cases hs

/-- An index that a call returns is that of an entry after it. -/
theorem Answer.lt_length (h : Answer names c names' r) (hlt : r < sMax) : r < names'.length := by
  cases h with
  | found hfirst =>
    obtain ⟨⟨e, he, -⟩, -⟩ := hfirst
    exact (List.getElem?_eq_some_iff.1 he).1
  | added =>
    rw [List.length_append, List.length_singleton]
    omega
  | none => exact absurd hlt not_errorNotFound_lt

theorem RunInv.step (h : RunInv calls names) (ha : Answer names c names' r) : RunInv (calls ++ [(c, r)]) names' := by
  have hentry := h.entry_step ha
  refine ⟨?_, hentry, ?_, ?_⟩
  · cases ha with
    | found => exact h.order
    | none => exact h.order
    | added hnot =>
      refine List.pairwise_append.2 ⟨h.order, List.pairwise_singleton _ _, fun a ha b hb => ?_⟩
      rw [List.mem_singleton.1 hb]
      exact hnot a ha
  · intro pre x post hsplit hlt s hs
    rcases split_concat hsplit with ⟨rfl, rfl, rfl⟩ | ⟨post', rfl, hcalls⟩
    · have hin : s < names'.length := Nat.lt_of_le_of_lt hs (ha.lt_length hlt)
      have hget := List.getElem?_eq_getElem hin
      exact ⟨names'[s], hentry s _ hget, hget⟩
    · obtain ⟨e, hmem, he⟩ := h.created pre x post' hcalls hlt s hs
      exact ⟨e, hmem, ha.keeps he⟩
  · refine List.pairwise_append.2 ⟨h.fresh, List.pairwise_singleton _ _, fun p hp q hq hlong hlt => ?_⟩
    obtain rfl := List.mem_singleton.1 hq
    obtain ⟨e, he⟩ := h.get hp hlt
    have hbound := (List.getElem?_eq_some_iff.1 he).1
    cases ha with
    | found hfirst =>
      have := hfirst.length_le
      exact absurd hlong (by dsimp only; omega)
    | added => exact Nat.ne_of_gt hbound
    | none => exact fun heq => not_errorNotFound_lt (Nat.lt_of_le_of_lt (Nat.le_of_eq heq) hlt)

theorem NameRun.inv (h : NameRun calls names) : RunInv calls names := by
  induction h with
  | nil =>
    refine ⟨List.Pairwise.nil, fun s e hs => absurd (List.mem_of_getElem? hs) List.not_mem_nil, ?_, List.Pairwise.nil⟩
    intro pre x post hsplit
    exact absurd hsplit (List.append_ne_nil_of_right_ne_nil _ (List.cons_ne_nil _ _)).symm
  | snoc _ ha ih => exact ih.step ha

/-! ## What the calls say -/

theorem NamesApart.prefix (h : NamesApart (calls ++ [(c, r)])) : NamesApart calls :=
  ⟨fun name s hmem => h.index name s (List.mem_append_left _ hmem), (List.pairwise_append.1 h.apart).1⟩

/-- A call after these is not for a name that was cut, and not for what was kept of one unless that was added before it. -/
def FitsAfter (cs : List SymCall) (c : SymCall) : Prop :=
  ∀ pre name post, cs = pre ++ .add name :: post → 8 ≤ name.length →
    c.name ≠ name ∧ (c.name = name.take 7 → .add (name.take 7) ∈ pre)

theorem namesFit_concat {cs : List SymCall} : NamesFit (cs ++ [c]) ↔ NamesFit cs ∧ FitsAfter cs c := by
  constructor
  · intro h
    refine ⟨fun pre name post hsplit hlong d hd => ?_, fun pre name post hsplit hlong => ?_⟩
    · refine h pre name (post ++ [c]) ?_ hlong d (List.mem_append_left _ hd)
      rw [hsplit, List.append_assoc, List.cons_append]
    · refine h pre name (post ++ [c]) ?_ hlong c (List.mem_append_right _ (List.mem_singleton_self c))
      rw [hsplit, List.append_assoc, List.cons_append]
  · rintro ⟨hfit, hlast⟩ pre name post hsplit hlong d hd
    rcases split_concat hsplit with ⟨-, -, rfl⟩ | ⟨post', rfl, hcs⟩
    · exact absurd hd List.not_mem_nil
    · rcases List.mem_append.1 hd with hd | hd
      · exact hfit pre name post' hcs hlong d hd
      · rw [List.mem_singleton.1 hd]
        exact hlast pre name post' hcs hlong

/-- An entry that a name of at most seven characters is found at: there is none before it. -/
theorem Answer.first (h : Answer names c names' r) {s : Nat} {e : CStr} (hs : names[s]? = some e) (he : e.take 7 = c.name) :
    r ≤ s ∧ ∃ e', names[r]? = some e' ∧ e'.take 7 = c.name := by
  cases h with
  | found hfirst =>
    refine ⟨?_, hfirst.1⟩
    by_contra hlt
    exact hfirst.2 s (Nat.lt_of_not_le hlt) e hs he
  | added hnot => exact absurd he (hnot e (List.mem_of_getElem? hs))
  | none hnot => exact absurd he (hnot e (List.mem_of_getElem? hs))

/-- A call for the start of a name that was added before is answered with the entry of another name. -/
theorem RunInv.start_added (h : RunInv calls names) (ha : Answer names c names' r) (happ : NamesApart (calls ++ [(c, r)]))
    {pre post : List (SymCall × Nat)} {name : CStr} {s : Nat} (hsplit : calls = pre ++ (.add name, s) :: post)
    (hlong : 8 ≤ name.length) (hname : c.name = name.take 7) : .add (name.take 7) ∈ pre.map Prod.fst := by
  have hmem : (SymCall.add name, s) ∈ calls := hsplit ▸ List.mem_append_right _ List.mem_cons_self
  have hs : s < sMax := happ.prefix.index name s hmem
  obtain ⟨e, he, hget⟩ := h.created pre _ post hsplit hs s (Nat.le_refl _)
  have hown : e = name := by
    rcases List.mem_append.1 he with he | he
    · have hfresh := List.pairwise_append.1 (hsplit ▸ h.fresh)
      exact absurd rfl (hfresh.2.2 _ he (.add name, s) List.mem_cons_self hlong hs)
    · exact SymCall.add.inj (Prod.mk.inj (List.mem_singleton.1 he)).1
  obtain ⟨hle, e', hget', he'⟩ := ha.first hget (hown ▸ hname.symm)
  have hr : r < sMax := Nat.lt_of_le_of_lt hle hs
  obtain ⟨e'', hcreated, hget''⟩ := h.created pre _ post hsplit hs r hle
  obtain rfl : e'' = e' := Option.some.inj (hget''.symm.trans hget')
  have hin : (SymCall.add e'', r) ∈ calls := by
    rw [hsplit, List.append_cons]
    exact List.mem_append_left _ hcreated
  have hapart := (List.pairwise_append.1 happ.apart).2.2 _ hin _ (List.mem_singleton_self _) hr
  have hsame : name.take 7 = e'' := hname.symm.trans (hapart.1 rfl)
  rcases List.mem_append.1 hcreated with hpre | hlast
  · exact hsame ▸ List.mem_map_of_mem hpre
  · have hlen := congrArg List.length (hsame.trans (SymCall.add.inj (Prod.mk.inj (List.mem_singleton.1 hlast)).1))
    rw [List.length_take] at hlen
    omega

/-- Calls that tell names apart fit. -/
theorem NameRun.fit_of_apart (h : NameRun calls names) (happ : NamesApart calls) : NamesFit (calls.map Prod.fst) := by
  induction h with
  | nil =>
    intro pre name post hsplit
    exact absurd hsplit (List.append_ne_nil_of_right_ne_nil _ (List.cons_ne_nil _ _)).symm
  | @snoc calls names names' c r hrun ha ih =>
    have hinv := hrun.inv
    rw [List.map_append, List.map_singleton, namesFit_concat]
    refine ⟨ih happ.prefix, fun pre name post hsplit hlong => ?_⟩
    obtain ⟨hpre, rest, hcalls, rfl, hrest⟩ := List.map_eq_append_iff.1 hsplit
    obtain ⟨⟨x, s⟩, hpost, rfl, hx, rfl⟩ := List.map_eq_cons_iff.1 hrest
    obtain rfl : x = .add name := hx
    refine ⟨fun hname => ?_, fun hname => hinv.start_added ha happ hcalls hlong hname⟩
    have hmem : (SymCall.add name, s) ∈ calls := hcalls ▸ List.mem_append_right _ List.mem_cons_self
    have hs : s < sMax := happ.prefix.index name s hmem
    have hapart := (List.pairwise_append.1 happ.apart).2.2 _ hmem _ (List.mem_singleton_self _) hs
    have hfresh := (List.pairwise_append.1 (hinv.step ha).fresh).2.2 _ hmem _ (List.mem_singleton_self _)
    exact hfresh (hname ▸ hlong) hs (hapart.2 hname)

/-! ## Calls that fit -/

/-- What holds of calls that fit: no name is in the table twice, every name that was added is in it, and an index that was returned is
that of the name. -/
structure Indexed (calls : List (SymCall × Nat)) (names : List CStr) : Prop where
  nodup : names.Nodup
  added : ∀ name s, (.add name, s) ∈ calls → s < sMax ∧ name ∈ names
  get : ∀ p ∈ calls, p.2 < sMax → names[p.2]? = some p.1.name

/-- The names of the table are among those of the calls. -/
theorem RunInv.length_le (h : RunInv calls names) (hnodup : names.Nodup) :
    names.length ≤ (calls.map fun p => p.1.name).toFinset.card := by
  rw [← List.toFinset_card_of_nodup hnodup]
  refine Finset.card_le_card fun name hname => ?_
  obtain ⟨s, hs⟩ := List.mem_iff_getElem?.1 (List.mem_toFinset.1 hname)
  exact List.mem_toFinset.2 (List.mem_map.2 ⟨_, h.entry s name hs, rfl⟩)

/-- A name that is in the table is found at its own entry, or is too long to be found. -/
theorem RunInv.firstAt_own (h : RunInv calls names) {name : CStr} {s k : Nat} (hs : FirstAt names name s)
    (hk : names[k]? = some name) : s = k := by
  obtain ⟨⟨e, he, htake⟩, hfirst⟩ := hs
  have hown : name.take 7 = name := List.take_of_length_le (htake ▸ List.length_take_le 7 e)
  rcases Nat.lt_trichotomy s k with hlt | heq | hgt
  · obtain ⟨hk', hget⟩ := List.getElem?_eq_some_iff.1 hk
    obtain ⟨hs', hget'⟩ := List.getElem?_eq_some_iff.1 he
    have hne := List.pairwise_iff_getElem.1 h.order s k hs' hk' hlt
    rw [hget, hget'] at hne
    exact absurd htake hne
  · exact heq
  · exact absurd hown (hfirst k hgt name hk)

/-- The entry that a fitting call finds is that of its name. -/
theorem Indexed.found (hind : Indexed calls names) (hinv : RunInv calls names)
    (hlast : FitsAfter (calls.map Prod.fst) c) {s : Nat} (hs : FirstAt names c.name s) : names[s]? = some c.name := by
  obtain ⟨⟨e, he, htake⟩, -⟩ := id hs
  by_cases hshort : e.length ≤ 7
  · rw [he, ← htake, List.take_of_length_le hshort]
  · have hmem : SymCall.add e ∈ calls.map Prod.fst := List.mem_map_of_mem (hinv.entry s e he)
    obtain ⟨pre, post, hsplit⟩ := List.append_of_mem hmem
    have hpre := (hlast pre e post hsplit (by omega)).2 htake.symm
    have hadd : SymCall.add c.name ∈ calls.map Prod.fst := by
      rw [hsplit, ← htake]
      exact List.mem_append_left _ hpre
    obtain ⟨⟨x, i⟩, hx, hxadd⟩ := List.mem_map.1 hadd
    obtain rfl : x = .add c.name := hxadd
    obtain ⟨k, hk⟩ := List.mem_iff_getElem?.1 (hind.added c.name i hx).2
    rw [hinv.firstAt_own hs hk, hk]

/-- A fitting call does not look for a name in vain that is in the table. -/
theorem RunInv.not_mem (hinv : RunInv calls names) (hlast : FitsAfter (calls.map Prod.fst) c) (hnot : NotFound names c.name) :
    c.name ∉ names := by
  intro hmem
  by_cases hlong : 8 ≤ c.name.length
  · obtain ⟨s, hs⟩ := List.mem_iff_getElem?.1 hmem
    have hadd : SymCall.add c.name ∈ calls.map Prod.fst := List.mem_map_of_mem (hinv.entry s c.name hs)
    obtain ⟨pre, post, hsplit⟩ := List.append_of_mem hadd
    exact (hlast pre c.name post hsplit hlong).1 rfl
  · exact hnot c.name hmem (List.take_of_length_le (by omega))

/-- While the table has room, only looking for a name that is not there gives no index. -/
theorem Answer.index (h : Answer names c names' r) (hroom : names.length < sMax) :
    r < sMax ∨ NotFound names c.name ∧ ∀ name, c ≠ .add name := by
  cases h with
  | found hfirst =>
    obtain ⟨⟨e, he, -⟩, -⟩ := hfirst
    exact Or.inl (Nat.lt_trans (List.getElem?_eq_some_iff.1 he).1 hroom)
  | added => exact Or.inl hroom
  | none hnot hfull => exact Or.inr ⟨hnot, fun name heq => Nat.ne_of_lt hroom (hfull name heq)⟩

/-- The names and the indices after one more call that fits. -/
theorem Indexed.step (hind : Indexed calls names) (hinv : RunInv calls names) (hlast : FitsAfter (calls.map Prod.fst) c)
    (ha : Answer names c names' r) (hroom : names.length < sMax) : Indexed (calls ++ [(c, r)]) names' := by
  have hget : r < sMax → names'[r]? = some c.name := by
    intro hr
    cases ha with
    | found hfirst => exact hind.found hinv hlast hfirst
    | added =>
      rw [List.getElem?_append_right (Nat.le_refl _), Nat.sub_self]
      rfl
    | none => exact absurd hr not_errorNotFound_lt
  refine ⟨?_, fun name s hmem => ?_, fun p hp hlt => ?_⟩
  · cases ha with
    | found => exact hind.nodup
    | none => exact hind.nodup
    | added hnot =>
      refine List.nodup_append.2 ⟨hind.nodup, List.nodup_singleton _, fun a ha b hb heq => ?_⟩
      rw [List.mem_singleton.1 hb] at heq
      exact hinv.not_mem hlast hnot (heq ▸ ha)
  · rcases List.mem_append.1 hmem with hmem | hmem
    · obtain ⟨hlt, hin⟩ := hind.added name s hmem
      obtain ⟨k, hk⟩ := List.mem_iff_getElem?.1 hin
      exact ⟨hlt, List.mem_of_getElem? (ha.keeps hk)⟩
    · obtain ⟨rfl, rfl⟩ := Prod.mk.inj (List.mem_singleton.1 hmem)
      rcases ha.index hroom with hlt | ⟨-, hadd⟩
      · exact ⟨hlt, List.mem_of_getElem? (hget hlt)⟩
      · exact absurd rfl (hadd name)
  · rcases List.mem_append.1 hp with hp | hp
    · exact ha.keeps (hind.get p hp hlt)
    · obtain rfl := List.mem_singleton.1 hp
      exact hget hlt

/-- A fitting call tells its name apart from those of the calls before it. -/
theorem Indexed.apart_step (hind : Indexed calls names) (hinv : RunInv calls names) (hlast : FitsAfter (calls.map Prod.fst) c)
    (ha : Answer names c names' r) (hroom : names.length < sMax) (happ : NamesApart calls) : NamesApart (calls ++ [(c, r)]) := by
  have hstep := hind.step hinv hlast ha hroom
  refine ⟨fun name s hmem => (hstep.added name s hmem).1, ?_⟩
  refine List.pairwise_append.2 ⟨happ.apart, List.pairwise_singleton _ _, fun p hp q hq hlt => ?_⟩
  obtain rfl := List.mem_singleton.1 hq
  have hold : names'[p.2]? = some p.1.name := hstep.get p (List.mem_append_left _ hp) hlt
  have hnew : r < sMax → names'[r]? = some c.name := hstep.get (c, r) (List.mem_append_right _ (List.mem_singleton_self _))
  constructor
  · rintro rfl
    exact Option.some.inj ((hnew hlt).symm.trans hold)
  · intro hname
    rcases ha.index hroom with hr | ⟨hnot, -⟩
    · have hget := hnew hr
      rw [show c.name = p.1.name from hname, ← hold] at hget
      exact (List.getElem?_inj (ha.lt_length hr) hstep.nodup).1 hget
    · have hin := List.mem_of_getElem? (hind.get p hp hlt)
      exact absurd (hname ▸ hin) (hinv.not_mem hlast hnot)

/-- Calls that fit tell names apart. -/
theorem NameRun.apart_of_fit (h : NameRun calls names) (hcount : (calls.map fun p => p.1.name).toFinset.card < sMax)
    (hfit : NamesFit (calls.map Prod.fst)) : Indexed calls names ∧ NamesApart calls := by
  induction h with
  | nil =>
    refine ⟨⟨List.nodup_nil, fun _ _ hmem => absurd hmem List.not_mem_nil, fun _ hmem => absurd hmem List.not_mem_nil⟩,
      fun _ _ hmem => absurd hmem List.not_mem_nil, List.Pairwise.nil⟩
  | @snoc calls names names' c r hrun ha ih =>
    have hinv := hrun.inv
    rw [List.map_append, List.map_singleton, namesFit_concat] at hfit
    have hsub : (calls.map fun p => p.1.name).toFinset.card < sMax := by
      refine Nat.lt_of_le_of_lt (Finset.card_le_card fun name hname => ?_) hcount
      rw [List.map_append, List.mem_toFinset, List.mem_append]
      exact Or.inl (List.mem_toFinset.1 hname)
    obtain ⟨hind, happ⟩ := ih hsub hfit.1
    have hroom : names.length < sMax := Nat.lt_of_le_of_lt (hinv.length_le hind.nodup) hsub
    exact ⟨hind.step hinv hfit.2 ha hroom, hind.apart_step hinv hfit.2 ha hroom happ⟩

end Run

/-- The calls tell names apart just when no name is used again that was too long for the table. -/
theorem symbols_apart {calls : List (SymCall × Nat)} {sTable : Nat → Symbol} (h : SymbolRun calls sTable)
    (hne : ∀ c ∈ calls, c.1.name ≠ []) (hcount : (calls.map fun p => p.1.name).toFinset.card < sMax) :
    NamesApart calls ↔ NamesFit (calls.map Prod.fst) := by
  obtain ⟨names, -, hrun⟩ := h.nameRun hne
  exact ⟨hrun.fit_of_apart, fun hfit => (hrun.apart_of_fit hcount hfit).2⟩

theorem symbols_apart_loop :
    NamesApart [(.add (ascii "loop"), 0), (.find (ascii "end"), errorNotFound), (.add (ascii "end"), 1), (.add (ascii "loop"), 0)] ↔
      NamesFit [.add (ascii "loop"), .find (ascii "end"), .add (ascii "end"), .add (ascii "loop")] :=
  symbols_apart ((((SymbolRun.clear (fun s => (rfl : (asmInit.sTable s).name = []))).call _).call _ |>.call _).call _)
    (by decide +kernel) (by decide +kernel)

/-- A name of eight characters gets a new index each time it is added. -/
theorem symbols_cut : ∃ calls sTable, SymbolRun calls sTable ∧ (∀ c ∈ calls, c.1.name ≠ []) ∧
    (calls.map fun p => p.1.name).toFinset.card < sMax ∧ ¬NamesApart calls := by
  have hrun := ((SymbolRun.clear (fun s => (rfl : (asmInit.sTable s).name = []))).call (.add (ascii "abcdefgh"))).call
    (.add (ascii "abcdefgh"))
  refine ⟨_, _, hrun, by decide +kernel, by decide +kernel, fun h => ?_⟩
  have hapart := (List.pairwise_append.1 h.apart).2.2 _ (List.mem_singleton_self _) _ (List.mem_singleton_self _)
  exact absurd ((hapart (by decide +kernel)).2 rfl) (by decide +kernel)

end NanoS32
