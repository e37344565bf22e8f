import NanoS32.Inv.WellFormed
import NanoS32.Lemmas.PathText

/-!
# Path resolution

What `fs_get_entry` makes of a path, compared with the tree of a well-formed disk. A search by parent and name also finds the
chained entry after an entry, which has this entry as its parent and the same name, and a path is taken apart in a copy of 63
bytes.
-/

namespace NanoS32

namespace Vol

variable (V : Vol) (C : Nat → List Nat)

/-- The head `n` is the item of `p` with this name. -/
def Child (p : Nat) (name : CStr) (n : Nat) : Prop := C n ≠ [] ∧ V.par n = p ∧ (V.ent n).nameStr = name

/-- Following the components from `p` through directories reaches the head `n`. -/
inductive Reaches : Nat → List CStr → Nat → Prop
  | here (p : Nat) : Reaches p [] p
  | step {p q n : Nat} {c : CStr} {cs : List CStr} : V.Child C p c q → (cs ≠ [] → (V.ent q).flags = tDir) → Reaches q cs n →
      Reaches p (c :: cs) n

/-- The name is also the one of `p`, and a search finds the chained entry after `p` before it finds an item of `p`. -/
def Shadowed (p : Nat) (name : CStr) : Prop :=
  (V.ent p).nameStr = name ∧ ∃ q, (C p)[1]? = some q ∧ ∀ n, V.Child C p name n → q < n

/-- Where a chained entry is in the way of the components, there is nothing to be reached, and the search does not end at a
chained entry: the components are not as many repetitions of the name as the chain goes on for. -/
def Straight : Nat → List CStr → Prop
  | _, [] => True
  | p, c :: cs =>
    (V.Shadowed C p c → (∀ i, ¬V.Reaches C p (c :: cs) i) ∧ ¬((∀ c' ∈ cs, c' = c) ∧ cs.length + 1 < (C p).length)) ∧
      (¬V.Shadowed C p c → ∀ q, V.Child C p c q → Straight q cs)

end Vol

namespace Vol.WellFormed

variable {V : Vol} {C : Nat → List Nat}

/-! ## Searches on a well-formed disk -/

/-- A head is the first entry of its chain. -/
theorem place_head (hw : V.WellFormed C) {h : Nat} (hh : C h ≠ []) : (C h)[0]? = some h := by
  rw [← List.head?_eq_getElem?]
  exact hw.head h hh

/-- An entry has one place in its chain. -/
theorem place_unique (hw : V.WellFormed C) {h j k n : Nat} (hj : (C h)[j]? = some n) (hk : (C h)[k]? = some n) : j = k :=
  (List.getElem?_inj (List.getElem?_eq_some_iff.1 hj).1
    (hw.chain h (List.ne_nil_of_mem (List.mem_of_getElem? hj))).nodup).1 (hj.trans hk.symm)

/-- An entry after the first of a chain is not a head. -/
theorem not_head (hw : V.WellFormed C) {h k n : Nat} (hn : (C h)[k + 1]? = some n) : C n = [] := by
  by_contra hne
  obtain rfl := hw.disjoint n h n (hw.mem_head hne) (List.mem_of_getElem? hn)
  have := hw.place_unique hn (hw.place_head hne)
  omega

/-- The entry after another in its chain. -/
theorem par_chained (hw : V.WellFormed C) {h k a b : Nat} (ha : (C h)[k]? = some a) (hb : (C h)[k + 1]? = some b) :
    V.par b = a := by
  have hh : C h ≠ [] := List.ne_nil_of_mem (List.mem_of_getElem? ha)
  obtain ⟨hlt, hak⟩ := List.getElem?_eq_some_iff.1 ha
  obtain ⟨hlt', hbk⟩ := List.getElem?_eq_some_iff.1 hb
  have hsplit : C h = (C h).take k ++ a :: b :: (C h).drop (k + 2) := by
    have h1 := List.drop_eq_getElem_cons hlt
    have h2 := List.drop_eq_getElem_cons hlt'
    rw [hak] at h1
    rw [hbk] at h2
    rw [← h2, ← h1, List.take_append_drop]
  have hlink := (hw.chain h hh).linked
  rw [hsplit] at hlink
  exact hlink.suffix.2.2.1

/-- What a search can find below an entry of a chain: an item of the head, or the chained entry that follows. -/
theorem matches_iff (hw : V.WellFormed C) {h k p n : Nat} {name : CStr} (hp : (C h)[k]? = some p) :
    n < V.nent ∧ (V.ent n).matches p name = true ↔
      (k = 0 ∧ V.Child C p name n) ∨ ((C h)[k + 1]? = some n ∧ (V.ent h).nameStr = name) := by
  have hh : C h ≠ [] := List.ne_nil_of_mem (List.mem_of_getElem? hp)
  have hmatch : (V.ent n).matches p name = true ↔ (V.ent n).used = true ∧ V.par n = p ∧ (V.ent n).nameStr = name := by
    simp only [Block.matches, Bool.and_eq_true, beq_iff_eq, Vol.par, and_assoc]
  rw [hmatch]
  constructor
  · rintro ⟨hn, hu, hpar, hname⟩
    obtain ⟨g, hg⟩ := hw.used n hn hu
    have hgne : C g ≠ [] := List.ne_nil_of_mem hg
    obtain ⟨j, hj⟩ := List.mem_iff_getElem?.1 hg
    cases j with
    | zero =>
      -- `n` is a head, and `p` its directory
      rw [← List.head?_eq_getElem?, hw.head g hgne] at hj
      obtain rfl := Option.some.inj hj
      have hd := hw.parent g hgne
      rw [hpar] at hd
      obtain rfl := hw.disjoint p h p (hw.mem_head hd.1) (List.mem_of_getElem? hp)
      exact Or.inl ⟨hw.place_unique hp (hw.place_head hd.1), hgne, hpar, hname⟩
    | succ j =>
      -- `n` follows `p` in its chain
      obtain ⟨b, hb⟩ : ∃ b, (C g)[j]? = some b := ⟨_, List.getElem?_eq_getElem (by
        have := (List.getElem?_eq_some_iff.1 hj).1
        omega)⟩
      obtain rfl : b = p := (hw.par_chained hb hj).symm.trans hpar
      obtain rfl := hw.disjoint g h b (List.mem_of_getElem? hb) (List.mem_of_getElem? hp)
      obtain rfl : j = k := hw.place_unique hb hp
      exact Or.inr ⟨hj, (hw.names g n hg).symm.trans hname⟩
  · rintro (⟨rfl, hn, hpar, hname⟩ | ⟨hn, hname⟩)
    · exact ⟨hw.head_lt hn, hw.used_of_mem (hw.mem_head hn), hpar, hname⟩
    · have hm := List.mem_of_getElem? hn
      exact ⟨hw.lt hm, hw.used_of_mem hm, hw.par_chained hp hn, (hw.names h n hm).trans hname⟩

/-- The items of a directory have different names. -/
theorem child_unique (hw : V.WellFormed C) {p n m : Nat} {name : CStr} (hn : V.Child C p name n) (hm : V.Child C p name m) :
    n = m :=
  hw.unique n m hn.1 hm.1 (hn.2.1.trans hm.2.1.symm) (hn.2.2.trans hm.2.2.symm)

/-- A search below a head where no chained entry is in the way. -/
theorem lookup_child (hw : V.WellFormed C) {p : Nat} (hp : C p ≠ []) {name : CStr} (hs : ¬V.Shadowed C p name) (n : Nat) :
    V.lookup p name = some n ↔ V.Child C p name n := by
  have h0 := hw.place_head hp
  have hnext : ∀ q, (C p)[1]? = some q → (V.ent p).nameStr = name → ∃ m, V.Child C p name m ∧ m < q := by
    intro q hq hname
    by_contra hno
    refine hs ⟨hname, q, hq, fun m hm => ?_⟩
    have hne : m ≠ q := by
      rintro rfl
      exact hm.1 (hw.not_head hq)
    have hge : ¬m < q := fun hlt => hno ⟨m, hm, hlt⟩
    omega
  rw [Vol.lookup_eq_some, ← and_assoc, hw.matches_iff h0]
  constructor
  · rintro ⟨⟨-, hc⟩ | ⟨hq, hname⟩, hleast⟩
    · exact hc
    · obtain ⟨m, hm, hlt⟩ := hnext n hq hname
      exact absurd ((hw.matches_iff h0).2 (Or.inl ⟨rfl, hm⟩)).2 (hleast m hlt)
  · intro hc
    refine ⟨Or.inl ⟨rfl, hc⟩, fun m hmn hm => ?_⟩
    rcases (hw.matches_iff h0).1 ⟨hmn.trans (hw.head_lt hc.1), hm⟩ with ⟨-, hc'⟩ | ⟨hq, hname⟩
    · have := hw.child_unique hc hc'
      omega
    · obtain ⟨m', hm', hlt⟩ := hnext m hq hname
      have := hw.child_unique hc hm'
      omega

/-- A search where a chained entry is in the way. -/
theorem lookup_shadowed (hw : V.WellFormed C) {p : Nat} (hp : C p ≠ []) {name : CStr} (hs : V.Shadowed C p name) :
    V.lookup p name = (C p)[1]? := by
  obtain ⟨hname, q, hq, hleast⟩ := hs
  have h0 := hw.place_head hp
  rw [hq, Vol.lookup_eq_some, ← and_assoc, hw.matches_iff h0]
  refine ⟨Or.inr ⟨hq, hname⟩, fun m hmq hm => ?_⟩
  rcases (hw.matches_iff h0).1 ⟨hmq.trans (hw.lt (List.mem_of_getElem? hq)), hm⟩ with ⟨-, hc⟩ | ⟨hq', -⟩
  · have := hleast m hc
    omega
  · have := Option.some.inj (hq.symm.trans hq')
    omega

/-- A search below a chained entry. -/
theorem lookup_chained (hw : V.WellFormed C) {h k p : Nat} (hp : (C h)[k + 1]? = some p) (name : CStr) :
    V.lookup p name = if (V.ent h).nameStr = name then (C h)[k + 2]? else none := by
  have hiff : ∀ n, n < V.nent ∧ (V.ent n).matches p name = true ↔ (C h)[k + 2]? = some n ∧ (V.ent h).nameStr = name := by
    intro n
    rw [hw.matches_iff hp]
    simp
  split_ifs with hname
  · cases hq : (C h)[k + 2]? with
    | none =>
      refine Vol.lookup_eq_none.2 fun n hn hm => ?_
      have := ((hiff n).1 ⟨hn, hm⟩).1
      rw [hq] at this
      cases this
    | some q =>
      rw [Vol.lookup_eq_some, ← and_assoc, hiff]
      refine ⟨⟨hq, hname⟩, fun m hmq hm => ?_⟩
      have hmq' := ((hiff m).1 ⟨hmq.trans (hw.lt (List.mem_of_getElem? hq)), hm⟩).1
      have := Option.some.inj (hq.symm.trans hmq')
      omega
  · exact Vol.lookup_eq_none.2 fun n hn hm => hname ((hiff n).1 ⟨hn, hm⟩).2

/-! ## Walks -/

/-- From a chained entry, only more of the chain can be found. -/
theorem walk_chained (hw : V.WellFormed C) {h : Nat} : ∀ (cs : List CStr) {k p : Nat}, (C h)[k + 1]? = some p →
    V.walk p cs = if ∀ c ∈ cs, c = (V.ent h).nameStr then (C h)[k + 1 + cs.length]? else none := by
  intro cs
  induction cs with
  | nil =>
    intro k p hp
    simp [Vol.walk, hp]
  | cons c cs ih =>
    intro k p hp
    rw [Vol.walk, hw.lookup_chained hp]
    by_cases hc : (V.ent h).nameStr = c
    · rw [if_pos hc]
      cases hq : (C h)[k + 2]? with
      | none =>
        have hlen := List.getElem?_eq_none_iff.1 hq
        have hend : (C h)[k + 1 + (c :: cs).length]? = none := List.getElem?_eq_none (by rw [List.length_cons]; omega)
        rw [hend, ite_self]
        rfl
      | some q =>
        have hk : k + 1 + (c :: cs).length = k + 1 + 1 + cs.length := by
          rw [List.length_cons]
          omega
        rw [Option.bind_some, ih hq, hk]
        simp [hc]
    · have hno : ¬∀ c' ∈ c :: cs, c' = (V.ent h).nameStr := fun hall => hc (hall c (by simp)).symm
      rw [if_neg hc, if_neg hno]
      rfl

/-- What is reached is a head. -/
theorem head_of_reaches {p n : Nat} {cs : List CStr} (h : V.Reaches C p cs n) (hp : C p ≠ []) :
    C n ≠ [] := by
  induction h with
  | here => exact hp
  | step hc _ _ ih => exact ih hc.1

theorem reaches_nil {p n : Nat} : V.Reaches C p [] n ↔ n = p := by
  constructor
  · intro h
    cases h
    rfl
  · rintro rfl
    exact Vol.Reaches.here n

/-- Below a regular file there is nothing. -/
theorem dir_of_reaches (hw : V.WellFormed C) {p n : Nat} {c : CStr} {cs : List CStr} (h : V.Reaches C p (c :: cs) n) :
    (V.ent p).flags = tDir := by
  cases h with
  | step hc _ _ =>
    have hd := (hw.parent _ hc.1).2
    rwa [hc.2.1] at hd

/-- The walk of the searches ends where the components reach just when the path is straight. -/
theorem walk_iff (hw : V.WellFormed C) : ∀ (cs : List CStr) {p : Nat}, C p ≠ [] →
    ((∀ i, V.walk p cs = some i ↔ V.Reaches C p cs i) ↔ V.Straight C p cs) := by
  intro cs
  induction cs with
  | nil =>
    intro p _
    refine iff_of_true (fun i => ?_) trivial
    rw [reaches_nil, Vol.walk, Option.some.injEq]
    exact eq_comm
  | cons c cs ih =>
    intro p hp
    rw [Vol.Straight]
    by_cases hs : V.Shadowed C p c
    · -- the search goes on along the chain of `p`
      obtain ⟨q, hq⟩ : ∃ q, (C p)[1]? = some q := ⟨_, hs.2.choose_spec.1⟩
      have hwalk : V.walk p (c :: cs) = if ∀ c' ∈ cs, c' = c then (C p)[cs.length + 1]? else none := by
        have h1 := hw.walk_chained (h := p) cs (k := 0) hq
        rw [hs.1, Nat.zero_add, Nat.add_comm] at h1
        rw [Vol.walk, hw.lookup_shadowed hp hs, hq, Option.bind_some, h1]
      have hend : (∃ i, V.walk p (c :: cs) = some i) ↔ (∀ c' ∈ cs, c' = c) ∧ cs.length + 1 < (C p).length := by
        rw [hwalk]
        split_ifs with hall
        · refine ⟨fun h => ?_, fun h => ⟨_, List.getElem?_eq_getElem h.2⟩⟩
          obtain ⟨i, hi⟩ := h
          exact ⟨hall, (List.getElem?_eq_some_iff.1 hi).1⟩
        · refine ⟨fun h => ?_, fun h => absurd h.1 hall⟩
          obtain ⟨i, hi⟩ := h
          cases hi
      have hchained : ∀ i, V.walk p (c :: cs) = some i → ¬V.Reaches C p (c :: cs) i := by
        intro i hi hreach
        have hhead := head_of_reaches hreach hp
        rw [hwalk] at hi
        split_ifs at hi
        exact hhead (hw.not_head hi)
      constructor
      · intro h
        refine ⟨fun _ => ⟨fun i hi => hchained i ((h i).2 hi) hi, fun hlen => ?_⟩, fun hn => absurd hs hn⟩
        obtain ⟨i, hi⟩ := hend.2 hlen
        exact hchained i hi ((h i).1 hi)
      · rintro ⟨h, -⟩ i
        obtain ⟨h1, h2⟩ := h hs
        exact iff_of_false (fun hi => h2 (hend.1 ⟨i, hi⟩)) (h1 i)
    · have hlook := hw.lookup_child hp hs
      by_cases hex : ∃ q, V.Child C p c q
      · obtain ⟨q, hq⟩ := hex
        have hwalk : V.walk p (c :: cs) = V.walk q cs := by rw [Vol.walk, (hlook q).2 hq, Option.bind_some]
        have hreach : ∀ i, V.Reaches C p (c :: cs) i ↔ V.Reaches C q cs i := by
          intro i
          constructor
          · intro h
            cases h with
            | step hc _ hrest => rwa [hw.child_unique hq hc]
          · intro h
            refine Vol.Reaches.step hq (fun hne => ?_) h
            cases cs with
            | nil => exact absurd rfl hne
            | cons c' cs => exact hw.dir_of_reaches h
        have hstraight : (V.Shadowed C p c → (∀ i, ¬V.Reaches C p (c :: cs) i) ∧
            ¬((∀ c' ∈ cs, c' = c) ∧ cs.length + 1 < (C p).length)) ∧
              (¬V.Shadowed C p c → ∀ q, V.Child C p c q → V.Straight C q cs) ↔ V.Straight C q cs :=
          ⟨fun h => h.2 hs q hq, fun h => ⟨fun h' => absurd h' hs, fun _ q' hq' => hw.child_unique hq hq' ▸ h⟩⟩
        rw [hstraight, ← ih hq.1]
        simp only [hwalk, hreach]
      · have hwalk : V.walk p (c :: cs) = none := by
          cases hl : V.lookup p c with
          | none => rw [Vol.walk, hl]; rfl
          | some q => exact absurd ⟨q, (hlook q).1 hl⟩ hex
        refine iff_of_true (fun i => ?_) ⟨fun h => absurd h hs, fun _ q hq => absurd ⟨q, hq⟩ hex⟩
        rw [hwalk]
        refine iff_of_false (fun h => by cases h) fun h => ?_
        cases h with
        | step hc _ _ => exact hex ⟨_, hc⟩

end Vol.WellFormed

/-! ## The call -/

/-- `fs_get_entry` of the path returns the index of the head that its components reach, and `ERROR_NOT_FOUND` when there is
none. -/
def Resolved (env : Env) (s : Sys) (path : CStr) (V : Vol) (C : Nat → List Nat) (comps : List CStr) : Prop :=
  (∀ i, (∃ entry, (fsGetEntry env path unknownValue unknownValue).run s = .ok (i, entry) s) ↔ V.Reaches C 0 comps i) ∧
    ((∀ i, ¬V.Reaches C 0 comps i) → (fsGetEntry env path unknownValue unknownValue).run s = .error errorNotFound s)

/-- A path resolves to what its components reach just when its last component starts among the first 63 characters and no
chained entry is in the way; or else when there is nothing to be reached. -/
theorem fs_get_entry_resolves {env : Env} {s : Sys} {d : Nat} {C : Nat → List Nat} (hr : Ready env s d)
    (hw : Vol.WellFormed (s.disk d) C) {path : CStr} {comps : List CStr} (hp : PathFor env path d comps) :
    Resolved env s path (s.disk d) C comps ↔
      (path.length - (comps.getLast hp.ne).length ≤ 62 ∧ Vol.Straight (s.disk d) C 0 comps) ∨
        (62 < path.length - (comps.getLast hp.ne).length ∧ ∀ i, ¬Vol.Reaches (s.disk d) C 0 comps i) := by
  have hget := fsGetEntry_run hr hw.geo hp.pathGetDisk_eq
  rw [Sys.withVol_self] at hget
  have hsome : ∀ i, (∃ entry, (fsGetEntry env path unknownValue unknownValue).run s = .ok (i, entry) s) ↔
      Vol.resolve (s.disk d) env path = some i := by
    intro i
    rw [hget]
    cases Vol.resolve (s.disk d) env path with
    | none => exact ⟨fun ⟨e, he⟩ => (by cases he), fun h => (by cases h)⟩
    | some n =>
      constructor
      · rintro ⟨e, he⟩
        cases he
        rfl
      · intro h
        cases h
        exact ⟨_, rfl⟩
  have hnone : Vol.resolve (s.disk d) env path = none →
      (fsGetEntry env path unknownValue unknownValue).run s = .error errorNotFound s := by
    intro h
    rw [hget, h]
  simp only [Resolved, hsome]
  rcases Nat.lt_or_ge 62 (path.length - (comps.getLast hp.ne).length) with hlong | hshort
  · have hsep : ∀ p name, pathSeparator ∈ name → Vol.lookup (s.disk d) p name = none := by
      intro p name hm
      refine Vol.lookup_eq_none.2 fun n hn hmatch => ?_
      simp only [Block.matches, Bool.and_eq_true, beq_iff_eq] at hmatch
      obtain ⟨h, hh⟩ := hw.used n hn hmatch.1.1
      refine (hw.name h (List.ne_nil_of_mem hh)).2.2 ?_
      rw [← hw.names h n hh, hmatch.2]
      exact hm
    have hlost := hp.resolve_long (s.disk d) hlong hsep
    rw [hlost]
    constructor
    · rintro ⟨h, -⟩
      exact Or.inr ⟨hlong, fun i hi => by cases (h i).2 hi⟩
    · rintro (⟨hle, -⟩ | ⟨-, h⟩)
      · omega
      · exact ⟨fun i => iff_of_false (fun hi => by cases hi) (h i), fun _ => hnone hlost⟩
  · have hwalk := hp.resolve_walk (s.disk d) hshort
    rw [hwalk, ← hw.walk_iff comps hw.root.1]
    constructor
    · rintro ⟨h, -⟩
      exact Or.inl ⟨hshort, h⟩
    · rintro (⟨-, h⟩ | ⟨hlt, -⟩)
      · refine ⟨h, fun hno => hnone (hwalk.trans ?_)⟩
        cases hend : Vol.walk (s.disk d) 0 comps with
        | none => rfl
        | some i => exact absurd ((h i).1 hend) (hno i)
      · omega

theorem fs_get_entry_resolves_sample :
    Resolved sampleEnv sampleSys [102] (sampleSys.disk 2) (Vol.flatChains (sampleSys.disk 2)) [[102]] ↔
      (1 - 1 ≤ 62 ∧ Vol.Straight (sampleSys.disk 2) (Vol.flatChains (sampleSys.disk 2)) 0 [[102]]) ∨
        (62 < 1 - 1 ∧ ∀ i, ¬Vol.Reaches (sampleSys.disk 2) (Vol.flatChains (sampleSys.disk 2)) 0 [[102]] i) :=
  fs_get_entry_resolves sampleSys_ready sampleSys_wellFormed (show PathFor sampleEnv [102] 2 [[102]] from
    ⟨by decide, by unfold IsComponent; decide, by decide, Or.inl ⟨rfl, rfl, fun c hc => by cases hc; decide⟩⟩)

/-! ## A deep directory -/

/-- A machine whose system disk has 100 blocks, and 10 entries in its table. -/
def deepEnv : Env :=
  { sampleEnv with
    diskInfo := fun d => if d = 2 then { sectors := 100, sides := 1, cylinders := 1, size := 1 } else sampleEnv.diskInfo d }

/-- Four directories with names of 14 characters below each other, and one with a name of 2 in the last. -/
def deepNames : List CStr := [List.replicate 14 97, List.replicate 14 98, List.replicate 14 99, List.replicate 14 100, [101, 101]]

/-- The calls that make the deep directory: it gets a file `f` by the move of a directory `x` with this file. -/
def deepSys : Sys :=
  let mk := fun k (s : Sys) => ((fsCreateDirectory deepEnv (pathText (deepNames.take k))).run s).after
  let s := ((formatEmpty deepEnv 2).run { disk := fun _ _ => Block.zero, faults := [], clock := fun _ => 7 }).after
  let s := mk 4 (mk 3 (mk 2 (mk 1 s)))
  let s := ((fsCreateDirectory deepEnv [120]).run s).after
  let s := ((fsWriteFile deepEnv [1] [120, 47, 102] 0 wfCreate).run s).after
  ((fsMove deepEnv [120] (pathText deepNames)).run s).after

/-- The path of this file: 64 characters. -/
def deepPath : CStr := pathText (deepNames ++ [[102]])

theorem deepSys_wellFormed : Vol.WellFormed (deepSys.disk 2) (Vol.flatChains (deepSys.disk 2)) :=
  Vol.WellFormed.of_flat ⟨by decide +kernel, by decide +kernel, by decide +kernel⟩ (by decide +kernel) (by decide +kernel)

/-- The file is reached, and its path is not found. -/
theorem fs_get_entry_deep : PathFor deepEnv deepPath 2 (deepNames ++ [[102]]) ∧ Ready deepEnv deepSys 2 ∧
    Vol.WellFormed (deepSys.disk 2) (Vol.flatChains (deepSys.disk 2)) ∧
      Vol.Reaches (deepSys.disk 2) (Vol.flatChains (deepSys.disk 2)) 0 (deepNames ++ [[102]]) 6 ∧
        ¬Resolved deepEnv deepSys deepPath (deepSys.disk 2) (Vol.flatChains (deepSys.disk 2)) (deepNames ++ [[102]]) := by
  have hpath : PathFor deepEnv deepPath 2 (deepNames ++ [[102]]) :=
    ⟨by decide, by unfold IsComponent; decide +kernel, by decide +kernel,
      Or.inl ⟨rfl, rfl, fun c hc => by cases hc; decide +kernel⟩⟩
  have hready : Ready deepEnv deepSys 2 := ⟨by decide, by decide, List.isEmpty_iff.1 (by decide +kernel), Nat.le_refl _⟩
  have hchild : ∀ n < 7, Vol.flatChains (deepSys.disk 2) n ≠ [] := by decide +kernel
  have hnames : ∀ n < 6, (Vol.ent (deepSys.disk 2) (n + 1)).nameStr = (deepNames ++ [[102]]).getD n [] ∧
      Vol.par (deepSys.disk 2) (n + 1) = n ∧ (Vol.ent (deepSys.disk 2) n).flags = tDir := by decide +kernel
  have hstep : ∀ n < 6, Vol.Child (deepSys.disk 2) (Vol.flatChains (deepSys.disk 2)) n ((deepNames ++ [[102]]).getD n [])
      (n + 1) := fun n hn => ⟨hchild (n + 1) (by omega), (hnames n hn).2.1, (hnames n hn).1⟩
  have hreach : Vol.Reaches (deepSys.disk 2) (Vol.flatChains (deepSys.disk 2)) 0 (deepNames ++ [[102]]) 6 :=
    .step (hstep 0 (by decide)) (fun _ => (hnames 1 (by decide)).2.2) <|
      .step (hstep 1 (by decide)) (fun _ => (hnames 2 (by decide)).2.2) <|
        .step (hstep 2 (by decide)) (fun _ => (hnames 3 (by decide)).2.2) <|
          .step (hstep 3 (by decide)) (fun _ => (hnames 4 (by decide)).2.2) <|
            .step (hstep 4 (by decide)) (fun _ => (hnames 5 (by decide)).2.2) <|
              .step (hstep 5 (by decide)) (fun h => absurd rfl h) (.here 6)
  refine ⟨hpath, hready, deepSys_wellFormed, hreach, fun h => ?_⟩
  obtain ⟨entry, hrun⟩ := (h.1 6).2 hreach
  have hlost : (match (fsGetEntry deepEnv deepPath unknownValue unknownValue).run deepSys with
      | .ok _ _ => true
      | _ => false) = false := by decide +kernel
  rw [hrun] at hlost
  cases hlost

end NanoS32
