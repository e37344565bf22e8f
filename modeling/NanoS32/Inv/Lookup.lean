import NanoS32.Inv.Calls
import NanoS32.Lemmas.PathText

/-!
# Paths after a change

A search in a directory finds the first head with the name. So a path that resolves to a head still does when the tree of files has
only got nodes with names that were not there, and what `fs_read_file` gives for it are the contents of the head.
-/

namespace NanoS32

open Prog

namespace Vol.Format

variable {V V' : Vol} {C C' : Nat → List Nat} {P P' : Nat → Prop} {env : Env}

/-- An entry is found below a directory if it is a head there. -/
theorem matches_iff (hf : V.Format C P) {p k : Nat} {name : CStr} (hp : (V.ent p).flags = tDir) :
    (k < V.nent ∧ (V.ent k).matches p name = true) ↔ (V.tree C).Child p name k := by
  simp only [Block.matches, Bool.and_eq_true, beq_iff_eq, NameTree.Child, Vol.tree_node, Vol.tree_parent, Vol.tree_name]
  constructor
  · rintro ⟨hk, ⟨hu, hpar⟩, hname⟩
    have hpdir : (V.ent (V.par k)).flags = tDir := by rw [Vol.par, hpar, hp]
    exact ⟨hf.head_of_par hk hu hpdir, hpar, hname⟩
  · rintro ⟨hk, hpar, hname⟩
    exact ⟨hf.head_lt hk, ⟨hf.used_of_mem (hf.mem_head hk), hpar⟩, hname⟩

theorem lookup_iff (hf : V.Format C P) {p m : Nat} {name : CStr} (hp : (V.ent p).flags = tDir) :
    V.lookup p name = some m ↔ (V.tree C).Child p name m ∧ ∀ k < m, ¬(V.tree C).Child p name k := by
  rw [Vol.lookup_eq_some]
  constructor
  · rintro ⟨hm, hmatch, hfirst⟩
    refine ⟨(hf.matches_iff hp).1 ⟨hm, hmatch⟩, fun k hk hchild => ?_⟩
    exact hfirst k hk ((hf.matches_iff hp).2 hchild).2
  · rintro ⟨hchild, hfirst⟩
    obtain ⟨hm, hmatch⟩ := (hf.matches_iff hp).2 hchild
    refine ⟨hm, hmatch, fun k hk hmatch' => hfirst k hk ?_⟩
    exact (hf.matches_iff hp).1 ⟨Nat.lt_trans hk hm, hmatch'⟩

/-- A head is a directory if it has no contents. -/
theorem dir_iff (hf : V.Format C P) {n : Nat} (hn : C n ≠ []) : V.headData C n = none ↔ (V.ent n).flags = tDir := by
  rw [Vol.headData]
  split_ifs with hfile
  · exact iff_of_false not_false fun hdir => absurd (hdir.symm.trans hfile) (by decide)
  · exact iff_of_true rfl ((hf.kind n hn).resolve_right hfile)

section Extends

variable (hf : V.Format C P) (hf' : V'.Format C' P') (hext : (V.fileTree C).Extends (V'.fileTree C'))

include hf hf' hext

theorem dir_extends {p : Nat} (hp : C p ≠ []) (hdir : (V.ent p).flags = tDir) : (V'.ent p).flags = tDir := by
  have hp' : C' p ≠ [] := hext.nodes p hp
  exact (hf'.dir_iff hp').1 ((hext.kinds p hp).2 ((hf.dir_iff hp).2 hdir))

/-- What was found is found again. -/
theorem lookup_extends {p m : Nat} {name : CStr} (hp : C p ≠ []) (hdir : (V.ent p).flags = tDir) (hm : V.lookup p name = some m) :
    V'.lookup p name = some m := by
  obtain ⟨hchild, hfirst⟩ := (hf.lookup_iff hdir).1 hm
  have hiff := hext.names p name m hchild
  exact (hf'.lookup_iff (hf.dir_extends hf' hext hp hdir)).2 ⟨(hiff m).2 hchild, fun k hk hk' => hfirst k hk ((hiff k).1 hk')⟩

theorem parseLoop_extends : ∀ (fuel n pos : Nat) (rest : CStr) (p q : ParsedPath), V.parseLoop fuel n pos rest p = some q →
    C q.parent ≠ [] → (V.ent q.parent).flags = tDir →
      V'.parseLoop fuel n pos rest p = some q ∧ C p.parent ≠ [] ∧ (V.ent p.parent).flags = tDir := by
  intro fuel
  induction fuel with
  | zero =>
    intro n pos rest p q h hq hqdir
    obtain rfl := Option.some.inj h
    exact ⟨rfl, hq, hqdir⟩
  | succ fuel ih =>
    intro n pos rest p q h hq hqdir
    rw [Vol.parseLoop] at h ⊢
    split_ifs at h ⊢ with hrest
    · obtain rfl := Option.some.inj h
      exact ⟨rfl, hq, hqdir⟩
    · rcases hs : strtok rest pathSeparator with ⟨k, tok, nexttok⟩
      rw [hs] at h
      dsimp only at h ⊢
      split_ifs at h ⊢
      · exact ih _ _ _ _ _ h hq hqdir
      · cases hl : V.lookup p.parent tok with
        | none =>
          rw [hl] at h
          cases h
        | some m =>
          rw [hl] at h
          obtain ⟨hrun, hm, hmdir⟩ := ih _ _ _ _ _ h hq hqdir
          -- the parent of a head is a directory
          obtain ⟨-, -, hpar⟩ := lookup_spec hl
          obtain ⟨hp, hpdir⟩ := hf.parent m hm
          rw [hpar] at hp hpdir
          rw [hf.lookup_extends hf' hext hp hpdir hl]
          exact ⟨hrun, hp, hpdir⟩
      · obtain rfl := Option.some.inj h
        exact ⟨rfl, hq, hqdir⟩

theorem parse_extends {path : CStr} {q : ParsedPath} (h : V.parse env path = some q) (hq : C q.parent ≠ [])
    (hqdir : (V.ent q.parent).flags = tDir) : V'.parse env path = some q :=
  (hf.parseLoop_extends hf' hext _ _ _ _ _ _ h hq hqdir).1

/-- A path that resolves to a head still does. -/
theorem resolve_extends {path : CStr} {n : Nat} (h : V.resolve env path = some n) (hn : C n ≠ []) : V'.resolve env path = some n := by
  have hroot : ∀ {name : CStr}, V.lookup 0 name = some n → V'.lookup 0 name = some n :=
    fun hl => hf.lookup_extends hf' hext hf.root.1 hf.root.2.1 hl
  rw [Vol.resolve] at h ⊢
  split_ifs at h ⊢ with h1 h2
  · exact hroot h
  · cases hp : V.parse env path with
    | none =>
      rw [hp] at h
      cases h
    | some p =>
      rw [hp] at h
      obtain ⟨-, -, hpar⟩ := lookup_spec h
      obtain ⟨hq, hqdir⟩ := hf.parent n hn
      rw [hpar] at hq hqdir
      rw [hf.parse_extends hf' hext hp hq hqdir]
      exact hf.lookup_extends hf' hext hq hqdir h
  · exact hroot h

end Extends

end Vol.Format

/-! ## Files that are created -/

/-- A path with no separator is a name below the root. -/
theorem Vol.parse_of_not_mem (V : Vol) (env : Env) {path : CStr} (hdisk : stringIsDisk path = false) (hsep : pathSeparator ∉ path) :
    V.parse env path = some { disk := env.systemDisk, parent := 0, name := 0 } := by
  have hsep' : pathSeparator ∉ tokPath path := fun hm => hsep (List.mem_of_mem_take hm)
  have hdisk' := not_stringIsDisk_take hdisk (show 4 ≤ 63 by decide)
  rw [Vol.parse]
  cases hlen : (tokPath path).length with
  | zero => rfl
  | succ k =>
    have hne : tokPath path ≠ [] := List.ne_nil_of_length_eq_add_one hlen
    have hrun := V.parseLoop_last k (n := 0) 0 (c := tokPath path) { disk := env.systemDisk, parent := 0, name := 0 } ⟨hne, hsep'⟩
      (fun _ => hdisk') (Or.inl rfl)
    rw [List.append_nil] at hrun
    exact hrun

namespace Vol.Format

variable {V V' : Vol} {C C' : Nat → List Nat} {P P' : Nat → Prop} {env : Env}

/-- The name of a disk resolves to the root. -/
theorem resolve_disk (hf : V.Format C P) {path : CStr} (hdisk : stringIsDisk path = true) : V.resolve env path = some 0 := by
  rw [Vol.resolve, if_pos hdisk]
  exact (hf.lookup_iff hf.root.2.1).2 ⟨⟨hf.root.1, hf.root.2.2⟩, fun k hk => absurd hk (Nat.not_lt_zero k)⟩

/-- A path that has been taken apart resolves to the item with its name. -/
theorem resolve_of_parse {path : CStr} {p : ParsedPath} (hdisk : stringIsDisk path = false) (hparse : V.parse env path = some p) :
    V.resolve env path = V.lookup p.parent (path.drop p.name) := by
  rw [Vol.resolve, if_neg (Bool.eq_false_iff.1 hdisk)]
  split_ifs with hsep
  · rw [hparse]
  · rw [V.parse_of_not_mem env hdisk hsep] at hparse
    obtain rfl := Option.some.inj hparse
    rfl

/-- The path of a file that has been created resolves to it, if the file has got the name in the path. -/
theorem resolve_created (hf : V.Format C P) (hf' : V'.Format C' P') (hext : (V.fileTree C).Extends (V'.fileTree C')) {path : CStr}
    {p : ParsedPath} {n : Nat} (hres : V.resolve env path = none) (hparse : V.parse env path = some p) (hp : C p.parent ≠ [])
    (hpdir : (V.ent p.parent).flags = tDir)
    (hchild : ∀ k, (V'.tree C').Child p.parent (path.drop p.name) k ↔ k = n) : V'.resolve env path = some n := by
  have hdisk : stringIsDisk path = false := by
    by_contra h
    rw [hf.resolve_disk (Bool.eq_true_of_not_eq_false h)] at hres
    cases hres
  rw [resolve_of_parse hdisk (hf.parse_extends hf' hext hparse hp hpdir),
    hf'.lookup_iff (hf.dir_extends hf' hext hp hpdir)]
  exact ⟨(hchild n).2 rfl, fun k hk hk' => Nat.ne_of_lt hk ((hchild k).1 hk')⟩

end Vol.Format

/-! ## Reading -/

section Run

variable {K : Kept} {env : Env} {s : Sys} {d : Nat} {V V' : Vol} {C C' : Nat → List Nat} {P : Nat → Prop}

/-- What `fs_read_file` gives for a path that resolves to a head. -/
theorem fsReadFile_head (hr : Ready env s d) (hf : V.Format C P) {path : CStr} (hd : pathGetDisk env path = d) {n : Nat}
    (hres : V.resolve env path = some n) (hn : C n ≠ []) (offset count : Nat) :
    (fsReadFile env path offset count).run (s.withVol d V) =
      match V.headData C n with
      | some data => .ok ((data.drop offset).take count) (s.withVol d V)
      | none => .error errorNotFound (s.withVol d V) := by
  have hget := fsGetEntry_run hr hf.geo hd
  rw [hres] at hget
  rw [Vol.headData]
  by_cases hfile : (V.ent n).flags = tFile
  · obtain ⟨l, hl⟩ := hf.cons hn
    have hread := fsReadFile_run hr hf.geo (hl ▸ hf.chain n hn) (hl ▸ hf.refs n hn hfile) hd hget (Block.isFile_of_flags hfile).1
      (by have hfits := hf.fits n hn hfile; rwa [hl, List.length_cons] at hfits) offset count
    rw [if_pos hfile, hl]
    exact hread
  · have hnot : ¬(V.ent n).isFile = true := by
      rw [(Block.isDir_of_flags ((hf.kind n hn).resolve_right hfile)).2]
      exact Bool.false_ne_true
    rw [if_neg hfile, fsReadFile, bind_ok hget, run_failIf_bind, if_pos hnot]

/-- Opening a file makes a node at most, and this is the file. -/
theorem Vol.Opens.keeps {path : CStr} {flags n : Nat} {cs : List (FileTree.Change Nat CStr UInt8)} {t : FileTree Nat CStr UInt8}
    (ho : V.Opens env path flags n cs) (hf : V.Format C P) (hs : (V.fileTree C).Steps cs t) {m : Nat} (hm : C m ≠ [])
    (hne : V.resolve env path ≠ some m) : t.node m ∧ t.data m = V.headData C m ∧ m ≠ n := by
  cases ho with
  | found hres =>
    rw [hs.of_nil]
    refine ⟨hm, rfl, ?_⟩
    rintro rfl
    exact hne hres
  | created _ _ _ hfree =>
    obtain ⟨-, hunused, -⟩ := Vol.freeEntry_eq_some.1 hfree
    have hstep := hs.of_single
    have hnode : t.node m := (hstep.names.2.2.1 m).2 (Or.inl hm)
    refine ⟨hnode, hstep.others m hm hnode not_false, ?_⟩
    rintro rfl
    exact hf.not_mem_of_unused hunused m (hf.mem_head hm)

/-- A write to a path leaves the contents of the heads that the path does not resolve to. -/
theorem WriteMakes.others {path : CStr} {offset flags : Nat} {buff : List UInt8} {ok : Bool}
    {cs : List (FileTree.Change Nat CStr UInt8)} (hmakes : WriteMakes env V path offset buff flags ok cs) (hf : V.Format C P)
    (hs : (V.fileTree C).Steps cs (V'.fileTree C')) {m : Nat} (hm : C m ≠ []) (hne : V.resolve env path ≠ some m) :
    V'.headData C' m = V.headData C m := by
  have hlast : ∀ {t : FileTree Nat CStr UInt8} {n : Nat} {c : FileTree.Change Nat CStr UInt8}, t.Step c (V'.fileTree C') →
      c.names = .none → (∀ k, c.Writes k → k = n) → t.node m ∧ t.data m = V.headData C m ∧ m ≠ n →
        V'.headData C' m = V.headData C m := by
    rintro t n c hstep hnone hwrites ⟨hnode, hdata, hmn⟩
    have hnames : t.toNameTree.Step .none (V'.tree C') := hnone ▸ hstep.names
    exact (hstep.others m hnode ((hnames.1 m).2 hnode) fun hw => hmn (hwrites m hw)).trans hdata
  cases hmakes with
  | written ho =>
    obtain ⟨t, hs₁, hs₂⟩ := hs.split
    exact hlast hs₂.of_single rfl (fun _ h => h) (ho.keeps hf hs₁ hm hne)
  | spoilt ho _ =>
    obtain ⟨t, hs₁, hs₂⟩ := hs.split
    exact hlast hs₂.of_single rfl (fun _ h => h) (ho.keeps hf hs₁ hm hne)
  | failed =>
    rw [← Vol.fileTree_data, hs.of_nil]
    rfl

/-- The name that a file gets when it is created for a path is the one in the path. -/
def Vol.Named (V : Vol) (env : Env) (path : CStr) : Prop :=
  V.resolve env path = none → ∀ p, V.parse env path = some p → stringToName (path.drop p.name) = path.drop p.name

/-- A write to a path only adds to the tree of files, if its name is not there when it creates a file. -/
theorem WriteMakes.extends {path : CStr} {offset flags : Nat} {buff : List UInt8} {ok : Bool}
    {cs : List (FileTree.Change Nat CStr UInt8)} (hm : WriteMakes env V path offset buff flags ok cs) (hf : V.Format C P)
    (hw : WritesFile K env V path flags) (hK : K.distinct) (hs : (V.fileTree C).Steps cs (V'.fileTree C')) :
    (V.fileTree C).Extends (V'.fileTree C') := by
  have hopened : ∀ {n cs t}, V.Opens env path flags n cs → (V.fileTree C).Steps cs t → (V.fileTree C).Extends t := by
    intro n cs t hopens hs
    cases hopens with
    | found _ => exact hs.of_nil ▸ .refl _
    | created hres hflags hparse hfree =>
      obtain ⟨-, hname⟩ := hw.2 hres hflags _ n hparse hfree
      exact hs.of_single.extends (hf.free_of_lookup (hname hK))
  cases hm with
  | written hopens =>
    obtain ⟨t, hs₁, hs₂⟩ := hs.split
    exact (hopened hopens hs₁).trans (hs₂.of_single.extends trivial)
  | spoilt hopens _ =>
    obtain ⟨t, hs₁, hs₂⟩ := hs.split
    exact (hopened hopens hs₁).trans (hs₂.of_single.extends trivial)
  | failed => exact hs.of_nil ▸ .refl _

/-- The path that is left is the one that was given, if a file gets the name in it. -/
theorem Vol.Named.openedPath {path : CStr} (h : V.Named env path) : V.openedPath env path = path := by
  rw [Vol.openedPath]
  cases hres : V.resolve env path with
  | some n => rfl
  | none =>
    cases hparse : V.parse env path with
    | some p => exact (congrArg (path.take p.name ++ ·) (h hres p hparse)).trans (List.take_append_drop _ _)
    | none => rfl

/-- What a write that returns leaves at its path, if it is safe: the contents that were there, or none, with the data written. -/
theorem WriteMakes.contents {path : CStr} {offset flags : Nat} {buff : List UInt8} {cs : List (FileTree.Change Nat CStr UInt8)}
    (hmakes : WriteMakes env V path offset buff flags true cs) (hsafe : SafeWrite (V.sizeAt env path) offset buff.length flags)
    (hf : V.Format C P) (hf' : V'.Format C' P) (hw : WritesFile K env V path flags) (hK : K.distinct)
    (hs : (V.fileTree C).Steps cs (V'.fileTree C')) (hnamed : V.Named env path) :
    ∃ n old new,
      (V.resolve env path = some n ∧ V.headData C n = some old ∨ V.resolve env path = none ∧ C n = [] ∧ old = []) ∧
      V'.resolve env path = some n ∧ C' n ≠ [] ∧ V'.headData C' n = some new ∧
        FileTree.Overwrites old offset buff (decide (flags &&& wfTruncate ≠ 0)) new := by
  have hext := hmakes.extends hf hw hK hs
  cases hmakes with
  | @written n cs ho =>
    obtain ⟨t, hs₁, hs₂⟩ := hs.split
    obtain ⟨old, new, hold, hnew, hover⟩ := hs₂.of_single.contents
    have hsame : t.toNameTree.Step .none (V'.tree C') := hs₂.of_single.names
    cases ho with
    | found hres =>
      rw [hs₁.of_nil] at hold
      have hn := hf.isHead_iff.1 (hw.1 _ hres)
      exact ⟨_, old, new, Or.inl ⟨hres, hold⟩, hf.resolve_extends hf' hext hres hn, hext.nodes _ hn, hnew, hover⟩
    | created hres hflags hparse hfree =>
      obtain ⟨⟨hisDir, -⟩, hname⟩ := hw.2 hres hflags _ _ hparse hfree
      obtain ⟨hplt, hpu, -⟩ := hf.parse_parent hparse
      obtain ⟨hp, hpdir⟩ := hf.dir_of_isDir hplt hpu hisDir
      have hstep := hs₁.of_single
      obtain ⟨-, -, hnode, hkept, hpar, hnm⟩ := id hstep.names
      have hempty : t.data _ = some [] := hstep.contents
      have hfreename := hf.free_of_lookup (hname hK)
      rw [hnamed hres _ hparse] at hnm hfreename
      have hnode' := (hsame.1 _).2 ((hnode _).2 (Or.inr rfl))
      have hunused : C n = [] := by
        by_contra hn
        exact hf.not_mem_of_unused (Vol.freeEntry_eq_some.1 hfree).2.1 n (hf.mem_head hn)
      refine ⟨_, [], new, Or.inr ⟨hres, hunused, rfl⟩, hf.resolve_created hf' hext hres hparse hp hpdir fun k => ⟨?_, ?_⟩, hnode',
        hnew, ?_⟩
      · -- the name was not there
        rintro ⟨hk, hkpar, hkname⟩
        have hk' := (hsame.1 k).1 hk
        rw [(hsame.2 k hk').1] at hkpar
        rw [(hsame.2 k hk').2] at hkname
        refine ((hnode k).1 hk').resolve_left fun hk₀ => ?_
        rw [(hkept k hk₀).1] at hkpar
        rw [(hkept k hk₀).2] at hkname
        exact hfreename k hk₀ hkpar hkname
      · rintro rfl
        have hk' := (hnode k).2 (Or.inr rfl)
        exact ⟨hnode', (hsame.2 k hk').1.trans hpar, (hsame.2 k hk').2.trans hnm⟩
      · rw [Option.some.inj (hold.symm.trans hempty)] at hover
        exact hover
  | spoilt _ hnotSafe => exact absurd hsafe (hnotSafe rfl)

end Run

end NanoS32
