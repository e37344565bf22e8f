import NanoS32.Inv.Writing
import NanoS32.Lemmas.Reading

/-!
# The calls keep the format

A call on a disk with the format leaves it with the format, whichever way the call ends, when it works on heads, an item is added only
to a directory with room for it, and the root is not deleted or moved. The tree of the heads stays as it is to be kept, and while no
block is a reference twice, the changes of the tree of files are those that the call is for.
-/

namespace NanoS32

open Prog

/-! ## Paths -/

namespace Vol.Format

variable {V : Vol} {C : Nat → List Nat} {P : Nat → Prop} {env : Env}

/-- A used entry that is a directory is a head with the flags of one. -/
theorem dir_of_isDir (hf : V.Format C P) {n : Nat} (hn : n < V.nent) (hu : (V.ent n).used = true) (hd : (V.ent n).isDir = true) :
    C n ≠ [] ∧ (V.ent n).flags = tDir := by
  obtain ⟨h, hm⟩ := hf.used n hn hu
  have hflags : (V.ent n).flags = tDir := by
    rcases hf.kind h (List.ne_nil_of_mem hm) with hk | hk
    · rw [hf.flags h n hm, hk]
    · have hfile := Block.isFile_of_flags ((hf.flags h n hm).trans hk)
      rw [hfile.2] at hd
      cases hd
  exact ⟨hf.head_of_isDir hn hflags, hflags⟩

/-- What a search finds is used, and below the entry it was searched in. -/
theorem lookup_spec {p n : Nat} {name : CStr} (h : V.lookup p name = some n) :
    n < V.nent ∧ (V.ent n).used = true ∧ V.par n = p := by
  obtain ⟨hn, hm, -⟩ := Vol.lookup_eq_some.1 h
  simp only [Block.matches, Bool.and_eq_true, beq_iff_eq] at hm
  exact ⟨hn, hm.1.1, hm.1.2⟩

/-- The parent that a path is parsed to is used, and below the root. -/
theorem parseLoop_parent (V : Vol) : ∀ (fuel n pos : Nat) (rest : CStr) (p q : ParsedPath),
    (p.parent < V.nent ∧ (V.ent p.parent).used = true ∧ Forest.Under V.par 0 p.parent) →
      V.parseLoop fuel n pos rest p = some q →
        q.parent < V.nent ∧ (V.ent q.parent).used = true ∧ Forest.Under V.par 0 q.parent := by
  intro fuel
  induction fuel with
  | zero =>
    intro n pos rest p q hp h
    obtain rfl := Option.some.inj h
    exact hp
  | succ fuel ih =>
    intro n pos rest p q hp h
    rw [Vol.parseLoop] at h
    split_ifs at h with hrest
    · obtain rfl := Option.some.inj h
      exact hp
    · rcases hs : strtok rest pathSeparator with ⟨k, tok, nexttok⟩
      rw [hs] at h
      dsimp only at h
      split_ifs at h
      · refine ih _ _ _ _ _ ?_ h
        exact hp
      · cases hl : V.lookup p.parent tok with
        | none =>
          rw [hl] at h
          cases h
        | some m =>
          rw [hl] at h
          obtain ⟨hm, hu, hpar⟩ := lookup_spec hl
          refine ih _ _ _ _ _ ?_ h
          exact ⟨hm, hu, Forest.Under.step (hpar ▸ hp.2.2)⟩
      · obtain rfl := Option.some.inj h
        exact hp

theorem parse_parent (hf : V.Format C P) {path : CStr} {p : ParsedPath} (h : V.parse env path = some p) :
    p.parent < V.nent ∧ (V.ent p.parent).used = true ∧ Forest.Under V.par 0 p.parent :=
  parseLoop_parent V _ _ _ _ _ _ ⟨hf.geo.root, hf.root_used, Forest.Under.refl _ _⟩ h

/-- The entry that a path is resolved to is below the root. -/
theorem resolve_under (hf : V.Format C P) {path : CStr} {n : Nat} (h : V.resolve env path = some n) : Forest.Under V.par 0 n := by
  have hchild : ∀ {q : Nat} {name : CStr}, Forest.Under V.par 0 q → V.lookup q name = some n → Forest.Under V.par 0 n :=
    fun hu hl => Forest.Under.step ((lookup_spec hl).2.2 ▸ hu)
  rw [Vol.resolve] at h
  split_ifs at h with h1 h2
  · exact hchild (Forest.Under.refl _ _) h
  · cases hp : V.parse env path with
    | none =>
      rw [hp] at h
      cases h
    | some p =>
      rw [hp] at h
      exact hchild (hf.parse_parent hp).2.2 h
  · exact hchild (Forest.Under.refl _ _) h

/-- No head of a directory has a name that a search in it does not find. -/
theorem free_of_lookup (hf : V.Format C P) {p : Nat} {name : CStr} (h : V.lookup p name = none) : (V.tree C).Free p name := by
  intro m hm hpar hname
  have hmatch : (V.ent m).matches p name = true := by
    simp only [Block.matches, Bool.and_eq_true, beq_iff_eq]
    exact ⟨⟨hf.used_of_mem (hf.mem_head hm), hpar⟩, hname⟩
  exact Vol.lookup_eq_none.1 h m (hf.head_lt hm) hmatch

end Vol.Format

/-! ## Writing and creating -/

section Run

variable {K : Kept} {env : Env} {s : Sys} {d : Nat} {V : Vol} {C : Nat → List Nat}

/-- A directory with room for another item. -/
def Vol.Roomy (V : Vol) (q : Nat) : Prop := (V.ent q).isDir = true ∧ (V.ent q).size.toNat < 120

/-- A program on disk `d` leaves it with the format, and the tree of its heads as it is to be kept. -/
def Grows {α : Type} (K : Kept) (env : Env) (s : Sys) (d : Nat) (V : Vol) (C : Nat → List Nat) (x : FsM α) : Prop :=
  ∃ s' V' C', Ready env s' d ∧ s'.disk = s.disk ∧ (V'.Format C' fun _ => False) ∧ (K.Holds (V.tree C) → K.Holds (V'.tree C')) ∧
    ((∃ a, x.run (s.withVol d V) = .ok a (s'.withVol d V')) ∨ ∃ code, x.run (s.withVol d V) = .error code (s'.withVol d V'))

/-- A new head becomes an item of its directory. -/
theorem addNewHead (hr : Ready env s d) (hf : V.Format C fun _ => False) {f q : Nat} (hfree : V.freeEntry = some f)
    (hq : C q ≠ []) (hqdir : (V.ent q).flags = tDir) (hroom : (V.ent q).size.toNat < 120) {e : SfsEntry}
    (hflags : e.flags = tDir ∨ e.flags = tFile) (hparent : e.parent.toNat = q) (hsize : e.size.toNat = 0)
    (hnext : e.next.toNat = 0) (hrefs : ∀ i, e.refAt i = 0) (hname : K.distinct → (V.tree C).Free q e.nameStr) :
    ∃ V', V.Changes K True C [.create f q e.nameStr (if e.flags = tFile then some [] else none)] V' (Function.update C f [f]) ∧
      V'.ent f = e ∧ (addRefInEntry env d q f).run (s.withVol d (V.setEnt f e)) = .ok () (s.withVol d V') := by
  obtain ⟨hlt, hunused, -⟩ := Vol.freeEntry_eq_some.1 hfree
  obtain ⟨hf₁, hstep⟩ := hf.newHead hfree hq hqdir hflags hparent hsize hnext hrefs
  have hqf : q ≠ f := by
    rintro rfl
    exact hf.not_mem_of_unused hunused q (hf.mem_head hq)
  have hf0 : f ≠ 0 := by
    rintro rfl
    rw [hf.root_used] at hunused
    cases hunused
  have hent : (V.setEnt f e).ent q = V.ent q := Vol.ent_setEnt_ne _ _ hqf
  have hpar : (V.setEnt f e).par f = q := by rw [Vol.par, Vol.ent_setEnt_self, hparent]
  have hself : Function.update C f [f] f = [f] := Function.update_self _ _ _
  have hnew : Function.update C f [f] f ≠ [] := by
    rw [hself]
    exact List.cons_ne_nil _ _
  have hq₁ : Function.update C f [f] q ≠ [] := (hstep.2.2.1 q).2 (Or.inl hq)
  have hsingle := (hf₁.single q hq₁ (by rw [hent, hqdir])).1
  have hlink := hf₁.link hnew hf0 hpar (Or.inr rfl) (by rw [hent]; exact hroom)
  have hrun := addRefInEntry_run hr hf₁.geo (hsingle ▸ hf₁.chain q hq₁) (by rw [hent, hqdir]) (by rw [hent]; exact hroom) f
  rw [hent] at hlink hrun
  obtain ⟨V', hV'⟩ : ∃ V' : Vol, V' = (V.setEnt f e).setEnt q ((V.ent q).addItem f) := ⟨_, rfl⟩
  rw [← hV'] at hlink hrun
  have hentf : V'.ent f = e := by rw [hV', Vol.ent_setEnt_ne _ _ (Ne.symm hqf), Vol.ent_setEnt_self]
  have htree : V'.tree (Function.update C f [f]) = (V.setEnt f e).tree (Function.update C f [f]) := by
    rw [hV', ← hent]
    exact Vol.tree_addItem _ _ _ _
  have hheads : ∀ h, C h ≠ [] → h ≠ f := by
    rintro h hh rfl
    exact hf.not_mem_of_unused hunused h (hf.mem_head hh)
  have hkeeps : V.KeepsFiles C (fun _ => False) V' (Function.update C f [f]) := by
    have hagree : V.AgreeOff [f, q] V' := by
      rw [hV']
      exact ((V.agreeOff_setEnt f e).mono (by simp)).trans ((Vol.agreeOff_setEnt _ q _).mono (by simp))
    refine .of_agreeOff hf hagree (fun x hx => ?_) (fun h hh _ => Function.update_of_ne (hheads h hh) _ _)
      (fun h hh m hm hin => ?_) fun h hh hh' => ?_
    · rcases List.mem_pair.1 hx with rfl | rfl
      · exact hlt
      · exact hf.head_lt hq
    · -- the directory that the item is added to is no file
      rcases List.mem_pair.1 hin with rfl | rfl
      · exact absurd hm (hf.not_mem_of_unused hunused h)
      · obtain rfl := hf.head_unique hq hm
        rw [hV', Vol.ent_setEnt_self]
        exact ⟨rfl, fun hfile => absurd (hqdir.symm.trans hfile) (by decide)⟩
    · by_cases hhf : h = f
      · rw [hhf, hentf]
        refine ⟨hsize, fun i => ?_⟩
        rw [hself, Vol.fref_cons, hentf]
        split_ifs
        · exact hrefs i
        · exact Vol.fref_of_le _ (by rw [List.length_nil]; omega)
      · rw [Function.update_of_ne hhf] at hh'
        exact absurd hh hh'
  refine ⟨V', .of_keeps ?_ (fun h => ?_) hkeeps ?_ ?_, hentf, hrun⟩
  · exact hlink.congrPending fun m _ => ⟨False.elim, fun h => h.2 (h.1.resolve_left not_false)⟩
  · -- the directory keeps its parent and its name
    rw [htree]
    exact h.create hf.closed hstep hname
  · rw [htree]
    exact hstep
  · rw [FileTree.Change.Contents, Vol.headData, hentf, hsize]
    rfl

/-- What creating a file needs: there is room for it where it is made, and its name is not there when names are to be distinct. -/
def CreatesFile (K : Kept) (env : Env) (V : Vol) (path : CStr) : Prop :=
  ∀ p f, V.parse env path = some p → V.freeEntry = some f →
    V.Roomy p.parent ∧ (K.distinct → V.lookup p.parent (stringToName (path.drop p.name)) = none)

/-- The creation of a file. -/
theorem createFile_changes (hr : Ready env s d) (hf : V.Format C fun _ => False) {path : CStr} (hd : pathGetDisk env path = d)
    (hcreate : CreatesFile K env V path) :
    (∃ p f V' C', V.parse env path = some p ∧ V.freeEntry = some f ∧
      V.Changes K True C [.create f p.parent (stringToName (path.drop p.name)) (some [])] V' C' ∧ C' f ≠ [] ∧
        (V'.ent f).flags = tFile ∧ (V'.ent f).size.toNat = 0 ∧
          (createFile env path).run (s.withVol d V) = .ok (d, f, V'.ent f, renamedPath path p.name) (s.withVol d V')) ∨
      ∃ code, (createFile env path).run (s.withVol d V) = .error code (s.withVol d V) := by
  have hnent := hf.geo.nent_lt
  have hparse := pathParse_run hr hf.geo hd
  cases hp : V.parse env path with
  | none =>
    rw [hp] at hparse
    exact Or.inr ⟨_, bind_error hparse⟩
  | some p =>
    rw [hp] at hparse
    obtain ⟨hplt, hpu, -⟩ := hf.parse_parent hp
    have hpd : p.disk = d := Vol.parse_disk hr hf.geo hd hp
    have hfind := findFreeEntry_run hr hf.geo
    rw [createFile, bind_ok hparse, hpd]
    cases hfree : V.freeEntry with
    | none =>
      rw [hfree] at hfind
      exact Or.inr ⟨_, bind_error hfind⟩
    | some f =>
      rw [hfree] at hfind
      obtain ⟨⟨hisDir, hroom⟩, hname⟩ := hcreate p f hp hfree
      obtain ⟨hq, hqdir⟩ := hf.dir_of_isDir hplt hpu hisDir
      obtain ⟨hlt, -, -⟩ := Vol.freeEntry_eq_some.1 hfree
      obtain ⟨hlen, -⟩ := stringToName_spec (path.drop p.name)
      obtain ⟨e, he⟩ : ∃ e, e = newEntry tFile p.parent (stringToName (path.drop p.name)) := ⟨_, rfl⟩
      obtain ⟨h1, h2, h3, h4, h5, h6⟩ := newEntry_fields tFile (show p.parent < 4294967296 by omega) hlen
        (stringToName_not_mem _).2
      rw [← he] at h1 h2 h3 h4 h5 h6
      obtain ⟨V', hchanges, hent, hrun⟩ := addNewHead hr hf hfree hq hqdir hroom (Or.inr h1) h2 h4 h5 h6 fun hd => by
        rw [h3]
        exact hf.free_of_lookup (hname hd)
      rw [h3, if_pos h1] at hchanges
      refine Or.inl ⟨p, f, V', _, rfl, rfl, hchanges, ?_, by rw [hent, h1], by rw [hent, h4], ?_⟩
      · rw [Function.update_self]
        exact List.cons_ne_nil _ _
      · rw [bind_ok hfind, ← he, bind_ok (writeEntry_run hr V (by omega) _), h2, bind_ok hrun, run_pure, hent]

/-- Going on after a part that has run. -/
theorem Grows.after {α β : Type} {s₁ : Sys} {V' : Vol} {C' : Nat → List Nat} {x : FsM α} {f : α → FsM β} {a : α}
    (hx : x.run (s.withVol d V) = .ok a (s₁.withVol d V')) (hdisk : s₁.disk = s.disk)
    (hkeep : K.Holds (V.tree C) → K.Holds (V'.tree C')) (hf : Grows K env s₁ d V' C' (f a)) : Grows K env s d V C (x >>= f) := by
  obtain ⟨s', V'', C'', hr', hdisk', hformat, hkeep', hrun⟩ := hf
  refine ⟨s', V'', C'', hr', hdisk'.trans hdisk, hformat, fun h => hkeep' (hkeep h), ?_⟩
  rw [bind_ok hx]
  exact hrun

/-- What `fs_write_file` needs: the path resolves to a head, or a file can be created. -/
def WritesFile (K : Kept) (env : Env) (V : Vol) (path : CStr) (flags : Nat) : Prop :=
  (∀ n, V.resolve env path = some n → V.IsHead n) ∧
    (V.resolve env path = none → flags &&& wfCreate ≠ 0 → CreatesFile K env V path)

/-- The size of the file that a path is resolved to, or that is created for it. -/
def Vol.sizeAt (V : Vol) (env : Env) (path : CStr) : Nat := ((V.resolve env path).map fun n => (V.ent n).size.toNat).getD 0

/-- The path that is left in the caller's buffer. -/
def Vol.openedPath (V : Vol) (env : Env) (path : CStr) : CStr :=
  match V.resolve env path with
  | some _ => path
  | none =>
    match V.parse env path with
    | some p => renamedPath path p.name
    | none => path

/-- The entry of the file that is written to, and the changes that make it. -/
inductive Vol.Opens (V : Vol) (env : Env) (path : CStr) (flags : Nat) : Nat → List (FileTree.Change Nat CStr UInt8) → Prop where
  | found {n : Nat} (hres : V.resolve env path = some n) : V.Opens env path flags n []
  | created {n : Nat} {p : ParsedPath} (hres : V.resolve env path = none) (hflags : flags &&& wfCreate ≠ 0)
      (hparse : V.parse env path = some p) (hfree : V.freeEntry = some n) :
      V.Opens env path flags n [.create n p.parent (stringToName (path.drop p.name)) (some [])]

/-- Finding a file, or creating it. -/
theorem openFile_changes (hr : Ready env s d) (hf : V.Format C fun _ => False) {path : CStr} (hd : pathGetDisk env path = d)
    {flags : Nat} (hw : WritesFile K env V path flags) :
    (∃ n cs V' C', V.Opens env path flags n cs ∧ V.Changes K True C cs V' C' ∧ C' n ≠ [] ∧ (V'.ent n).flags = tFile ∧
      (V'.ent n).size.toNat = V.sizeAt env path ∧
        (openFile env path flags).run (s.withVol d V) = .ok (d, n, V'.ent n, V.openedPath env path) (s.withVol d V')) ∨
      ∃ code, (openFile env path flags).run (s.withVol d V) = .error code (s.withVol d V) := by
  have hget := fsGetEntry_run hr hf.geo hd
  unfold openFile
  cases hres : V.resolve env path with
  | some n =>
    rw [hres] at hget
    have hn : C n ≠ [] := hf.isHead_iff.1 (hw.1 n hres)
    rw [bind_ok (attempt_ok hget)]
    dsimp only
    by_cases hisDir : (V.ent n).isDir = true
    · exact Or.inr ⟨errorNotFound, by rw [run_failIf_bind, if_pos hisDir]⟩
    · have hfile : (V.ent n).flags = tFile :=
        (hf.kind n hn).resolve_left fun h => hisDir (Block.isDir_of_flags h).1
      refine Or.inl ⟨n, [], V, C, .found hres, .refl hf, hn, hfile, by rw [Vol.sizeAt, hres]; rfl, ?_⟩
      rw [run_failIf_bind, if_neg hisDir, hd, run_pure, Vol.openedPath, hres]
  | none =>
    rw [hres] at hget
    rw [bind_ok (attempt_error hget)]
    dsimp only
    rw [run_failIf_bind]
    by_cases hcreate : flags &&& wfCreate = 0
    · exact Or.inr ⟨errorNotFound, by rw [if_pos (Or.inr hcreate)]⟩
    · rw [if_neg (not_or.2 ⟨not_not.2 rfl, hcreate⟩)]
      rcases createFile_changes hr hf hd (hw.2 hres hcreate) with ⟨p, f, V', C', hp, hfree, hchanges, hn, hfile, hsize, hrun⟩ | herror
      · refine Or.inl ⟨f, _, V', C', .created hres hcreate hp hfree, hchanges, hn, hfile, by rw [Vol.sizeAt, hres, hsize]; rfl, ?_⟩
        rw [Vol.openedPath, hres, hp]
        exact hrun
      · exact Or.inr herror

/-- What `fs_write_file` makes of the tree of files, when it returns and when it fails: the file is created if it is not there, and
the data is written if the call returns and is safe. -/
inductive WriteMakes (env : Env) (V : Vol) (path : CStr) (offset : Nat) (buff : List UInt8) (flags : Nat) :
    Bool → List (FileTree.Change Nat CStr UInt8) → Prop where
  | written {n : Nat} {cs : List (FileTree.Change Nat CStr UInt8)} (hopens : V.Opens env path flags n cs) :
      WriteMakes env V path offset buff flags true (cs ++ [.write n offset buff (decide (flags &&& wfTruncate ≠ 0))])
  | spoilt {n : Nat} {cs : List (FileTree.Change Nat CStr UInt8)} {ok : Bool} (hopens : V.Opens env path flags n cs)
      (hnotSafe : ok = true → ¬SafeWrite (V.sizeAt env path) offset buff.length flags) :
      WriteMakes env V path offset buff flags ok (cs ++ [.spoil n])
  | failed : WriteMakes env V path offset buff flags false []

/-- `fs_write_file`, whichever way it ends. -/
theorem fsWriteFile_changes (hr : Ready env s d) (hf : V.Format C fun _ => False) {path : CStr} (hd : pathGetDisk env path = d)
    {flags : Nat} (hw : WritesFile K env V path flags) {offset : Nat} (hoffset : offset < 4294967296) (buff : List UInt8) :
    ∃ s' V' C' cs, Ready env s' d ∧ s'.disk = s.disk ∧
      V.Changes K (SafeWrite (V.sizeAt env path) offset buff.length flags) C cs V' C' ∧
        ((WriteMakes env V path offset buff flags true cs ∧ (fsWriteFile env buff path offset flags).run (s.withVol d V) =
          .ok (buff.length, V.openedPath env path) (s'.withVol d V')) ∨
        (WriteMakes env V path offset buff flags false cs ∧ ∃ code,
          (fsWriteFile env buff path offset flags).run (s.withVol d V) = .error code (s'.withVol d V'))) := by
  unfold fsWriteFile
  rcases openFile_changes hr hf hd hw with ⟨n, cs, V₁, C₁, hopens, hchanges₁, hn, hfile, hsize, hopen⟩ | ⟨code, herror⟩
  · obtain ⟨s', V', C', c, hr', hdisk, hchanges, hend⟩ := writeFileAt_changes (K := K) hr hchanges₁.format hn hfile hoffset buff flags
    rw [hsize] at hchanges hend
    refine ⟨s', V', C', cs ++ [c], hr', hdisk, hchanges₁.trans hchanges, ?_⟩
    rcases hend with ⟨hc, hrun⟩ | ⟨code, rfl, hrun⟩
    · refine Or.inl ⟨?_, by rw [bind_ok hopen]; dsimp only; rw [bind_ok hrun, run_pure]⟩
      rcases hc with rfl | ⟨rfl, hnotSafe⟩
      · exact .written hopens
      · exact .spoilt hopens fun _ => hnotSafe
    · refine Or.inr ⟨.spoilt hopens fun h => absurd h Bool.false_ne_true, code, ?_⟩
      rw [bind_ok hopen]
      exact bind_error hrun
  · exact ⟨s, V, C, [], hr, rfl, .refl hf, Or.inr ⟨.failed, code, bind_error herror⟩⟩

/-- What `fs_create_directory` needs: there is room for the directory where it is made. -/
def CreatesDirectory (env : Env) (V : Vol) (path : CStr) : Prop :=
  ∀ p f, V.parse env path = some p → V.lookup p.parent (stringToName (path.drop p.name)) = none → V.freeEntry = some f →
    V.Roomy p.parent

/-- `fs_create_directory`, whichever way it ends. -/
theorem fsCreateDirectory_changes (hr : Ready env s d) (hf : V.Format C fun _ => False) {path : CStr}
    (hd : pathGetDisk env path = d) (hcreate : CreatesDirectory env V path) :
    (∃ p f s' V' C', V.parse env path = some p ∧ Ready env s' d ∧ s'.disk = s.disk ∧
      V.Changes K True C [.create f p.parent (stringToName (path.drop p.name)) none] V' C' ∧
        (fsCreateDirectory env path).run (s.withVol d V) = .ok (f, renamedPath path p.name) (s'.withVol d V')) ∨
      ∃ code, (fsCreateDirectory env path).run (s.withVol d V) = .error code (s.withVol d V) := by
  have hnent := hf.geo.nent_lt
  have hparse := pathParse_run hr hf.geo hd
  unfold fsCreateDirectory
  cases hp : V.parse env path with
  | none =>
    rw [hp] at hparse
    exact Or.inr ⟨_, bind_error hparse⟩
  | some p =>
    rw [hp] at hparse
    obtain ⟨hplt, hpu, -⟩ := hf.parse_parent hp
    have hpd : p.disk = d := Vol.parse_disk hr hf.geo hd hp
    have hroom := hcreate p
    obtain ⟨name, hname⟩ : ∃ name, name = stringToName (path.drop p.name) := ⟨_, rfl⟩
    obtain ⟨hlen, -⟩ := stringToName_spec (path.drop p.name)
    obtain ⟨hsep, hzero⟩ := stringToName_not_mem (path.drop p.name)
    have hcheck := checkNotExists_run hr hf.geo (show p.parent < 8388608 by omega) hsep
    rw [bind_ok hparse]
    dsimp only
    rw [hpd]
    rw [← hname] at hlen hsep hzero hcheck hroom ⊢
    cases hlook : V.lookup p.parent name with
    | some m =>
      rw [hlook] at hcheck
      exact Or.inr ⟨_, bind_error hcheck⟩
    | none =>
      rw [hlook] at hcheck
      rw [bind_ok hcheck]
      have hfind := findFreeEntry_run hr hf.geo
      cases hfree : V.freeEntry with
      | none =>
        rw [hfree] at hfind
        exact Or.inr ⟨_, bind_error hfind⟩
      | some f =>
        rw [hfree] at hfind
        obtain ⟨hisDir, hsize⟩ := hroom f hp hlook hfree
        obtain ⟨hq, hqdir⟩ := hf.dir_of_isDir hplt hpu hisDir
        obtain ⟨hlt, hunused, -⟩ := Vol.freeEntry_eq_some.1 hfree
        obtain ⟨e, he⟩ : ∃ e, e = newEntry tDir p.parent name := ⟨_, rfl⟩
        obtain ⟨h1, h2, h3, h4, h5, h6⟩ := newEntry_fields tDir (show p.parent < 4294967296 by omega) hlen hzero
        rw [← he] at h1 h2 h3 h4 h5 h6
        have hchain : (V.setEnt f e).IsChain [f] := by
          refine ⟨?_, List.nodup_singleton f, fun n hn => ?_⟩
          · rw [Linked, Vol.next, Vol.ent_setEnt_self, h5]
          · rw [List.mem_singleton.1 hn, Vol.nent_setEnt]
            exact hlt
        obtain ⟨s', hr', hdisk, htime⟩ := setEntryTime_chain (V := V.setEnt f e) hr (hf.geo.setEnt f e) hchain
        have hstamped : ((V.setEnt f e).updEnts [f] fun _ e => e.setTime (s.clock 0)) = V.setEnt f (e.setTime (s.clock 0)) := by
          rw [← Vol.updEnts_cons _ List.not_mem_nil, Vol.updEnts_nil, Vol.ent_setEnt_self, Vol.setEnt_setEnt]
        rw [hstamped] at htime
        obtain ⟨V', hchanges, hent, hrun⟩ := addNewHead (K := K) (e := e.setTime (s.clock 0)) hr' hf hfree hq hqdir hsize
          (Or.inl h1) h2 h4 h5 h6 fun _ => h3 ▸ hf.free_of_lookup hlook
        have hkind : (e.setTime (s.clock 0)).flags ≠ tFile := fun h => absurd (h1.symm.trans h) (by decide)
        rw [if_neg hkind, show (e.setTime (s.clock 0)).nameStr = name from h3] at hchanges
        have hfq : f ≠ p.parent := by
          rintro rfl
          rw [hunused] at hpu
          cases hpu
        refine Or.inl ⟨p, f, s', V', _, rfl, hr', hdisk, hname ▸ hchanges, ?_⟩
        rw [bind_ok hfind, ← he, bind_ok (writeEntry_run hr V (by omega) _), bind_ok htime, h2, if_pos hfq, bind_ok hrun, run_pure]

/-! ## Deleting and moving -/

/-- `delete_n` on a head below the root. -/
theorem deleteN_changes (hr : Ready env s d) (hf : V.Format C fun _ => False) {n : Nat} (hn : C n ≠ []) (hn0 : n ≠ 0)
    (ht : Forest.Under V.par 0 n) :
    ∃ V' C', V.Changes K True C [.remove n] V' C' ∧ (deleteN env env.fuel d n).run (s.withVol d V) = .ok () (s.withVol d V') := by
  obtain ⟨j, hitem⟩ := hf.hasItem hn hn0 not_false
  have hnent := hf.geo.nent_lt
  have hsize : V.subtreeSize C n ≤ env.fuel := by
    have hle := Vol.Format.subtreeSize_le V C n
    have hfuel := hr.fuel
    omega
  obtain ⟨V', hrun, hp⟩ := deleteN_head hr hf env.fuel n j V hn ht hn0 hsize rfl (fun _ _ => rfl) hitem
  have hunlink := hf.unlink hn rfl hitem.lt hitem.ref
  obtain ⟨W, hW⟩ : ∃ W, W = V.setEnt (V.par n) ((V.ent (V.par n)).removeItem j) := ⟨_, rfl⟩
  rw [← hW] at hunlink
  have htree : W.tree C = V.tree C := hW ▸ V.tree_removeItem C _ j
  have hpar : W.par = V.par := congrArg NameTree.parent htree
  have hsub : ∀ m, W.Subtree C n m ↔ V.Subtree C n m := fun m => by rw [Vol.Subtree, hpar, Vol.Subtree]
  have hsuper : V' 1 = W 1 := by
    rw [hp.rest 1 (by omega) fun m _ => by omega, hW, Vol.setEnt, Function.update_of_ne (by omega)]
  obtain ⟨hpruned, hstep⟩ := hunlink.prune V' hn0 (Or.inr rfl) hsuper (fun m hm => hp.zero m ((hsub m).1 hm)) fun m _ hm => by
    rw [hsub] at hm
    by_cases hmq : m = V.par n
    · rw [hmq, hp.parent, hW, Vol.ent_setEnt_self]
    · rw [hW, Vol.ent_setEnt_ne _ _ hmq]
      refine hp.rest _ (by omega) fun m' hm' heq => ?_
      obtain rfl : m = m' := by omega
      exact hm hm'
  have hstep' : (V.tree C).Step (.remove n) (V'.tree (W.chainsWithout C n)) := htree ▸ hstep
  have hleft : ∀ h, W.chainsWithout C n h ≠ [] → C h ≠ [] ∧ ¬Forest.Under V.par n h := fun h hh => (hstep'.1 h).1 hh
  have hchains : ∀ h, W.chainsWithout C n h ≠ [] → W.chainsWithout C n h = C h := fun h hh => by
    rw [Vol.chainsWithout, hpar, if_neg (hleft h hh).2]
  have hout : ∀ h, W.chainsWithout C n h ≠ [] → ∀ m ∈ C h, ¬V.Subtree C n m := by
    rintro h hh m hm ⟨g, -, hu, hg⟩
    obtain rfl := hf.disjoint g h m hg hm
    exact (hleft g hh).2 hu
  have hkeeps : V.KeepsFiles C (fun _ => False) V' (W.chainsWithout C n) := by
    obtain ⟨hp', hpdir⟩ := hf.parent n hn
    have hW1 : W 1 = V 1 := by rw [hW, Vol.setEnt, Function.update_of_ne (by omega)]
    -- the parent loses an item, and the other entries that are left are not touched
    have hent : ∀ h, W.chainsWithout C n h ≠ [] → ∀ m ∈ C h, m ≠ V.par n → V'.ent m = V.ent m := by
      intro h hh m hm hmp
      refine (hp.rest _ (by omega) fun x hx heq => ?_).trans rfl
      obtain rfl : m = x := by omega
      exact hout h hh m hm hx
    refine .of_entries hf (hsuper.trans hW1) (fun k hk => ?_) (fun h _ hh => hchains h hh) (fun h hh hh' => ⟨?_, fun hfile m hm => ?_⟩)
      fun h hh hh' => absurd hh (hleft h hh').1
    · refine hp.rest k (hk.ne_ent (hf.head_lt hp')) ?_
      rintro m ⟨g, -, -, hg⟩
      exact hk.ne_ent (hf.lt hg)
    · by_cases hhp : h = V.par n
      · rw [hhp, hp.parent]
        rfl
      · rw [hent h hh' h (hf.mem_head hh) hhp]
    · have hmp : m ≠ V.par n := by
        rintro rfl
        obtain rfl := hf.head_unique hp' hm
        exact absurd (hpdir.symm.trans hfile) (by decide)
      rw [hent h hh' m hm hmp]
      exact ⟨rfl, rfl⟩
  refine ⟨V', _, .of_keeps (hpruned.congrPending fun m _ => ?_) (fun h => ?_) hkeeps hstep' trivial, hrun⟩
  · exact ⟨False.elim, fun h => h.2 (h.1.resolve_left not_false)⟩
  · rw [← htree] at h
    exact h.remove hunlink.closed hstep

/-- A head becomes an item of another directory, under another name. -/
theorem moveEntry_changes (hr : Ready env s d) (hf : V.Format C fun _ => False) {n q : Nat} (hn : C n ≠ []) (hn0 : n ≠ 0)
    (ht : Forest.Under V.par 0 n) (hq : C q ≠ []) (hqdir : (V.ent q).flags = tDir)
    (hroom : (V.ent q).size.toNat < 120 ∨ V.par n = q) {name : CStr} (hlen : name.length < 15) (hzero : 0 ∉ name)
    (hout : K.rooted → ¬Forest.Under V.par n q) (hfree : K.distinct → (V.tree C).Free q name) :
    ∃ V', V.Changes K True C [.move n q name] V' C ∧
      (removeRefInEntry env d (V.ent n).parent.toNat n >>= fun _ =>
        writeEntry env d n (((V.ent n).setName name).setParent q) >>= fun _ =>
          addRefInEntry env d (((V.ent n).setName name).setParent q).parent.toNat n).run (s.withVol d V) =
        .ok () (s.withVol d V') := by
  have hnent := hf.geo.nent_lt
  have hnlt := hf.head_lt hn
  have hqlt := hf.head_lt hq
  obtain ⟨j, hitem⟩ := hf.hasItem hn hn0 not_false
  obtain ⟨hp, hpdir⟩ := hf.parent n hn
  have hpn : V.par n ≠ n := fun h => hn0 (Forest.root_of_cycle hf.root.2.2.1 ht Nat.one_pos h)
  -- the source stops being an item
  obtain ⟨V₁, hV₁⟩ : ∃ V₁, V₁ = V.setEnt (V.par n) ((V.ent (V.par n)).removeItem j) := ⟨_, rfl⟩
  have hchain := hf.chain _ hp
  rw [(hf.single _ hp hpdir).1] at hchain
  have hremove := removeRefInEntry_run hr hf.geo hchain hitem.flags hitem.small hitem.lt hitem.ref hitem.first
  have hf₁ := hf.unlink hn rfl hitem.lt hitem.ref
  rw [← hV₁] at hremove hf₁
  have hent₁ : ∀ m, m ≠ V.par n → V₁.ent m = V.ent m := fun m hm => by rw [hV₁, Vol.ent_setEnt_ne _ _ hm]
  have hself₁ : V₁.ent (V.par n) = (V.ent (V.par n)).removeItem j := by rw [hV₁, Vol.ent_setEnt_self]
  have hflags₁ : (V₁.ent q).flags = tDir := by
    by_cases hqp : q = V.par n
    · rw [hqp, hself₁]
      exact hpdir
    · rw [hent₁ q hqp, hqdir]
  -- it gets the new name and parent
  obtain ⟨e, he⟩ : ∃ e, e = ((V.ent n).setName name).setParent q := ⟨_, rfl⟩
  obtain ⟨V₂, hV₂⟩ : ∃ V₂, V₂ = V₁.setEnt n e := ⟨_, rfl⟩
  have hf₂ := hf₁.reparent hn hn0 (Or.inr rfl) hq hflags₁ name
  rw [hent₁ n (Ne.symm hpn), ← he, ← hV₂] at hf₂
  have hparent : e.parent.toNat = q := by rw [he, Block.toNat_setParent _ (by omega)]
  have hpar₂ : V₂.par n = q := by rw [Vol.par, hV₂, Vol.ent_setEnt_self, hparent]
  have hflags₂ : (V₂.ent q).flags = tDir := by
    by_cases hqn : q = n
    · rw [hqn, hV₂, Vol.ent_setEnt_self, he]
      rw [hqn] at hqdir
      exact hqdir
    · rw [hV₂, Vol.ent_setEnt_ne _ _ hqn, hflags₁]
  have hroom₂ : (V₂.ent q).size.toNat < 120 := by
    by_cases hqn : q = n
    · rw [hqn, hV₂, Vol.ent_setEnt_self, he]
      rcases hroom with h | h
      · rw [hqn] at h
        exact h
      · exact absurd (h.trans hqn) hpn
    · rw [hV₂, Vol.ent_setEnt_ne _ _ hqn]
      by_cases hqp : q = V.par n
      · have hsmall := hitem.small
        have hlt := hitem.lt
        rw [hqp, hself₁, Block.size_removeItem _ _ hsmall]
        omega
      · rw [hent₁ q hqp]
        exact hroom.resolve_right fun h => hqp h.symm
  -- and becomes an item again
  have hlink := hf₂.link hn hn0 hpar₂ (Or.inr rfl) hroom₂
  have hchain₂ := hf₂.chain q hq
  rw [(hf₂.single q hq hflags₂).1] at hchain₂
  have hadd := addRefInEntry_run hr hf₂.geo hchain₂ hflags₂ hroom₂ n
  have htree : V₁.tree C = V.tree C := hV₁ ▸ V.tree_removeItem C _ j
  have hstep : (V.tree C).Step (.move n q name) ((V₂.setEnt q ((V₂.ent q).addItem n)).tree C) := by
    rw [Vol.tree_addItem, ← htree]
    refine ⟨hq, fun m => Iff.rfl, fun m _ hmn => ?_, hpar₂, ?_⟩
    · exact Vol.sameAt_of_ent (by rw [hV₂, Vol.ent_setEnt_ne _ _ hmn])
    · rw [Vol.tree_name, hV₂, Vol.ent_setEnt_self, he]
      exact Block.nameStr_setName (V.ent n) hlen hzero
  have hkeeps : V.KeepsFiles C (fun _ => False) (V₂.setEnt q ((V₂.ent q).addItem n)) C := by
    have hdir : ∀ {e : SfsEntry}, e.flags = tDir → e.flags ≠ tFile := fun h h' => absurd (h.symm.trans h') (by decide)
    have hk₁ : V.KeepsFiles C (fun _ => False) V₁ C := hV₁ ▸ .setEnt hf hp rfl fun h => absurd h (hdir hpdir)
    have hk₂ : V₁.KeepsFiles C (fun _ => False) V₂ C := by
      rw [hV₂, he, ← hent₁ n (Ne.symm hpn)]
      exact .setEnt hf₁ hn rfl fun _ => ⟨rfl, rfl⟩
    have hk₃ : V₂.KeepsFiles C (fun _ => False) (V₂.setEnt q ((V₂.ent q).addItem n)) C :=
      .setEnt hf₂ hq rfl fun h => absurd h (hdir hflags₂)
    exact (hk₁.trans hk₂ fun _ h => h).trans hk₃ fun _ h => h
  refine ⟨_, .of_keeps (hlink.congrPending fun m _ => ?_) (fun h => ?_) hkeeps hstep trivial, ?_⟩
  · exact ⟨False.elim, fun h => h.2 (h.1.resolve_left not_false)⟩
  · exact h.move hf.closed hstep hout hfree
  · have hparent₀ : (V.ent n).parent.toNat = V.par n := rfl
    rw [hparent₀, bind_ok hremove, ← he, bind_ok (writeEntry_run hr V₁ (by omega) _), ← hV₂, hparent, hadd]

end Run

end NanoS32
