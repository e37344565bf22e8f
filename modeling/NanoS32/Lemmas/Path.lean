import Mathlib.Data.List.TakeWhile
import NanoS32.Lemmas.Bytes
import NanoS32.Fs.Dir

/-!
# Resolving a path

On a disk whose transfers succeed, taking a path apart and looking it up are functions of the contents of the disk that the path
names: `Vol.parse` and `Vol.resolve`.
-/

namespace NanoS32

/-- The loop of `path_parse_disk_parent_name`, on the contents of the disk of the path. -/
def Vol.parseLoop (V : Vol) : Nat → Nat → Nat → CStr → ParsedPath → Option ParsedPath
  | 0, _, _, _, p => some p
  | fuel + 1, n, pos, rest, p =>
    if rest = [] then some p
    else
      let (skipped, tok, nexttok) := strtok rest pathSeparator
      let p := { p with name := pos + skipped }
      let pos' := pos + skipped + tok.length + 1
      if tok ≠ [] ∧ n = 0 ∧ stringIsDisk tok then
        V.parseLoop fuel (n + 1) pos' nexttok { p with disk := stringToDisk tok }
      else if tok ≠ [] ∧ nexttok ≠ [] then
        match V.lookup p.parent tok with
        | some parent => V.parseLoop fuel (n + 1) pos' nexttok { p with parent := parent }
        | none => none
      else some p

/-- `path_parse_disk_parent_name`, on the contents of the disk of the path. -/
def Vol.parse (V : Vol) (env : Env) (path : CStr) : Option ParsedPath :=
  V.parseLoop (tokPath path).length 0 0 (tokPath path) { disk := env.systemDisk, parent := 0, name := 0 }

/-- The entry a path names, on the contents of the disk of the path. -/
def Vol.resolve (V : Vol) (env : Env) (path : CStr) : Option Nat :=
  if stringIsDisk path then V.lookup 0 rootDirName
  else if pathSeparator ∈ path then
    match V.parse env path with
    | some p => V.lookup p.parent (path.drop p.name)
    | none => none
  else V.lookup 0 path

theorem Vol.lookup_of_resolve {V : Vol} {env : Env} {path : CStr} {n : Nat} (h : V.resolve env path = some n) :
    ∃ p name, V.lookup p name = some n := by
  unfold Vol.resolve at h
  split_ifs at h with h1 h2
  · exact ⟨_, _, h⟩
  · cases hp : V.parse env path with
    | none =>
      rw [hp] at h
      cases h
    | some p =>
      rw [hp] at h
      exact ⟨_, _, h⟩
  · exact ⟨_, _, h⟩

/-! ## The disk of a path -/

theorem stringIsDisk_iff {str : CStr} : stringIsDisk str = true ↔ ∃ i < maxDisk, str = diskToString i := by
  simp [stringIsDisk]

theorem stringIsDisk_length {str : CStr} (h : stringIsDisk str = true) : str.length = 3 ∧ pathSeparator ∉ str := by
  obtain ⟨i, hi, rfl⟩ := stringIsDisk_iff.1 h
  match i, hi with
  | 0, _ => decide
  | 1, _ => decide
  | 2, _ => decide
  | 3, _ => decide

theorem stringToDisk_lt {str : CStr} (h : stringIsDisk str = true) : stringToDisk str < maxDisk := by
  obtain ⟨i, hi, rfl⟩ := stringIsDisk_iff.1 h
  match i, hi with
  | 0, _ => decide
  | 1, _ => decide
  | 2, _ => decide
  | 3, _ => decide

/-- The token of a string with no separator is the string. -/
theorem strtok_of_not_mem {str : CStr} (h : pathSeparator ∉ str) : (strtok str pathSeparator).2.1 = str := by
  have h1 : str.takeWhile (· == pathSeparator) = [] := by
    cases str with
    | nil => rfl
    | cons c str =>
      have : c ≠ pathSeparator := fun hc => h (by simp [hc])
      simp [this]
  have h2 : str.takeWhile (· != pathSeparator) = str := by
    refine List.takeWhile_eq_self_iff.2 fun c hc => ?_
    have : c ≠ pathSeparator := fun hcs => h (hcs ▸ hc)
    simpa using this
  simp only [strtok, h1, List.length_nil, List.drop_zero, h2]

theorem pathGetDisk_of_isDisk (env : Env) {path : CStr} (h : stringIsDisk path = true) :
    pathGetDisk env path = stringToDisk path := by
  obtain ⟨hlen, hsep⟩ := stringIsDisk_length h
  have htok : tokPath path = path := List.take_of_length_le (by omega)
  have hne : path ≠ [] := by
    rintro rfl
    simp at hlen
  have h1 := strtok_of_not_mem hsep
  simp only [pathGetDisk, htok]
  rcases hs : strtok path pathSeparator with ⟨k, tok, rest⟩
  rw [hs] at h1
  simp only at h1
  subst h1
  simp [hne, h]

theorem pathGetDisk_of_not_mem (env : Env) {path : CStr} (h : stringIsDisk path = false) (hsep : pathSeparator ∉ path) :
    pathGetDisk env path = env.systemDisk := by
  have hsep' : pathSeparator ∉ tokPath path := fun hm => hsep (List.mem_of_mem_take hm)
  have hdisk : stringIsDisk (tokPath path) = false := by
    by_contra hd
    have hd' : stringIsDisk (tokPath path) = true := by simpa using hd
    have hlen := (stringIsDisk_length hd').1
    have htok : tokPath path = path := by
      refine List.take_of_length_le ?_
      simp only [tokPath, strncpy, List.length_take] at hlen
      omega
    rw [htok, h] at hd'
    cases hd'
  have h1 := strtok_of_not_mem hsep'
  simp only [pathGetDisk]
  rcases hs : strtok (tokPath path) pathSeparator with ⟨k, tok, rest⟩
  rw [hs] at h1
  simp only at h1
  subst h1
  simp [hdisk]

section Parse

variable (env : Env)

/-- After the first token, the disk does not change. -/
theorem pathParseLoop_disk : ∀ (fuel n pos : Nat) (rest : CStr) (p q : ParsedPath) (s s' : Sys), 0 < n →
    (pathParseLoop env fuel n pos rest p).run s = .ok q s' → q.disk = p.disk := by
  intro fuel
  induction fuel with
  | zero =>
    intro n pos rest p q s s' _ h
    cases h
    rfl
  | succ fuel ih =>
    intro n pos rest p q s s' hn h
    have hn0 : ¬ n = 0 := by omega
    rw [pathParseLoop] at h
    split_ifs at h with h1
    · cases h
      rfl
    · rcases hs : strtok rest pathSeparator with ⟨k, tok, nexttok⟩
      rw [hs] at h
      simp only [hn0, false_and, and_false, if_false] at h
      split_ifs at h with h2
      · rw [Prog.run_bind] at h
        cases hr : (findEntry env p.disk p.parent tok).run s with
        | ok a s₁ =>
          rw [hr] at h
          exact ih (n + 1) _ _ { p with parent := a.1, name := pos + k } q _ _ (by omega) h
        | error c s₁ =>
          rw [hr] at h
          cases h
        | stuck _ =>
          rw [hr] at h
          cases h
      · cases h
        rfl

/-- `path_parse_disk_parent_name` and `path_get_disk` find the same disk. -/
theorem pathParse_disk {path : CStr} {p : ParsedPath} {s s' : Sys}
    (h : (pathParseDiskParentName env path).run s = .ok p s') : p.disk = pathGetDisk env path := by
  have hget : ∀ k tok nexttok, strtok (tokPath path) pathSeparator = (k, tok, nexttok) →
      pathGetDisk env path = if tok ≠ [] ∧ stringIsDisk tok then stringToDisk tok else env.systemDisk := by
    intro k tok nexttok hs
    simp only [pathGetDisk, hs]
  rcases hs : strtok (tokPath path) pathSeparator with ⟨k, tok, nexttok⟩
  rw [hget k tok nexttok hs]
  rw [pathParseDiskParentName] at h
  cases hlen : (tokPath path).length with
  | zero =>
    have hnil : tokPath path = [] := List.eq_nil_of_length_eq_zero hlen
    rw [hlen] at h
    cases h
    have htok : tok = [] := by
      rw [hnil] at hs
      have : strtok ([] : CStr) pathSeparator = (0, [], []) := rfl
      rw [this] at hs
      cases hs
      rfl
    simp [htok]
  | succ fuel =>
    have hne : tokPath path ≠ [] := by
      intro h0
      rw [h0] at hlen
      simp at hlen
    rw [hlen, pathParseLoop, if_neg hne, hs] at h
    simp only [true_and] at h
    by_cases hd : tok ≠ [] ∧ stringIsDisk tok = true
    · rw [if_pos hd] at h ⊢
      exact pathParseLoop_disk env _ _ _ _ _ _ _ _ (by omega) h
    · rw [if_neg hd] at h ⊢
      split_ifs at h with h2
      · rw [Prog.run_bind] at h
        cases hr : (findEntry env env.systemDisk 0 tok).run s with
        | ok a s₁ =>
          rw [hr] at h
          exact pathParseLoop_disk env _ _ _ _ _ _ _ _ (by omega) h
        | error c s₁ =>
          rw [hr] at h
          cases h
        | stuck _ =>
          rw [hr] at h
          cases h
      · cases h
        rfl

end Parse

/-! ## Resolving on a working disk -/

section Run

variable {env : Env} {s : Sys} {d : Nat}

theorem findEntry_lookup (hr : Ready env s d) {V : Vol} (hg : V.Geo) (parent : Nat) (name : CStr) :
    (findEntry env d parent name).run (s.withVol d V) =
      match V.lookup parent name with
      | some n => .ok (n, V.ent n) (s.withVol d V)
      | none => .error errorNotFound (s.withVol d V) := findEntry_run hr hg parent name

theorem pathParseLoop_run (hr : Ready env s d) {V : Vol} (hg : V.Geo) :
    ∀ (fuel n pos : Nat) (rest : CStr) (p : ParsedPath), 0 < n → p.disk = d →
      (pathParseLoop env fuel n pos rest p).run (s.withVol d V) =
        match V.parseLoop fuel n pos rest p with
        | some q => .ok q (s.withVol d V)
        | none => .error errorNotFound (s.withVol d V) := by
  intro fuel
  induction fuel with
  | zero => intro n pos rest p _ _; rfl
  | succ fuel ih =>
    intro n pos rest p hn hd
    have hn0 : ¬ n = 0 := by omega
    rw [pathParseLoop, Vol.parseLoop]
    by_cases h1 : rest = []
    · rw [if_pos h1, if_pos h1]
      rfl
    · rw [if_neg h1, if_neg h1]
      rcases strtok rest pathSeparator with ⟨k, tok, nexttok⟩
      simp only [hn0, false_and, and_false, if_false]
      by_cases h2 : tok ≠ [] ∧ nexttok ≠ []
      · rw [if_pos h2, if_pos h2, hd, Prog.run_bind, findEntry_run hr hg]
        cases hl : V.lookup p.parent tok with
        | none => rfl
        | some parent => exact ih _ _ _ _ (by omega) rfl
      · rw [if_neg h2, if_neg h2]
        rfl

theorem pathParse_run (hr : Ready env s d) {V : Vol} (hg : V.Geo) {path : CStr} (hd : pathGetDisk env path = d) :
    (pathParseDiskParentName env path).run (s.withVol d V) =
      match V.parse env path with
      | some p => .ok p (s.withVol d V)
      | none => .error errorNotFound (s.withVol d V) := by
  rw [pathParseDiskParentName, Vol.parse]
  cases hlen : (tokPath path).length with
  | zero => rfl
  | succ fuel =>
    have hne : tokPath path ≠ [] := by
      intro h0
      rw [h0] at hlen
      simp at hlen
    rcases hs : strtok (tokPath path) pathSeparator with ⟨k, tok, nexttok⟩
    have hget : (if tok ≠ [] ∧ stringIsDisk tok then stringToDisk tok else env.systemDisk) = d := by
      rw [← hd]
      simp only [pathGetDisk, hs]
    rw [pathParseLoop, Vol.parseLoop, if_neg hne, if_neg hne, hs]
    simp only [true_and]
    by_cases htok : tok ≠ [] ∧ stringIsDisk tok = true
    · rw [if_pos htok] at hget
      rw [if_pos htok, if_pos htok]
      exact pathParseLoop_run hr hg _ _ _ _ _ (by omega) hget
    · rw [if_neg htok] at hget
      rw [if_neg htok, if_neg htok]
      by_cases h2 : tok ≠ [] ∧ nexttok ≠ []
      · rw [if_pos h2, if_pos h2, hget, Prog.run_bind, findEntry_run hr hg]
        cases hl : V.lookup 0 tok with
        | none => rfl
        | some parent => exact pathParseLoop_run hr hg _ _ _ _ _ (by omega) rfl
      · rw [if_neg h2, if_neg h2]
        rfl

/-- What `Vol.parse` finds is on the disk of the path. -/
theorem Vol.parse_disk (hr : Ready env s d) {V : Vol} (hg : V.Geo) {path : CStr} (hd : pathGetDisk env path = d)
    {p : ParsedPath} (h : V.parse env path = some p) : p.disk = d := by
  have hrun := pathParse_run hr hg hd
  rw [h] at hrun
  rw [pathParse_disk env hrun, hd]

theorem ne_unknownValue (hr : Ready env s d) : d ≠ unknownValue := by
  have := hr.disk
  simp only [maxDisk] at this
  simp only [unknownValue]
  omega

/-- `fs_get_entry` of a path. -/
theorem fsGetEntry_run (hr : Ready env s d) {V : Vol} (hg : V.Geo) {path : CStr} (hd : pathGetDisk env path = d) :
    (fsGetEntry env path unknownValue unknownValue).run (s.withVol d V) =
      match V.resolve env path with
      | some n => .ok (n, V.ent n) (s.withVol d V)
      | none => .error errorNotFound (s.withVol d V) := by
  have hdu := ne_unknownValue hr
  rw [fsGetEntry, Vol.resolve]
  cases hdisk : stringIsDisk path with
  | true =>
    have hd' : stringToDisk path = d := by rw [← pathGetDisk_of_isDisk env hdisk, hd]
    have hsep : pathSeparator ∉ rootDirName := by decide
    simp only [and_self, if_true, hd', hdu, if_false, hsep, and_false]
    exact findEntry_run hr hg 0 rootDirName
  | false =>
    simp only [Bool.false_eq_true, and_false, if_false, if_true, true_and]
    by_cases hsep : pathSeparator ∈ path
    · rw [if_pos hsep, if_pos hsep, Prog.run_bind, pathParse_run hr hg hd]
      cases hp : V.parse env path with
      | none => rfl
      | some p =>
        simp only [Vol.parse_disk hr hg hd hp]
        exact findEntry_run hr hg _ _
    · have hd' : env.systemDisk = d := by rw [← pathGetDisk_of_not_mem env hdisk hsep, hd]
      rw [if_neg hsep, if_neg hsep, hd']
      exact findEntry_run hr hg 0 path

/-- What `fs_get_entry` returns is the entry that the path resolves to. -/
theorem resolve_of_get (hr : Ready env s d) (hg : Vol.Geo (s.disk d)) {path : CStr} (hd : pathGetDisk env path = d) {n : Nat}
    {entry : SfsEntry} (hget : (fsGetEntry env path unknownValue unknownValue).run s = .ok (n, entry) s) :
    Vol.resolve (s.disk d) env path = some n ∧ entry = Vol.ent (s.disk d) n := by
  have hrun := fsGetEntry_run hr hg hd
  rw [Sys.withVol_self, hget] at hrun
  cases h : Vol.resolve (s.disk d) env path with
  | none =>
    rw [h] at hrun
    cases hrun
  | some m =>
    rw [h] at hrun
    cases hrun
    exact ⟨rfl, rfl⟩

/-- `fs_get_entry` of a name in a directory. -/
theorem fsGetEntry_name_run (hr : Ready env s d) {V : Vol} (hg : V.Geo) {name : CStr} {parent : Nat}
    (hp : parent < 8388608) (hsep : pathSeparator ∉ name) :
    (fsGetEntry env name parent d).run (s.withVol d V) =
      match V.lookup parent name with
      | some n => .ok (n, V.ent n) (s.withVol d V)
      | none => .error errorNotFound (s.withVol d V) := by
  have hdu := ne_unknownValue hr
  have hpu : parent ≠ unknownValue := by
    simp only [unknownValue]
    omega
  rw [fsGetEntry]
  simp only [hdu, hpu, false_and, if_false, hsep, and_false]
  exact findEntry_run hr hg _ _

/-- The check of a destination. -/
theorem checkNotExists_run (hr : Ready env s d) {V : Vol} (hg : V.Geo) {name : CStr} {parent : Nat}
    (hp : parent < 8388608) (hsep : pathSeparator ∉ name) :
    (checkNotExists env d parent name).run (s.withVol d V) =
      match V.lookup parent name with
      | some _ => .error errorExists (s.withVol d V)
      | none => .ok () (s.withVol d V) := by
  have hget := fsGetEntry_name_run hr hg hp hsep
  rw [checkNotExists]
  cases hl : V.lookup parent name with
  | some n =>
    rw [hl] at hget
    exact Prog.bind_ok (Prog.attempt_ok hget)
  | none =>
    rw [hl] at hget
    rw [Prog.bind_ok (Prog.attempt_error hget)]
    simp

end Run

/-! ## Names -/

/-- A sanitised name: its characters are allowed ones, and it fits. -/
theorem stringToName_spec (str : CStr) :
    (stringToName str).length < 15 ∧ (∀ c ∈ stringToName str, nameChar c = true) := by
  refine ⟨?_, ?_⟩
  · simp only [stringToName, sfsNameSize, List.length_map, List.length_take]
    omega
  · intro c hc
    simp only [stringToName, List.mem_map] at hc
    obtain ⟨c', -, rfl⟩ := hc
    split_ifs with h
    · exact h
    · decide

theorem stringToName_not_mem (str : CStr) : pathSeparator ∉ stringToName str ∧ 0 ∉ stringToName str := by
  refine ⟨fun h => ?_, fun h => ?_⟩
  · have := (stringToName_spec str).2 _ h
    revert this
    decide
  · have := (stringToName_spec str).2 _ h
    revert this
    decide

end NanoS32
