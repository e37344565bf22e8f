import NanoS32.Lemmas.Path

/-!
# Paths as lists of components

A path is the text of its components with separators between them. `path_parse_disk_parent_name` takes it apart in a copy of 63
bytes: it finds every component but the last as a token when the last starts inside the copy, and otherwise it hands out a name
that still has a separator in it.
-/

namespace NanoS32

/-- The text of a path with these components. -/
def pathText : List CStr → CStr
  | [] => []
  | [c] => c
  | c :: c' :: cs => c ++ pathSeparator :: pathText (c' :: cs)

/-- Where the last component starts in the text. -/
def lastStart : List CStr → Nat
  | [] => 0
  | [_] => 0
  | c :: c' :: cs => c.length + 1 + lastStart (c' :: cs)

/-- A component is not empty and has no separator in it. -/
def IsComponent (c : CStr) : Prop := c ≠ [] ∧ pathSeparator ∉ c

/-- The entry that a search for one component after the other ends at. -/
def Vol.walk (V : Vol) : Nat → List CStr → Option Nat
  | p, [] => some p
  | p, c :: cs => (V.lookup p c).bind fun q => V.walk q cs

theorem Vol.walk_append (V : Vol) (p : Nat) (cs cs' : List CStr) :
    V.walk p (cs ++ cs') = (V.walk p cs).bind fun q => V.walk q cs' := by
  induction cs generalizing p with
  | nil => rfl
  | cons c cs ih =>
    simp only [List.cons_append, Vol.walk]
    cases V.lookup p c with
    | none => rfl
    | some q => simp only [Option.bind_some, ih]

/-! ## The text -/

theorem pathText_drop_lastStart : ∀ {cs : List CStr} (h : cs ≠ []), (pathText cs).drop (lastStart cs) = cs.getLast h
  | [_], _ => rfl
  | c :: c' :: cs, _ => by
    have ih := pathText_drop_lastStart (List.cons_ne_nil c' cs)
    have hsplit : c.length + 1 + lastStart (c' :: cs) = c.length + (lastStart (c' :: cs) + 1) := by omega
    rw [pathText, lastStart, hsplit, ← List.drop_drop, List.drop_left, List.drop_succ_cons, ih]
    exact (List.getLast_cons (by simp)).symm

theorem length_pathText_pos {cs : List CStr} (h : cs ≠ []) (hcs : ∀ c ∈ cs, IsComponent c) : 0 < (pathText cs).length := by
  match cs, h with
  | [c], _ => exact List.length_pos_iff.2 (hcs c (by simp)).1
  | c :: c' :: cs, _ =>
    rw [pathText, List.length_append, List.length_cons]
    omega

theorem pathSeparator_mem_pathText (c c' : CStr) (cs : List CStr) : pathSeparator ∈ pathText (c :: c' :: cs) := by
  simp [pathText]

/-- The first token of a text is its first component. -/
theorem strtok_component {c rest : CStr} (h : IsComponent c) (hrest : rest.head? ≠ some pathSeparator → rest = []) :
    strtok (c ++ rest) pathSeparator = (0, c, rest.drop 1) := by
  obtain ⟨hne, hsep⟩ := h
  have hskip : (c ++ rest).takeWhile (· == pathSeparator) = [] := by
    cases c with
    | nil => exact absurd rfl hne
    | cons a c =>
      have ha : a ≠ pathSeparator := fun ha => hsep (by simp [ha])
      simp [ha]
  have htok : (c ++ rest).takeWhile (· != pathSeparator) = c := by
    have hc : ∀ a ∈ c, (a != pathSeparator) = true := fun a ha => by
      have hne : a ≠ pathSeparator := fun h => hsep (h ▸ ha)
      simpa using hne
    rw [List.takeWhile_append_of_pos hc]
    cases rest with
    | nil => simp
    | cons b rest =>
      have hb : b = pathSeparator := by
        by_contra hb
        have := hrest (by simpa using hb)
        cases this
      simp [hb]
  simp only [strtok, hskip, List.length_nil, List.drop_zero, htok, Nat.zero_add]
  rw [← List.drop_drop, List.drop_left]

/-- The start of a text is the start of its first component, and more only after this component. -/
theorem take_pathText (c : CStr) (cs : List CStr) (k : Nat) :
    ∃ rest, (pathText (c :: cs)).take k = c.take k ++ rest ∧ (rest.head? ≠ some pathSeparator → rest = []) := by
  cases cs with
  | nil => exact ⟨[], by rw [pathText, List.append_nil], fun _ => rfl⟩
  | cons c' cs =>
    refine ⟨(pathSeparator :: pathText (c' :: cs)).take (k - c.length), by rw [pathText, List.take_append], fun h => ?_⟩
    cases hk : k - c.length with
    | zero => rfl
    | succ j =>
      rw [hk] at h
      exact absurd rfl h

/-! ## The loop of the parser -/

/-- A token that a text of 63 bytes starts with and that is a disk identifier is its first component. -/
theorem not_stringIsDisk_take {c : CStr} {k : Nat} (h : stringIsDisk c = false) (hk : 4 ≤ k) : stringIsDisk (c.take k) = false := by
  by_contra hd
  have hd' : stringIsDisk (c.take k) = true := by simpa using hd
  have hlen := (stringIsDisk_length hd').1
  have htake : c.take k = c := by
    rw [List.length_take] at hlen
    exact List.take_of_length_le (by omega)
  rw [htake, h] at hd'
  cases hd'

/-- One turn of the loop, at a component that is followed by another in the copy. -/
theorem Vol.parseLoop_next (V : Vol) {fuel n pos : Nat} {c rest : CStr} {p : ParsedPath} (hc : IsComponent c)
    (hn : n = 0 → stringIsDisk c = false) (hrest : rest ≠ []) :
    V.parseLoop (fuel + 1) n pos (c ++ pathSeparator :: rest) p =
      match V.lookup p.parent c with
      | some parent => V.parseLoop fuel (n + 1) (pos + c.length + 1) rest { p with parent := parent, name := pos }
      | none => none := by
  have hs : strtok (c ++ pathSeparator :: rest) pathSeparator = (0, c, rest) := strtok_component hc (by simp)
  have hne : c ++ pathSeparator :: rest ≠ [] := by simp
  have hdisk : ¬(c ≠ [] ∧ n = 0 ∧ stringIsDisk c = true) := fun ⟨_, h0, hd⟩ => by
    rw [hn h0] at hd
    cases hd
  rw [Vol.parseLoop, if_neg hne, hs]
  simp only [Nat.add_zero]
  refine (if_neg hdisk).trans ((if_pos ⟨hc.1, hrest⟩).trans ?_)
  rfl

/-- The last turn of the loop, at a token that nothing follows in the copy. -/
theorem Vol.parseLoop_last (V : Vol) (fuel : Nat) {n : Nat} (pos : Nat) {c rest : CStr} (p : ParsedPath) (hc : IsComponent c)
    (hn : n = 0 → stringIsDisk c = false) (hrest : rest = [] ∨ rest = [pathSeparator]) :
    V.parseLoop (fuel + 1) n pos (c ++ rest) p = some { p with name := pos } := by
  have hs : strtok (c ++ rest) pathSeparator = (0, c, []) := by
    rcases hrest with rfl | rfl
    · exact strtok_component hc (by simp)
    · exact strtok_component hc (by simp)
  have hne : c ++ rest ≠ [] := fun h => hc.1 (List.append_eq_nil_iff.1 h).1
  have hdisk : ¬(c ≠ [] ∧ n = 0 ∧ stringIsDisk c = true) := fun ⟨_, h0, hd⟩ => by
    rw [hn h0] at hd
    cases hd
  rw [Vol.parseLoop, if_neg hne, hs]
  simp only [Nat.add_zero]
  rw [if_neg hdisk, if_neg (by simp)]

theorem IsComponent.take {c : CStr} (h : IsComponent c) {k : Nat} (hk : 0 < k) : IsComponent (c.take k) := by
  refine ⟨fun h0 => ?_, fun hm => h.2 (List.mem_of_mem_take hm)⟩
  rcases List.take_eq_nil_iff.1 h0 with h0 | h0
  · omega
  · exact h.1 h0

/-- The loop, started at a component in the copy. When the last component starts in the copy, the loop walks to its parent and
hands out its start; otherwise it hands out the start of a name with a separator in it. -/
theorem Vol.parseLoop_path (V : Vol) : ∀ (cs : List CStr) (fuel n pos : Nat) (p : ParsedPath) (_ : cs ≠ []),
    (∀ c ∈ cs, IsComponent c) → pos ≤ 62 → (n = 0 → pos = 0 ∧ ∀ c, cs.head? = some c → stringIsDisk c = false) →
      ((pathText cs).take (63 - pos)).length ≤ fuel →
        (pos + lastStart cs ≤ 62 → V.parseLoop fuel n pos ((pathText cs).take (63 - pos)) p =
          (V.walk p.parent cs.dropLast).map fun q => { p with parent := q, name := pos + lastStart cs }) ∧
        (62 < pos + lastStart cs → ∀ q, V.parseLoop fuel n pos ((pathText cs).take (63 - pos)) p = some q →
          ∃ k, q.name = pos + k ∧ pathSeparator ∈ (pathText cs).drop k) := by
  intro cs
  induction cs with
  | nil =>
    intro _ _ _ _ h
    exact absurd rfl h
  | cons c cs ih =>
    intro fuel n pos p _ hcs hpos hn hfuel
    have hc : IsComponent c := hcs c (by simp)
    have hpre : IsComponent (c.take (63 - pos)) := hc.take (by omega)
    have hdisk : n = 0 → stringIsDisk c = false := fun h0 => (hn h0).2 c rfl
    have hdisk' : n = 0 → stringIsDisk (c.take (63 - pos)) = false := fun h0 =>
      not_stringIsDisk_take (hdisk h0) (by have := (hn h0).1; omega)
    have hpos' : 0 < ((pathText (c :: cs)).take (63 - pos)).length := by
      have h1 := length_pathText_pos (List.cons_ne_nil c cs) hcs
      rw [List.length_take]
      omega
    obtain ⟨fuel, rfl⟩ : ∃ k, fuel = k + 1 := ⟨fuel - 1, by omega⟩
    cases cs with
    | nil =>
      have hrun := V.parseLoop_last fuel pos p hpre hdisk' (Or.inl rfl)
      rw [List.append_nil] at hrun
      refine ⟨fun _ => ?_, fun h => ?_⟩
      · exact hrun
      · rw [lastStart] at h
        omega
    | cons c' cs =>
      have htext : pathText (c :: c' :: cs) = c ++ pathSeparator :: pathText (c' :: cs) := rfl
      have hlast : lastStart (c :: c' :: cs) = c.length + 1 + lastStart (c' :: cs) := rfl
      have hrest : ∀ c ∈ c' :: cs, IsComponent c := fun x hx => hcs x (List.mem_cons_of_mem _ hx)
      by_cases hfits : pos + c.length + 1 ≤ 62
      · -- the next component starts in the copy
        have htake : (pathText (c :: c' :: cs)).take (63 - pos) =
            c ++ pathSeparator :: (pathText (c' :: cs)).take (63 - (pos + c.length + 1)) := by
          have hk : 63 - pos = c.length + (63 - (pos + c.length + 1) + 1) := by omega
          rw [htext, hk, List.take_length_add_append, List.take_succ_cons]
        have hne : (pathText (c' :: cs)).take (63 - (pos + c.length + 1)) ≠ [] := by
          have h1 := length_pathText_pos (List.cons_ne_nil c' cs) hrest
          rw [← List.length_pos_iff, List.length_take]
          omega
        rw [htake] at hfuel ⊢
        rw [List.length_append, List.length_cons] at hfuel
        rw [V.parseLoop_next hc hdisk hne]
        cases hl : V.lookup p.parent c with
        | none => exact ⟨fun _ => by simp [Vol.walk, hl], fun _ q hq => by cases hq⟩
        | some parent =>
          obtain ⟨h1, h2⟩ := ih fuel (n + 1) (pos + c.length + 1) { p with parent := parent, name := pos } (by simp) hrest
            (by omega) (by omega) (by omega)
          refine ⟨fun h => ?_, fun h q hq => ?_⟩
          · rw [hlast] at h
            have hstart : pos + lastStart (c :: c' :: cs) = pos + c.length + 1 + lastStart (c' :: cs) := by omega
            simp only [h1 (by omega), List.dropLast_cons_cons, Vol.walk, hl, Option.bind_some, hstart]
          · rw [hlast] at h
            obtain ⟨k, hk, hmem⟩ := h2 (by omega) q hq
            refine ⟨c.length + 1 + k, by omega, ?_⟩
            have hsplit : c.length + 1 + k = c.length + (k + 1) := by omega
            rw [htext, hsplit, ← List.drop_drop, List.drop_left, List.drop_succ_cons]
            exact hmem
      · -- the copy ends in this component, or after the separator that ends it
        have hrun : V.parseLoop (fuel + 1) n pos ((pathText (c :: c' :: cs)).take (63 - pos)) p =
            some { p with name := pos } := by
          have htake : (pathText (c :: c' :: cs)).take (63 - pos) =
              c.take (63 - pos) ++ [pathSeparator].take (63 - pos - c.length) := by
            rw [htext, List.take_append]
            rcases Nat.lt_or_ge (63 - pos) (c.length + 1) with h | h
            · have h0 : 63 - pos - c.length = 0 := by omega
              rw [h0, List.take_zero, List.take_zero]
            · have h1 : 63 - pos - c.length = 1 := by omega
              rw [h1]
              rfl
          rw [htake]
          refine V.parseLoop_last _ _ _ hpre hdisk' ?_
          rcases Nat.lt_or_ge (63 - pos) (c.length + 1) with h | h
          · have h0 : 63 - pos - c.length = 0 := by omega
            exact Or.inl (by rw [h0, List.take_zero])
          · have h1 : 63 - pos - c.length = 1 := by omega
            exact Or.inr (by rw [h1]; rfl)
        refine ⟨fun h => by omega, fun _ q hq => ⟨0, ?_, ?_⟩⟩
        · rw [hrun] at hq
          cases hq
          rfl
        · rw [List.drop_zero]
          exact pathSeparator_mem_pathText c c' cs

/-! ## Paths of a disk -/

/-- `MAX_PATH`. -/
def maxPath : Nat := 72

/-- A path to an entry of disk `d`: at most `MAX_PATH-1` characters, with the identifier of the disk before the components, or
without one for the system disk. -/
structure PathFor (env : Env) (path : CStr) (d : Nat) (comps : List CStr) : Prop where
  ne : comps ≠ []
  components : ∀ c ∈ comps, IsComponent c
  length : path.length ≤ maxPath - 1
  text : (path = pathText comps ∧ d = env.systemDisk ∧ ∀ c, comps.head? = some c → stringIsDisk c = false) ∨
    (d < maxDisk ∧ path = pathText (diskToString d :: comps))

theorem length_eq_lastStart : ∀ {cs : List CStr} (h : cs ≠ []), (pathText cs).length = lastStart cs + (cs.getLast h).length
  | [c], _ => by simp [pathText, lastStart]
  | c :: c' :: cs, _ => by
    have ih := length_eq_lastStart (List.cons_ne_nil c' cs)
    have hl : (c :: c' :: cs).getLast (by simp) = (c' :: cs).getLast (by simp) := List.getLast_cons (by simp)
    rw [pathText, lastStart, List.length_append, List.length_cons, ih, hl]
    omega

theorem diskToString_component {d : Nat} (h : d < maxDisk) :
    IsComponent (diskToString d) ∧ stringIsDisk (diskToString d) = true ∧ stringToDisk (diskToString d) = d ∧
      (diskToString d).length = 3 := by
  unfold IsComponent
  match d, h with
  | 0, _ => decide
  | 1, _ => decide
  | 2, _ => decide
  | 3, _ => decide

namespace PathFor

variable {env : Env} {path : CStr} {d : Nat} {comps : List CStr}

/-- The disk of a path. -/
theorem pathGetDisk_eq (h : PathFor env path d comps) : pathGetDisk env path = d := by
  have htok : ∀ c cs, IsComponent c → path = pathText (c :: cs) →
      pathGetDisk env path = if stringIsDisk (c.take 63) then stringToDisk (c.take 63) else env.systemDisk := by
    rintro c cs hc rfl
    have hpre : IsComponent (c.take 63) := hc.take (by omega)
    obtain ⟨rest, htake, hrest⟩ := take_pathText c cs 63
    have hs : strtok (tokPath (pathText (c :: cs))) pathSeparator = (0, c.take 63, rest.drop 1) := by
      have ht : tokPath (pathText (c :: cs)) = c.take 63 ++ rest := htake
      rw [ht]
      exact strtok_component hpre hrest
    simp only [pathGetDisk, hs, hpre.1, ne_eq, not_false_eq_true, true_and]
  rcases h.text with ⟨hpath, hd, hhead⟩ | ⟨hd, hpath⟩
  · cases hcomps : comps with
    | nil => exact absurd hcomps h.ne
    | cons c cs =>
      subst hcomps
      rw [htok c cs (h.components c (by simp)) hpath, not_stringIsDisk_take (hhead c rfl) (by omega), hd]
      rfl
  · obtain ⟨hc, hdisk, hto, hlen⟩ := diskToString_component hd
    have htake : (diskToString d).take 63 = diskToString d := List.take_of_length_le (by omega)
    rw [htok _ _ hc hpath, htake, hdisk, hto]
    rfl

/-- What the parser makes of a path with a separator in it. -/
theorem parse_spec (h : PathFor env path d comps) (V : Vol) :
    (path.length - (comps.getLast h.ne).length ≤ 62 → V.parse env path = (V.walk 0 comps.dropLast).map fun q =>
        { disk := d, parent := q, name := path.length - (comps.getLast h.ne).length }) ∧
      (62 < path.length - (comps.getLast h.ne).length → ∀ q, V.parse env path = some q → pathSeparator ∈ path.drop q.name) := by
  have hlen := length_eq_lastStart h.ne
  rcases h.text with ⟨rfl, rfl, hhead⟩ | ⟨hd, rfl⟩
  · have hstart : (pathText comps).length - (comps.getLast h.ne).length = lastStart comps := by omega
    obtain ⟨h1, h2⟩ := V.parseLoop_path comps (tokPath (pathText comps)).length 0 0
      { disk := env.systemDisk, parent := 0, name := 0 } h.ne h.components (by omega) (fun _ => ⟨rfl, hhead⟩) (Nat.le_refl _)
    rw [Nat.zero_add] at h1 h2
    rw [hstart]
    refine ⟨h1, fun hlt q hq => ?_⟩
    obtain ⟨k, hk, hmem⟩ := h2 hlt q hq
    rw [hk, Nat.zero_add]
    exact hmem
  · obtain ⟨hc, hdisk, hto, hds⟩ := diskToString_component hd
    obtain ⟨c, cs, rfl⟩ := List.exists_cons_of_ne_nil h.ne
    have htext : pathText (diskToString d :: c :: cs) = diskToString d ++ pathSeparator :: pathText (c :: cs) := rfl
    have hplen : (pathText (diskToString d :: c :: cs)).length = 4 + (pathText (c :: cs)).length := by
      rw [htext, List.length_append, List.length_cons, hds]
      omega
    have hstart : (pathText (diskToString d :: c :: cs)).length - ((c :: cs).getLast h.ne).length =
        4 + lastStart (c :: cs) := by omega
    have htake : tokPath (pathText (diskToString d :: c :: cs)) =
        diskToString d ++ pathSeparator :: (pathText (c :: cs)).take 59 := by
      have hk : 63 = (diskToString d).length + (59 + 1) := by omega
      have ht : tokPath (pathText (diskToString d :: c :: cs)) = (pathText (diskToString d :: c :: cs)).take 63 := rfl
      rw [ht, htext, hk, List.take_length_add_append, List.take_succ_cons]
    obtain ⟨fuel, hfuel⟩ : ∃ k, (tokPath (pathText (diskToString d :: c :: cs))).length = k + 1 :=
      ⟨_, by rw [htake, List.length_append, List.length_cons, ← Nat.add_assoc]⟩
    have hfuel' : ((pathText (c :: cs)).take 59).length ≤ fuel := by
      rw [htake, List.length_append, List.length_cons] at hfuel
      omega
    have hs : strtok (diskToString d ++ pathSeparator :: (pathText (c :: cs)).take 59) pathSeparator =
        (0, diskToString d, (pathText (c :: cs)).take 59) := strtok_component hc (by simp)
    have hparse : V.parse env (pathText (diskToString d :: c :: cs)) =
        V.parseLoop fuel 1 4 ((pathText (c :: cs)).take (63 - 4)) { disk := d, parent := 0, name := 0 } := by
      have hne : diskToString d ++ pathSeparator :: (pathText (c :: cs)).take 59 ≠ [] := by simp
      rw [Vol.parse, hfuel, htake, Vol.parseLoop, if_neg hne, hs]
      simp only [Nat.add_zero]
      rw [if_pos ⟨hc.1, trivial, hdisk⟩, hto, hds]
    obtain ⟨h1, h2⟩ := V.parseLoop_path (c :: cs) fuel 1 4 { disk := d, parent := 0, name := 0 } h.ne h.components
      (by omega) (by omega) hfuel'
    rw [hparse, hstart]
    refine ⟨h1, fun hlt q hq => ?_⟩
    obtain ⟨k, hk, hmem⟩ := h2 hlt q hq
    have hsplit : 4 + k = (diskToString d).length + (k + 1) := by omega
    rw [hk, htext, hsplit, ← List.drop_drop, List.drop_left, List.drop_succ_cons]
    exact hmem

/-- A path with one component and no identifier has no separator in it; any other has. -/
theorem separator_mem (h : PathFor env path d comps) :
    stringIsDisk path = false ∧
      ((∃ c, comps = [c] ∧ path = c ∧ pathSeparator ∉ path) ∨ (pathSeparator ∈ path)) := by
  have hnot : pathSeparator ∈ path → stringIsDisk path = false := fun hm => by
    by_contra hd
    have hd' : stringIsDisk path = true := by simpa using hd
    exact (stringIsDisk_length hd').2 hm
  obtain ⟨c, cs, rfl⟩ := List.exists_cons_of_ne_nil h.ne
  rcases h.text with ⟨rfl, rfl, hhead⟩ | ⟨hd, rfl⟩
  · cases cs with
    | nil => exact ⟨hhead c rfl, Or.inl ⟨c, rfl, rfl, (h.components c (by simp)).2⟩⟩
    | cons c' cs =>
      have hm := pathSeparator_mem_pathText c c' cs
      exact ⟨hnot hm, Or.inr hm⟩
  · have hm := pathSeparator_mem_pathText (diskToString d) c cs
    exact ⟨hnot hm, Or.inr hm⟩

/-- A path whose last component starts past the copy is not found: a search for a name with a separator finds nothing. -/
theorem resolve_long (h : PathFor env path d comps) (V : Vol) (hstart : 62 < path.length - (comps.getLast h.ne).length)
    (hsep : ∀ p name, pathSeparator ∈ name → V.lookup p name = none) : V.resolve env path = none := by
  obtain ⟨hdisk, hcases⟩ := h.separator_mem
  rw [Vol.resolve, hdisk, if_neg Bool.false_ne_true]
  rcases hcases with ⟨c, rfl, rfl, -⟩ | hm
  · rw [List.getLast_singleton] at hstart
    omega
  · rw [if_pos hm]
    cases hp : V.parse env path with
    | none => rfl
    | some q => exact hsep _ _ ((h.parse_spec V).2 hstart q hp)

/-- A path whose last component starts in the copy is followed component by component. -/
theorem resolve_walk (h : PathFor env path d comps) (V : Vol) (hstart : path.length - (comps.getLast h.ne).length ≤ 62) :
    V.resolve env path = V.walk 0 comps := by
  obtain ⟨hdisk, hcases⟩ := h.separator_mem
  rw [Vol.resolve, hdisk, if_neg Bool.false_ne_true]
  rcases hcases with ⟨c, rfl, rfl, hm⟩ | hm
  · rw [if_neg hm, Vol.walk]
    cases V.lookup 0 path <;> rfl
  · have hlast : path.drop (path.length - (comps.getLast h.ne).length) = comps.getLast h.ne := by
      have hlen := length_eq_lastStart h.ne
      have hdrop := pathText_drop_lastStart h.ne
      rcases h.text with ⟨rfl, -, -⟩ | ⟨hd, rfl⟩
      · have hstart : (pathText comps).length - (comps.getLast h.ne).length = lastStart comps := by omega
        rw [hstart, hdrop]
      · have hlen' := length_eq_lastStart (List.cons_ne_nil (diskToString d) comps)
        have hdrop' := pathText_drop_lastStart (List.cons_ne_nil (diskToString d) comps)
        rw [List.getLast_cons h.ne] at hlen' hdrop'
        have hstart : (pathText (diskToString d :: comps)).length - (comps.getLast h.ne).length =
            lastStart (diskToString d :: comps) := by omega
        rw [hstart, hdrop']
    rw [if_pos hm, (h.parse_spec V).1 hstart]
    conv_rhs => rw [← List.dropLast_append_getLast h.ne, Vol.walk_append]
    cases V.walk 0 comps.dropLast with
    | none => rfl
    | some q =>
      simp only [Option.map_some, Option.bind_some, Vol.walk, hlast]
      cases V.lookup q (comps.getLast h.ne) <;> rfl

end PathFor

end NanoS32
