import NanoS32.Lemmas.Assembler

/-!
# The run of the assembler

The lines of a source file one after the other, and the resolution of the references: an invariant of the tables, and the output that
is left at each reference.
-/

namespace NanoS32

/-! ## The lines of the source file -/

/-- The tokens of the lines of a source file, from an offset on, up to the end of the file or a line that is too long. -/
def sourceLoop (file : List UInt8) : Nat → Nat → List (List CStr)
  | 0, _ => []
  | fuel + 1, foffset =>
    match readLine file foffset with
    | .error _ => []
    | .ok (line, foffset) => tokenizeLine maxTok line :: sourceLoop file fuel foffset

/-- The tokens of the lines of a source file. -/
def sourceLines (file : List UInt8) : List (List CStr) := sourceLoop file (file.length + 1) 0

/-- The lines, one after the other. -/
def asmLines (st : Asm) (lines : List (List CStr)) : Except AsmStop Asm := lines.foldlM asmLine st

theorem asmLines_cons (st : Asm) (line : List CStr) (lines : List (List CStr)) :
    asmLines st (line :: lines) = asmLine st line >>= fun st => asmLines st lines := List.foldlM_cons

theorem asmLines_append (st : Asm) (lines lines' : List (List CStr)) :
    asmLines st (lines ++ lines') = asmLines st lines >>= fun st => asmLines st lines' := List.foldlM_append

theorem asmLoop_error {file : List UInt8} {foffset : Nat} {e : LineError} (h : readLine file foffset = .error e) (fuel : Nat)
    (st : Asm) : asmLoop file (fuel + 1) st foffset = if e = .eof then .ok st else .error .error := by
  rw [asmLoop, asmTurn, h]
  cases e <;> rfl

theorem asmLoop_line {file : List UInt8} {foffset next : Nat} {line : CStr} (h : readLine file foffset = .ok (line, next))
    (fuel : Nat) (st : Asm) : asmLoop file (fuel + 1) st foffset =
      asmLine st (tokenizeLine maxTok line) >>= fun st => asmLoop file fuel st next := by
  rw [asmLoop, asmTurn, h]
  cases hline : asmLine st (tokenizeLine maxTok line) with
  | error e =>
    simp only [hline]
    rfl
  | ok st₁ =>
    simp only [hline]
    rfl

/-- The loop of `main` takes the lines of the file. -/
theorem asmLoop_lines (file : List UInt8) : ∀ fuel st foffset,
    (∀ st', asmLoop file fuel st foffset = .ok st' → asmLines st (sourceLoop file fuel foffset) = .ok st') ∧
      (∀ a, asmLoop file fuel st foffset = .error (.outside a) →
        asmLines st (sourceLoop file fuel foffset) = .error (.outside a)) := by
  intro fuel
  induction fuel with
  | zero =>
    intro st foffset
    refine ⟨fun st' h => h, fun a h => ?_⟩
    cases h
  | succ fuel ih =>
    intro st foffset
    rw [sourceLoop]
    cases hread : readLine file foffset with
    | error e =>
      rw [asmLoop_error hread]
      refine ⟨fun st' h => ?_, fun a h => ?_⟩
      · split_ifs at h
        exact h
      · split_ifs at h
        cases h
    | ok p =>
      obtain ⟨line, next⟩ := p
      rw [asmLoop_line hread, asmLines_cons]
      cases hline : asmLine st (tokenizeLine maxTok line) with
      | error e =>
        refine ⟨fun st' h => ?_, fun a h => h⟩
        cases h
      | ok st₁ => exact ih st₁ next

/-- A turn takes at least one byte, and the bytes of the file. -/
theorem readLine_progress {file : List UInt8} {foffset : Nat} {line : CStr} {next : Nat}
    (h : readLine file foffset = .ok (line, next)) : foffset < next ∧ next ≤ file.length := by
  have hclamp : ∀ (full : Bool) (buff line : List UInt8) (n : Nat), clampLine full buff = some (line, n) →
      0 < n ∧ n ≤ buff.length := by
    intro full buff
    induction buff with
    | nil => exact fun line n h => by cases h
    | cons ch rest ih =>
      intro line n h
      unfold clampLine at h
      dsimp only at h
      generalize (if ch = 13 then (32 : UInt8) else ch) = ch' at h
      split_ifs at h
      · cases h
        exact ⟨Nat.one_pos, by simp⟩
      · cases h
        exact ⟨Nat.one_pos, by simp⟩
      · obtain ⟨p, hp, heq⟩ := Option.map_eq_some_iff.1 h
        cases heq
        have := ih p.1 p.2 hp
        simp only [List.length_cons]
        omega
  unfold readLine at h
  dsimp only at h
  split_ifs at h with hempty
  split at h
  · next line' n hsome =>
    cases h
    have hn := hclamp _ _ _ _ hsome
    rw [List.length_take, List.length_drop] at hn
    omega
  · cases h

/-- The bound of the loop is enough: a larger one does the same. -/
theorem asmLoop_fuel (file : List UInt8) (k : Nat) : ∀ fuel st foffset, foffset ≤ file.length → file.length < foffset + fuel →
    asmLoop file (fuel + k) st foffset = asmLoop file fuel st foffset := by
  intro fuel
  induction fuel with
  | zero =>
    intro st foffset hle hlt
    omega
  | succ fuel ih =>
    intro st foffset hle hlt
    rw [Nat.add_right_comm]
    cases hread : readLine file foffset with
    | error e => rw [asmLoop_error hread, asmLoop_error hread]
    | ok p =>
      obtain ⟨line, next⟩ := p
      have hnext := readLine_progress hread
      rw [asmLoop_line hread, asmLoop_line hread]
      congr 1
      funext st₁
      exact ih st₁ next hnext.2 (by omega)

/-! ## The invariant of a run -/

/-- The output is in its buffer, and the references are to different instructions in it. -/
structure AsmInv (st : Asm) : Prop where
  bound : st.ooffset ≤ obuffSize
  origin : st.cgOrigin < 2 ^ 32
  packed : Packed st.sRef
  limit : ∀ r, (st.sRef r).offset ≠ 0 → r < sMaxRef
  operand : ∀ r, (st.sRef r).offset ≠ 0 → (st.sRef r).operand < iMaxOps
  inside : ∀ r, (st.sRef r).offset ≠ 0 → (st.sRef r).offset + encodeLength (st.sRef r).instrId ≤ st.ooffset
  apart : ∀ r r', r ≠ r' → (st.sRef r).offset ≠ 0 → (st.sRef r').offset ≠ 0 →
    (st.sRef r).offset + encodeLength (st.sRef r).instrId ≤ (st.sRef r').offset ∨
      (st.sRef r').offset + encodeLength (st.sRef r').instrId ≤ (st.sRef r).offset

theorem asmInit_inv : AsmInv asmInit where
  bound := Nat.zero_le _
  origin := by decide
  packed := fun _ h => absurd rfl h
  limit := fun _ h => absurd rfl h
  operand := fun _ h => absurd rfl h
  inside := fun _ h => absurd rfl h
  apart := fun _ _ _ h => absurd rfl h

/-- A line keeps the invariant. -/
theorem AsmInv.step {st st' : Asm} {defined : Option CStr} (hi : AsmInv st) (h : LineStep st defined st') : AsmInv st' := by
  have hcases : ∀ r, (st'.sRef r).offset ≠ 0 → (st'.sRef r = st.sRef r ∧ (st.sRef r).offset ≠ 0) ∨ st'.sRef r ≠ st.sRef r := by
    intro r hr
    by_cases heq : st'.sRef r = st.sRef r
    · exact Or.inl ⟨heq, heq ▸ hr⟩
    · exact Or.inr heq
  have hold : ∀ r, st'.sRef r = st.sRef r → (st.sRef r).offset ≠ 0 →
      (st'.sRef r).offset + encodeLength (st'.sRef r).instrId ≤ st.ooffset := by
    intro r heq hr
    rw [heq]
    exact hi.inside r hr
  refine
    { bound := h.bound hi.bound
      origin := h.origin hi.origin
      packed := h.packed hi.packed
      limit := fun r hr => ?_
      operand := fun r hr => ?_
      inside := fun r hr => ?_
      apart := fun r r' hne hr hr' => ?_ }
  · rcases hcases r hr with ⟨heq, hr⟩ | hfresh
    · exact hi.limit r hr
    · exact (h.fresh r hfresh).1
  · rcases hcases r hr with ⟨heq, hr⟩ | hfresh
    · rw [heq]
      exact hi.operand r hr
    · exact (h.fresh r hfresh).2.2.1
  · rcases hcases r hr with ⟨heq, hr⟩ | hfresh
    · exact Nat.le_trans (hold r heq hr) h.grows
    · obtain ⟨-, hoffset, -, hlen⟩ := h.fresh r hfresh
      rw [hoffset]
      exact Nat.le_of_eq hlen
  · rcases hcases r hr with ⟨heq, hr⟩ | hfresh <;> rcases hcases r' hr' with ⟨heq', hr'⟩ | hfresh'
    · rw [heq, heq']
      exact hi.apart r r' hne hr hr'
    · left
      rw [(h.fresh r' hfresh').2.1]
      exact hold r heq hr
    · right
      rw [(h.fresh r hfresh).2.1]
      exact hold r' heq' hr'
    · exact absurd (h.single r r' hfresh hfresh') hne

/-- What a run keeps: the names and the references that are in the tables. -/
structure RunStep (st st' : Asm) : Prop where
  names : KeepsNames st.sTable st'.sTable
  refs : ∀ r, (st.sRef r).offset ≠ 0 → st'.sRef r = st.sRef r
  grows : st.ooffset ≤ st'.ooffset

theorem RunStep.refl (st : Asm) : RunStep st st := ⟨KeepsNames.refl _, fun _ _ => rfl, Nat.le_refl _⟩

theorem RunStep.trans {st st' st'' : Asm} (h : RunStep st st') (h' : RunStep st' st'') : RunStep st st'' := by
  refine ⟨h.names.trans h'.names, fun r hr => ?_, Nat.le_trans h.grows h'.grows⟩
  have heq := h.refs r hr
  exact (h'.refs r (heq ▸ hr)).trans heq

/-- The lines of a run keep the invariant, the names and the references. -/
theorem asmLines_inv : ∀ (lines : List (List CStr)) (st st' : Asm), AsmInv st → asmLines st lines = .ok st' →
    AsmInv st' ∧ RunStep st st' := by
  intro lines
  induction lines with
  | nil =>
    intro st st' hi h
    obtain rfl := Except.ok.inj h
    exact ⟨hi, RunStep.refl st⟩
  | cons line lines ih =>
    intro st st' hi h
    rw [asmLines_cons] at h
    obtain ⟨st₁, h₁, h⟩ := except_bind_eq_ok h
    have hstep := asmLine_step hi.bound h₁
    obtain ⟨hi', hrun⟩ := ih st₁ st' (hi.step hstep) h
    exact ⟨hi', RunStep.trans ⟨hstep.names, hstep.refs, hstep.grows⟩ hrun⟩

/-- A symbol keeps its value over lines that do not define it. -/
theorem asmLines_value {name : CStr} (hne : name ≠ []) : ∀ (lines : List (List CStr)) (st st' : Asm) (s : Nat), AsmInv st →
    asmLines st lines = .ok st' → SymbolAt st.sTable name s → (∀ line ∈ lines, definedName line ≠ some name) →
    SymbolAt st'.sTable name s ∧ (st'.sTable s).value = (st.sTable s).value := by
  intro lines
  induction lines with
  | nil =>
    intro st st' s _ h hs _
    obtain rfl := Except.ok.inj h
    exact ⟨hs, rfl⟩
  | cons line lines ih =>
    intro st st' s hi h hs hdef
    obtain ⟨hline, hlines⟩ := List.forall_mem_cons.1 hdef
    rw [asmLines_cons] at h
    obtain ⟨st₁, h₁, h⟩ := except_bind_eq_ok h
    have hstep := asmLine_step hi.bound h₁
    obtain ⟨hs', hvalue⟩ := ih st₁ st' s (hi.step hstep) h (hs.keep hne hstep.names) hlines
    exact ⟨hs', hvalue.trans (hstep.value name s hne hs hline)⟩

/-! ## The resolution -/

/-- The operands of a reference, with a value for its symbol. -/
def SRef.resolved (ref : SRef) (value : Nat) (i : Fin 2) : Nat := if i.val = ref.operand then value else ref.instruction.opValue i

/-- The bytes of the instruction of a reference, when its symbol is resolved. -/
def Asm.refBytes (st : Asm) (ref : SRef) : List UInt8 :=
  let value := wrap32 ((st.sTable ref.symbol).value + st.cgOrigin)
  encodeBytes st.cgOrigin ref.offset ref.instrId (ref.resolved value ⟨0, Nat.zero_lt_two⟩) (ref.resolved value ⟨1, Nat.one_lt_two⟩)

/-- The state after the resolution of reference `r`. -/
def Asm.patch (st : Asm) (r : Nat) : Asm :=
  let ref := st.sRef r
  let value := wrap32 ((st.sTable ref.symbol).value + st.cgOrigin)
  { st with
    sRef := setAt st.sRef r
      { ref with
        instruction :=
          { ref.instruction with opValue := fun i => if i.val = ref.operand then value else ref.instruction.opValue i } }
    obuff := st.obuff.store ref.offset (st.refBytes ref) }

theorem Asm.patch_sRef (st : Asm) (r i : Nat) : ((st.patch r).sRef i).offset = (st.sRef i).offset ∧
    ((st.patch r).sRef i).instrId = (st.sRef i).instrId ∧ ((st.patch r).sRef i).operand = (st.sRef i).operand := by
  unfold Asm.patch
  by_cases hi : i = r
  · subst hi
    dsimp only
    rw [setAt_self]
    exact ⟨rfl, rfl, rfl⟩
  · dsimp only
    rw [setAt_ne _ _ hi]
    exact ⟨rfl, rfl, rfl⟩

/-- The resolution of a reference keeps the invariant. -/
theorem AsmInv.patch {st : Asm} (hi : AsmInv st) (r : Nat) : AsmInv (st.patch r) where
  bound := hi.bound
  origin := hi.origin
  packed := fun i hoff j hj => by
    rw [(st.patch_sRef r i).1] at hoff
    rw [(st.patch_sRef r j).1]
    exact hi.packed i hoff j hj
  limit := fun i hoff => hi.limit i ((st.patch_sRef r i).1 ▸ hoff)
  operand := fun i hoff => by
    rw [(st.patch_sRef r i).2.2]
    exact hi.operand i ((st.patch_sRef r i).1 ▸ hoff)
  inside := fun i hoff => by
    rw [(st.patch_sRef r i).1] at hoff ⊢
    rw [(st.patch_sRef r i).2.1]
    exact hi.inside i hoff
  apart := fun i j hne hoff hoff' => by
    rw [(st.patch_sRef r i).1] at hoff ⊢
    rw [(st.patch_sRef r j).1] at hoff' ⊢
    rw [(st.patch_sRef r i).2.1, (st.patch_sRef r j).2.1]
    exact hi.apart i j hne hoff hoff'

/-- A turn of the resolution. -/
theorem resolveLoop_succ {k r : Nat} {st st' : Asm} (h : resolveLoop (k + 1) r st = .ok st') :
    ((st.sRef r).offset = 0 ∧ st' = st) ∨ ((st.sRef r).offset ≠ 0 ∧ (st.sRef r).symbol < sMax ∧
      resolveLoop k (r + 1) (st.patch r) = .ok st') := by
  rw [resolveLoop] at h
  dsimp only at h
  by_cases hoff : (st.sRef r).offset = 0
  · rw [if_pos hoff] at h
    exact Or.inl ⟨hoff, (Except.ok.inj h).symm⟩
  · rw [if_neg hoff] at h
    by_cases hop : iMaxOps ≤ (st.sRef r).operand
    · rw [if_pos hop] at h
      cases h
    · rw [if_neg hop] at h
      by_cases hsym : sMax ≤ (st.sRef r).symbol
      · rw [if_pos hsym] at h
        cases h
      · rw [if_neg hsym] at h
        obtain ⟨out, hout, h⟩ := except_bind_eq_ok h
        obtain ⟨rfl, -⟩ := checkOutput_eq_ok hout
        exact Or.inr ⟨hoff, Nat.lt_of_not_le hsym, h⟩

/-- The resolution from reference `r` on leaves the bytes of every reference resolved, and the other bytes as they are. -/
theorem resolveLoop_eq_ok : ∀ (k r : Nat) (st st' : Asm), AsmInv st → r + k = sMaxRef → resolveLoop k r st = .ok st' →
    st'.sTable = st.sTable ∧ st'.ooffset = st.ooffset ∧ st'.cgOrigin = st.cgOrigin ∧
      (∀ i, r ≤ i → (st.sRef i).offset ≠ 0 → (st.sRef i).symbol < sMax ∧
        ∀ j < encodeLength (st.sRef i).instrId,
          st'.obuff ((st.sRef i).offset + j) = (st.refBytes (st.sRef i)).getD j 0) ∧
      (∀ j, (∀ i, r ≤ i → (st.sRef i).offset ≠ 0 →
        j < (st.sRef i).offset ∨ (st.sRef i).offset + encodeLength (st.sRef i).instrId ≤ j) → st'.obuff j = st.obuff j) := by
  intro k
  induction k with
  | zero =>
    intro r st st' hi hr h
    obtain rfl := Except.ok.inj h
    refine ⟨rfl, rfl, rfl, fun i hri hoff => ?_, fun j _ => rfl⟩
    have := hi.limit i hoff
    omega
  | succ k ih =>
    intro r st st' hi hr h
    rcases resolveLoop_succ h with ⟨hoff, rfl⟩ | ⟨hoff, hsym, h⟩
    · refine ⟨rfl, rfl, rfl, fun i hri hne => absurd hoff (hi.packed i hne r hri), fun j _ => rfl⟩
    · obtain ⟨htable, hooffset, horigin, hresolved, hframe⟩ := ih (r + 1) _ st' (hi.patch r) (by omega) h
      have hsame : ∀ i, r < i → (st.patch r).sRef i = st.sRef i := fun i hri => setAt_ne _ _ (Nat.ne_of_gt hri)
      have hlen : (st.refBytes (st.sRef r)).length = encodeLength (st.sRef r).instrId := length_encodeBytes _ _ _ _ _
      refine ⟨htable, hooffset, horigin, fun i hri hne => ?_, fun j hj => ?_⟩
      · rcases Nat.lt_or_eq_of_le hri with hlt | rfl
        · have hi' := hresolved i hlt (hsame i hlt ▸ hne)
          rw [hsame i hlt] at hi'
          exact hi'
        · refine ⟨hsym, fun j hj => ?_⟩
          have hout : st'.obuff ((st.sRef r).offset + j) = (st.patch r).obuff ((st.sRef r).offset + j) := by
            refine hframe _ fun i hri hne => ?_
            rw [hsame i hri] at hne ⊢
            rcases hi.apart r i (Nat.ne_of_lt hri) hoff hne with hap | hap
            · left
              omega
            · right
              omega
          rw [hout]
          refine (Mem.store_of_mem _ (Nat.le_add_right _ _) (by rw [hlen]; omega)).trans ?_
          rw [Nat.add_sub_cancel_left]
      · have hrest : st'.obuff j = (st.patch r).obuff j := hframe j fun i hri hne => by
          rw [hsame i hri] at hne ⊢
          exact hj i (Nat.le_of_lt hri) hne
        rw [hrest]
        exact Mem.store_of_not_mem _ (by rw [hlen]; exact hj r (Nat.le_refl r) hoff)

/-! ## References of a program -/

/-- What `main` leaves: the state after the lines of the source, with each reference resolved and the other bytes as they were. -/
theorem asmMain_resolved {file : List UInt8} {st' : Asm} (h : asmMain file = .ok st') :
    ∃ st, asmLines asmInit (sourceLines file) = .ok st ∧ AsmInv st ∧ st'.sTable = st.sTable ∧ st'.ooffset = st.ooffset ∧
      st'.cgOrigin = st.cgOrigin ∧
      (∀ i, (st.sRef i).offset ≠ 0 → (st.sRef i).symbol < sMax ∧
        ∀ j < encodeLength (st.sRef i).instrId,
          st'.obuff ((st.sRef i).offset + j) = (st.refBytes (st.sRef i)).getD j 0) ∧
      (∀ j, (∀ i, (st.sRef i).offset ≠ 0 →
        j < (st.sRef i).offset ∨ (st.sRef i).offset + encodeLength (st.sRef i).instrId ≤ j) → st'.obuff j = st.obuff j) := by
  unfold asmMain at h
  obtain ⟨st, hloop, h⟩ := except_bind_eq_ok h
  have hlines := (asmLoop_lines file (file.length + 1) asmInit 0).1 st hloop
  have hinv := (asmLines_inv _ _ _ asmInit_inv hlines).1
  refine ⟨st, hlines, hinv, ?_⟩
  by_cases hzero : st.ooffset ≠ 0
  · rw [if_pos hzero] at h
    obtain ⟨h1, h2, h3, h4, h5⟩ := resolveLoop_eq_ok sMaxRef 0 st st' hinv (Nat.zero_add _) h
    exact ⟨h1, h2, h3, fun i hi => h4 i (Nat.zero_le i) hi, fun j hj => h5 j fun i _ hi => hj i hi⟩
  · rw [if_neg hzero] at h
    obtain rfl := Except.ok.inj h
    refine ⟨rfl, rfl, rfl, fun i hi => ?_, fun _ _ => rfl⟩
    have hin := hinv.inside i hi
    omega

/-- The bytes of the references that `main` leaves. -/
theorem asmMain_eq_ok {file : List UInt8} {st' : Asm} (h : asmMain file = .ok st') :
    ∃ st, asmLines asmInit (sourceLines file) = .ok st ∧ AsmInv st ∧ st'.sTable = st.sTable ∧ st'.ooffset = st.ooffset ∧
      st'.cgOrigin = st.cgOrigin ∧
      ∀ i, (st.sRef i).offset ≠ 0 → (st.sRef i).symbol < sMax ∧
        ∀ j < encodeLength (st.sRef i).instrId,
          st'.obuff ((st.sRef i).offset + j) = (st.refBytes (st.sRef i)).getD j 0 := by
  obtain ⟨st, hlines, hinv, htable, hoffset, horigin, hrefs, -⟩ := asmMain_resolved h
  exact ⟨st, hlines, hinv, htable, hoffset, horigin, hrefs⟩

end NanoS32
