import NanoS32.Lemmas.Resolve

/-!
# The resolution is confined

The resolution of the references encodes instructions of the first pass again, each at the offset it had. As the length of an
instruction does not depend on its operands, everything else stays where it was and what it was.
-/

namespace NanoS32

/-- A line of a program, with the states before and after it in the first pass. -/
def LineOf (file : List UInt8) (line : List CStr) (st₀ st₁ : Asm) : Prop :=
  ∃ before after, sourceLines file = before ++ line :: after ∧ asmLines asmInit before = .ok st₀ ∧ asmLine st₀ line = .ok st₁

/-- What the resolution may do to the output, between the state after the first pass and the one at the end. -/
structure Confined (file : List UInt8) (st st' : Asm) : Prop where
  /-- A reference is to the instruction of one line. With any operands and in any buffer that takes the bytes of this line. -/
  length : ∀ r, (st.sRef r).offset ≠ 0 → ∃ line st₀ st₁, LineOf file line st₀ st₁ ∧ st₀.ooffset = (st.sRef r).offset ∧
    ∀ cgOrigin buffer op0 op1,
      (encodeInstruction cgOrigin buffer (st.sRef r).offset (st.sRef r).instrId op0 op1).2 = st₁.ooffset ∧
        ∀ j, j < st₀.ooffset ∨ st₁.ooffset ≤ j →
          (encodeInstruction cgOrigin buffer (st.sRef r).offset (st.sRef r).instrId op0 op1).1 j = buffer j
  /-- Two references do not overlap. -/
  apart : ∀ r r', r ≠ r' → (st.sRef r).offset ≠ 0 → (st.sRef r').offset ≠ 0 →
    (st.sRef r).offset + encodeLength (st.sRef r).instrId ≤ (st.sRef r').offset ∨
      (st.sRef r').offset + encodeLength (st.sRef r').instrId ≤ (st.sRef r).offset
  /-- What another line has written is there at the end. -/
  others : ∀ line st₀ st₁, LineOf file line st₀ st₁ → (∀ r, (st.sRef r).offset ≠ 0 → (st.sRef r).offset ≠ st₀.ooffset) →
    ∀ j, st₀.ooffset ≤ j → j < st₁.ooffset → st'.obuff j = st₁.obuff j
  /-- Outside the references nothing changes. -/
  rest : ∀ j, (∀ r, (st.sRef r).offset ≠ 0 →
    j < (st.sRef r).offset ∨ (st.sRef r).offset + encodeLength (st.sRef r).instrId ≤ j) → st'.obuff j = st.obuff j
  symbols : st'.sTable = st.sTable
  size : st'.ooffset = st.ooffset

/-! ## The first pass -/

/-- A line writes behind the output that there is. -/
theorem asmLine_obuff {st st' : Asm} {tokv : List CStr} (hst : st.ooffset ≤ obuffSize) (h : asmLine st tokv = .ok st') :
    ∀ j < st.ooffset, st'.obuff j = st.obuff j := by
  have happend : ∀ (st : Asm) (bytes : List UInt8), ∀ j < st.ooffset, (st.append bytes).obuff j = st.obuff j :=
    fun st bytes j hj => Mem.store_of_not_mem _ (Or.inl hj)
  have hsymbol : ∀ {st st' : Asm} {name : CStr} {type : SType}, defineSymbol st name type = .ok st' →
      st'.obuff = st.obuff ∧ st'.ooffset = st.ooffset := by
    intro st st' name type h
    obtain ⟨T, s, -, -, rfl⟩ := defineSymbol_eq_ok h
    exact ⟨rfl, rfl⟩
  have hdata : ∀ {type : SType} {name : CStr} {values : List CStr}, dataLine st type name values = .ok st' →
      ∀ j < st.ooffset, st'.obuff j = st.obuff j := by
    intro type name values h j hj
    unfold dataLine at h
    obtain ⟨st₁, h₁, h⟩ := except_bind_eq_ok h
    obtain ⟨hobuff, hoffset⟩ := hsymbol h₁
    rw [dataLoop_eq _ _ _ (hoffset ▸ hst)] at h
    split_ifs at h
    rw [← Except.ok.inj h, happend st₁ _ j (hoffset ▸ hj), hobuff]
  cases tokv with
  | nil =>
    obtain rfl := Except.ok.inj h
    exact fun _ _ => rfl
  | cons name toks =>
    unfold asmLine at h
    dsimp only at h
    split_ifs at h
    · obtain rfl := Except.ok.inj h
      exact fun _ _ => rfl
    · exact fun j _ => congrFun (hsymbol h).1 j
    · exact hdata h
    · exact hdata h
    · exact hdata h
    · unfold instructionLine at h
      obtain ⟨v, -, h⟩ := except_bind_eq_ok h
      obtain ⟨id, -, -, rfl⟩ := emitInstruction_eq_ok h
      exact fun j hj => happend { st with sTable := v.sTable, sRef := refsAfter st v id } _ j hj

/-- The lines after a state write behind the output that there is, and their references are to what they write. -/
theorem asmLines_behind : ∀ (lines : List (List CStr)) (st st' : Asm), AsmInv st → asmLines st lines = .ok st' →
    (∀ j < st.ooffset, st'.obuff j = st.obuff j) ∧
      ∀ r, st'.sRef r = st.sRef r ∨ st.ooffset ≤ (st'.sRef r).offset := by
  intro lines
  induction lines with
  | nil =>
    intro st st' _ h
    obtain rfl := Except.ok.inj h
    exact ⟨fun _ _ => rfl, fun _ => Or.inl rfl⟩
  | cons line lines ih =>
    intro st st' hi h
    rw [asmLines_cons] at h
    obtain ⟨st₁, h₁, h⟩ := except_bind_eq_ok h
    have hstep := asmLine_step hi.bound h₁
    obtain ⟨hobuff, hrefs⟩ := ih st₁ st' (hi.step hstep) h
    refine ⟨fun j hj => (hobuff j (Nat.lt_of_lt_of_le hj hstep.grows)).trans (asmLine_obuff hi.bound h₁ j hj), fun r => ?_⟩
    rcases hrefs r with heq | hbehind
    · by_cases hsame : st₁.sRef r = st.sRef r
      · exact Or.inl (heq.trans hsame)
      · right
        rw [heq, (hstep.fresh r hsame).2.1]
    · exact Or.inr (Nat.le_trans hstep.grows hbehind)

/-- A reference that some lines add is to the instruction of one of them. -/
theorem asmLines_ref : ∀ (lines : List (List CStr)) (st st' : Asm), AsmInv st → asmLines st lines = .ok st' →
    ∀ r, (st'.sRef r).offset ≠ 0 → st'.sRef r ≠ st.sRef r →
      ∃ before line after st₀ st₁, lines = before ++ line :: after ∧ asmLines st before = .ok st₀ ∧ asmLine st₀ line = .ok st₁ ∧
        st₀.ooffset = (st'.sRef r).offset ∧ (st'.sRef r).offset + encodeLength (st'.sRef r).instrId = st₁.ooffset := by
  intro lines
  induction lines with
  | nil =>
    intro st st' _ h r _ hne
    obtain rfl := Except.ok.inj h
    exact absurd rfl hne
  | cons line lines ih =>
    intro st st' hi h r hoff hne
    rw [asmLines_cons] at h
    obtain ⟨st₁, h₁, h⟩ := except_bind_eq_ok h
    have hstep := asmLine_step hi.bound h₁
    by_cases hlater : st'.sRef r = st₁.sRef r
    · have hfresh : st₁.sRef r ≠ st.sRef r := fun heq => hne (hlater.trans heq)
      obtain ⟨-, hoffset, -, hlen⟩ := hstep.fresh r hfresh
      refine ⟨[], line, lines, st, st₁, rfl, rfl, h₁, ?_, ?_⟩
      · rw [hlater, hoffset]
      · rw [hlater, hoffset]
        exact hlen
    · obtain ⟨before, l, after, st₀, st₂, rfl, hbefore, hrest⟩ := ih st₁ st' (hi.step hstep) h r hoff hlater
      refine ⟨line :: before, l, after, st₀, st₂, rfl, ?_, hrest⟩
      rw [asmLines_cons, h₁]
      exact hbefore

/-! ## The resolution -/

/-- The resolution changes nothing but the bytes of the references, and each of them takes the bytes that it took. -/
theorem resolution_confined {file : List UInt8} {st' : Asm} (hok : asmMain file = .ok st') :
    ∃ st, asmLines asmInit (sourceLines file) = .ok st ∧ Confined file st st' := by
  obtain ⟨st, hlines, hinv, htable, hoffset, -, -, hframe⟩ := asmMain_resolved hok
  refine ⟨st, hlines, ⟨fun r hr => ?_, hinv.apart, ?_, hframe, htable, hoffset⟩⟩
  · have hnew : st.sRef r ≠ asmInit.sRef r := fun heq => hr (heq ▸ rfl)
    obtain ⟨before, line, after, st₀, st₁, hsplit, hbefore, hline, hstart, hend⟩ :=
      asmLines_ref _ _ _ asmInit_inv hlines r hr hnew
    refine ⟨line, st₀, st₁, ⟨before, after, hsplit, hbefore, hline⟩, hstart, fun cgOrigin buffer op0 op1 => ?_⟩
    have hlen := length_encodeBytes cgOrigin (st.sRef r).offset (st.sRef r).instrId op0 op1
    refine ⟨?_, fun j hj => ?_⟩
    · rw [← hend, ← hlen]
      rfl
    · refine Mem.store_of_not_mem _ ?_
      rw [hlen]
      omega
  · rintro line st₀ st₁ ⟨before, after, hsplit, hbefore, hline⟩ hother j hge hlt
    rw [hsplit, asmLines_append, hbefore] at hlines
    obtain ⟨st₂, h₂, hafter⟩ := except_bind_eq_ok ((asmLines_cons st₀ line after).symm.trans hlines)
    obtain rfl : st₁ = st₂ := Except.ok.inj (hline.symm.trans h₂)
    have hinv₀ := (asmLines_inv _ _ _ asmInit_inv hbefore).1
    have hstep := asmLine_step hinv₀.bound hline
    obtain ⟨hobuff, hrefs⟩ := asmLines_behind after st₁ st (hinv₀.step hstep) hafter
    rw [← hobuff j hlt]
    refine hframe j fun r hr => ?_
    rcases hrefs r with heq | hbehind
    · by_cases hsame : st₁.sRef r = st₀.sRef r
      · have hin := hinv₀.inside r (hsame ▸ heq ▸ hr)
        rw [heq, hsame]
        exact Or.inr (Nat.le_trans hin hge)
      · refine absurd ?_ (hother r hr)
        rw [heq]
        exact (hstep.fresh r hsame).2.1
    · exact Or.inl (Nat.lt_of_lt_of_le hlt hbehind)

theorem resolution_confined_sample : ∃ st' st, asmMain (ascii "ret\nx dd 5\nmov eax x\n") = .ok st' ∧
    asmLines asmInit (sourceLines (ascii "ret\nx dd 5\nmov eax x\n")) = .ok st ∧ (st.sRef 0).offset = 5 ∧
      Confined (ascii "ret\nx dd 5\nmov eax x\n") st st' := by
  obtain ⟨st', hok, -⟩ := exists_ok_of_any (x := asmMain (ascii "ret\nx dd 5\nmov eax x\n")) (p := fun _ => true)
    (by decide +kernel)
  obtain ⟨st₂, hst₂, hp⟩ := exists_ok_of_any (x := asmLines asmInit (sourceLines (ascii "ret\nx dd 5\nmov eax x\n")))
    (p := fun st => (st.sRef 0).offset = 5) (by decide +kernel)
  obtain ⟨st, hst, hconf⟩ := resolution_confined hok
  obtain rfl : st₂ = st := Except.ok.inj (hst₂.symm.trans hst)
  exact ⟨st', st₂, hok, hst, of_decide_eq_true hp, hconf⟩

end NanoS32
