import Mathlib.Data.List.TakeWhile
import NanoS32.Nas.Token

/-!
# Lines and tokens

How a line of the source file gets into the buffer, and how the text of a line is cut into its tokens: all of them when there is room,
and otherwise a last one that goes on to the end of the line.
-/

namespace NanoS32

/-! ## Lines -/

/-- A character as it is in the buffer. -/
def crToSpace (ch : UInt8) : UInt8 := if ch = 13 then 32 else ch

/-- The line of the source file at an offset that has this text: it fits the buffer, and it is ended by a newline or by the end of the
file. -/
def LineAt (file : List UInt8) (foffset : Nat) (text : CStr) : Prop :=
  ∃ raw rest, file.drop foffset = raw ++ rest ∧ raw.map crToSpace = text ∧ raw.length < fbuffSize ∧
    (∀ ch ∈ raw, ch ≠ 10 ∧ ch ≠ 0) ∧ (rest = [] ∧ raw ≠ [] ∨ rest.head? = some 10)

theorem crToSpace_ne {ch : UInt8} (h : ch ≠ 10 ∧ ch ≠ 0) : crToSpace ch ≠ 10 ∧ crToSpace ch ≠ 0 := by
  unfold crToSpace
  split_ifs
  · decide
  · exact h

theorem clampLine_newline (full : Bool) (rest : List UInt8) : ∀ raw : List UInt8, (∀ ch ∈ raw, ch ≠ 10 ∧ ch ≠ 0) →
    clampLine full (raw ++ 10 :: rest) = some (raw.map crToSpace, raw.length + 1) := by
  intro raw
  induction raw with
  | nil => exact fun _ => rfl
  | cons ch raw ih =>
    intro hraw
    obtain ⟨hch, hraw⟩ := List.forall_mem_cons.1 hraw
    have hne : raw ++ 10 :: rest ≠ [] := List.append_ne_nil_of_right_ne_nil _ (List.cons_ne_nil _ _)
    rw [List.cons_append, clampLine]
    change (if crToSpace ch = 10 then _ else _) = _
    rw [if_neg (crToSpace_ne hch).1, if_neg fun h => hne h.1, ih hraw]
    rfl

theorem clampLine_end : ∀ raw : List UInt8, raw ≠ [] → (∀ ch ∈ raw, ch ≠ 10 ∧ ch ≠ 0) →
    clampLine false raw = some (raw.map crToSpace, raw.length) := by
  intro raw
  induction raw with
  | nil => exact fun h => absurd rfl h
  | cons ch raw ih =>
    intro _ hraw
    obtain ⟨hch, hraw⟩ := List.forall_mem_cons.1 hraw
    rw [clampLine]
    change (if crToSpace ch = 10 then _ else _) = _
    rw [if_neg (crToSpace_ne hch).1]
    by_cases hend : raw = []
    · rw [if_pos ⟨hend, Bool.false_ne_true⟩, hend]
      rfl
    · rw [if_neg fun h => hend h.1, ih hend hraw]
      rfl

/-- Such a line is read. -/
theorem LineAt.readLine {file : List UInt8} {foffset : Nat} {text : CStr} (h : LineAt file foffset text) :
    ∃ next, readLine file foffset = .ok (text, next) := by
  obtain ⟨raw, rest, hfile, rfl, hfit, hraw, hend⟩ := h
  have htext : (raw.map crToSpace).takeWhile (· ≠ 0) = raw.map crToSpace := by
    refine List.takeWhile_eq_self_iff.2 fun ch hch => ?_
    obtain ⟨ch', hch', rfl⟩ := List.mem_map.1 hch
    exact decide_eq_true (crToSpace_ne (hraw ch' hch')).2
  unfold NanoS32.readLine
  dsimp only
  rw [hfile]
  rcases hend with ⟨rfl, hne⟩ | hnewline
  · rw [List.append_nil, List.take_of_length_le (Nat.le_of_lt hfit), if_neg hne]
    have hfull : decide (raw.length = fbuffSize) = false := decide_eq_false (Nat.ne_of_lt hfit)
    rw [hfull, clampLine_end raw hne hraw]
    exact ⟨foffset + raw.length, congrArg (fun line => Except.ok (line, foffset + raw.length)) htext⟩
  · obtain ⟨rest', rfl⟩ : ∃ rest', rest = 10 :: rest' := by
      cases rest with
      | nil => cases hnewline
      | cons ch rest' => exact ⟨rest', by rw [Option.some.inj hnewline]⟩
    obtain ⟨rest'', hbuff⟩ : ∃ rest'', (raw ++ 10 :: rest').take fbuffSize = raw ++ 10 :: rest'' := by
      obtain ⟨m, hm⟩ : ∃ m, fbuffSize = raw.length + (m + 1) := ⟨fbuffSize - raw.length - 1, by omega⟩
      rw [hm, List.take_length_add_append]
      exact ⟨rest'.take m, rfl⟩
    rw [hbuff, if_neg (List.append_ne_nil_of_right_ne_nil _ (List.cons_ne_nil _ _)), clampLine_newline _ _ raw hraw]
    exact ⟨foffset + (raw.length + 1), congrArg (fun line => Except.ok (line, foffset + (raw.length + 1))) htext⟩

/-! ## Tokens -/

/-- A character of a token. -/
def isTokenChar (ch : UInt8) : Bool := !isSeparator ch && ch != semicolon

/-- A token with the separators before it. -/
structure SpacedToken where
  gap : CStr
  token : CStr
  isGap : ∀ ch ∈ gap, isSeparator ch = true
  nonempty : token ≠ []
  isToken : ∀ ch ∈ token, isTokenChar ch = true

/-- What is behind the last token of a line: separators, and a comment. -/
def IsTail (tail : CStr) : Prop :=
  ∃ gap comment, tail = gap ++ comment ∧ (∀ ch ∈ gap, isSeparator ch = true) ∧ (comment = [] ∨ comment.head? = some semicolon)

/-- The text of a line. -/
def lineText : List SpacedToken → CStr → CStr
  | [], tail => tail
  | t :: ts, tail => t.gap ++ (t.token ++ lineText ts tail)

/-- A token ends before this text. -/
def EndsToken (rest : CStr) : Prop := ∀ ch ∈ rest.head?, isTokenChar ch = false

theorem not_isTokenChar {ch : UInt8} (h : isSeparator ch = true) : isTokenChar ch = false := by
  unfold isTokenChar
  rw [h]
  rfl

theorem not_isSeparator {ch : UInt8} (h : isTokenChar ch = true) : ¬isSeparator ch = true := fun hsep =>
  Bool.false_ne_true ((not_isTokenChar hsep).symm.trans h)

theorem endsToken_gap {gap : CStr} (hgap : ∀ ch ∈ gap, isSeparator ch = true) (hne : gap ≠ []) (rest : CStr) :
    EndsToken (gap ++ rest) := by
  cases gap with
  | nil => exact absurd rfl hne
  | cons ch gap =>
    intro ch' hch'
    obtain rfl : ch = ch' := Option.some.inj hch'
    exact not_isTokenChar (hgap ch List.mem_cons_self)

theorem IsTail.ends {tail : CStr} (h : IsTail tail) : EndsToken tail := by
  obtain ⟨gap, comment, rfl, hgap, hcomment⟩ := h
  cases gap with
  | nil =>
    intro ch hch
    rw [List.nil_append] at hch
    rcases hcomment with rfl | hsemi
    · cases hch
    · obtain rfl : semicolon = ch := Option.some.inj (hsemi.symm.trans hch)
      decide
  | cons ch gap => exact endsToken_gap hgap (List.cons_ne_nil _ _) comment

/-- The separators and the comment at the end of a line give no token. -/
theorem IsTail.tokens {tail : CStr} (h : IsTail tail) (room : Nat) : tokenizeLine room tail = [] := by
  obtain ⟨gap, comment, rfl, hgap, hcomment⟩ := h
  cases room with
  | zero => rfl
  | succ room =>
    have hdrop : (gap ++ comment).dropWhile isSeparator = comment := by
      rw [List.dropWhile_append_of_pos hgap]
      rcases hcomment with rfl | hsemi
      · rfl
      · cases comment with
        | nil => rfl
        | cons ch comment =>
          obtain rfl : ch = semicolon := Option.some.inj hsemi
          rfl
    have htoken : comment.takeWhile isTokenChar = [] := by
      rcases hcomment with rfl | hsemi
      · rfl
      · cases comment with
        | nil => rfl
        | cons ch comment =>
          obtain rfl : ch = semicolon := Option.some.inj hsemi
          rfl
    rw [tokenizeLine, hdrop]
    exact if_pos htoken

/-- A token is cut off, or it is the last one that there is room for. -/
theorem tokenizeLine_succ (room : Nat) (t : SpacedToken) {rest : CStr} (hrest : EndsToken rest) :
    tokenizeLine (room + 1) (t.gap ++ (t.token ++ rest)) =
      (if room = 0 then t.token ++ rest else t.token) :: tokenizeLine room rest := by
  have hdrop : (t.gap ++ (t.token ++ rest)).dropWhile isSeparator = t.token ++ rest := by
    rw [List.dropWhile_append_of_pos t.isGap]
    cases htoken : t.token with
    | nil => exact absurd htoken t.nonempty
    | cons ch token =>
      exact List.dropWhile_cons_of_neg (not_isSeparator (t.isToken ch (htoken ▸ List.mem_cons_self)))
  have htake : (t.token ++ rest).takeWhile isTokenChar = t.token := by
    rw [List.takeWhile_append_of_pos t.isToken]
    cases rest with
    | nil => exact List.append_nil _
    | cons ch rest =>
      rw [List.takeWhile_cons_of_neg (by rw [hrest ch rfl]; exact Bool.false_ne_true), List.append_nil]
  rw [tokenizeLine, hdrop]
  change (if (t.token ++ rest).takeWhile isTokenChar = [] then _ else
    (if room = 0 then t.token ++ rest else (t.token ++ rest).takeWhile isTokenChar) ::
      tokenizeLine room ((t.token ++ rest).drop ((t.token ++ rest).takeWhile isTokenChar).length)) = _
  rw [htake, if_neg t.nonempty, List.drop_left]

/-- What is behind a token ends it, when the next token has separators before it. -/
theorem lineText_ends {tail : CStr} (htail : IsTail tail) {t : SpacedToken} {ts : List SpacedToken}
    (hgaps : ∀ u ∈ (t :: ts).drop 1, u.gap ≠ []) : EndsToken (lineText ts tail) := by
  cases ts with
  | nil => exact htail.ends
  | cons u ts => exact endsToken_gap u.isGap (hgaps u List.mem_cons_self) _

/-- The tokens of a line that there is room for. -/
theorem tokenizeLine_fits {tail : CStr} (htail : IsTail tail) : ∀ (ts : List SpacedToken) (room : Nat),
    (∀ t ∈ ts.drop 1, t.gap ≠ []) → ts.length < room → tokenizeLine room (lineText ts tail) = ts.map SpacedToken.token := by
  intro ts
  induction ts with
  | nil => exact fun room _ _ => htail.tokens room
  | cons t ts ih =>
    intro room hgaps hlt
    obtain ⟨room, rfl⟩ : ∃ m, room = m + 1 := Nat.exists_eq_succ_of_ne_zero (by omega)
    rw [List.length_cons] at hlt
    rw [lineText, tokenizeLine_succ room t (lineText_ends htail hgaps), if_neg (by omega), List.map_cons]
    exact congrArg _ (ih room (fun u hu => hgaps u (List.mem_of_mem_drop hu)) (by omega))

/-- The tokens of a line when they take all of the room: the last one goes on to the end of the line. -/
theorem tokenizeLine_full {tail : CStr} (htail : IsTail tail) (t : SpacedToken) (us : List SpacedToken) :
    ∀ (ts : List SpacedToken) (room : Nat), (∀ u ∈ (ts ++ t :: us).drop 1, u.gap ≠ []) → ts.length + 1 = room →
    tokenizeLine room (lineText (ts ++ t :: us) tail) = ts.map SpacedToken.token ++ [t.token ++ lineText us tail] := by
  intro ts
  induction ts with
  | nil =>
    intro room hgaps hroom
    obtain rfl : room = 0 + 1 := hroom.symm
    have hends : EndsToken (lineText us tail) := lineText_ends (t := t) htail hgaps
    rw [List.nil_append, lineText, tokenizeLine_succ 0 t hends, if_pos rfl]
    rfl
  | cons u ts ih =>
    intro room hgaps hroom
    obtain rfl : room = ts.length + 1 + 1 := hroom.symm
    have hends : EndsToken (lineText (ts ++ t :: us) tail) := lineText_ends (t := u) htail hgaps
    rw [List.cons_append, lineText, tokenizeLine_succ _ u hends, if_neg (Nat.succ_ne_zero _), List.map_cons,
      List.cons_append]
    exact congrArg _ (ih (ts.length + 1) (fun w hw => hgaps w (List.mem_of_mem_drop hw)) rfl)

end NanoS32
