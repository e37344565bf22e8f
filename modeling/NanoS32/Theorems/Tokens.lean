import NanoS32.Ulib.Strtok
import NanoS32.Lemmas.Mem

/-!
# The tokens of a string

The loop over `strtok` finds the maximal runs of characters that are not delimiters. What it relies on from one call to the next is
that the string is as it was, with the delimiters before the next token cleared.
-/

namespace NanoS32

/-- The characters of a string, and the 0 at its end. -/
abbrev CStr.at (str : CStr) (i : Nat) : UInt8 := str.getD i 0

/-- A maximal run of characters that are not delimiters starts at index `i`. -/
def RunStart (delim : UInt8) (str : CStr) (i : Nat) : Prop := str.at i ≠ delim ∧ (i = 0 ∨ str.at (i - 1) = delim)

instance (delim : UInt8) (str : CStr) (i : Nat) : Decidable (RunStart delim str i) := inferInstanceAs (Decidable (_ ∧ _))

/-- The indices where the maximal runs start, in order. -/
def runStarts (delim : UInt8) (str : CStr) : List Nat := (List.range str.length).filter (RunStart delim str)

/-- The run that starts at an index. -/
def runAt (delim : UInt8) (str : CStr) (i : Nat) : CStr := (str.drop i).takeWhile (· != delim)

/-! ## One call -/

/-- The memory with the delimiters among the first `q` characters of the string at `p` cleared. -/
def Mem.cleared (m : Mem) (p : Nat) (delim : UInt8) (q : Nat) : Mem := fun j => if p ≤ j ∧ j < p + q ∧ m j = delim then 0 else m j

namespace Mem

variable {m : Mem} {p : Nat} {str : CStr} {delim : UInt8}

theorem cleared_behind (m : Mem) (p : Nat) (delim : UInt8) {q j : Nat} (h : p + q ≤ j) : m.cleared p delim q j = m j :=
  if_neg (by omega)

/-- A delimiter more is cleared. -/
theorem cleared_delim {q : Nat} (h : m (p + q) = delim) : (m.cleared p delim q).set (p + q) 0 = m.cleared p delim (q + 1) := by
  funext j
  by_cases hj : j = p + q
  · rw [hj, set_self, cleared, if_pos ⟨by omega, by omega, h⟩]
  · rw [set_ne _ _ hj, cleared, cleared]
    refine if_congr ?_ rfl rfl
    rw [show j < p + (q + 1) ↔ j < p + q by omega]

/-- A character that is not a delimiter stays. -/
theorem cleared_char {q : Nat} (h : m (p + q) ≠ delim) : m.cleared p delim (q + 1) = m.cleared p delim q := by
  funext j
  rw [cleared, cleared]
  refine if_congr ?_ rfl rfl
  constructor
  · rintro ⟨h1, h2, h3⟩
    refine ⟨h1, ?_, h3⟩
    by_contra hge
    obtain rfl : j = p + q := by omega
    exact h h3
  · rintro ⟨h1, h2, h3⟩
    exact ⟨h1, by omega, h3⟩

theorem HasStr.char (h : m.HasStr p str) {i : Nat} (hi : i ≤ str.length) : m (p + i) = str.at i := h.2 i hi

/-- The only 0 is at the end. -/
theorem HasStr.at_eq_zero (h : m.HasStr p str) {i : Nat} (hi : i ≤ str.length) : str.at i = 0 ↔ i = str.length := by
  rw [CStr.at]
  constructor
  · intro h0
    by_contra hne
    have hlt : i < str.length := by omega
    rw [List.getD_eq_getElem _ _ hlt] at h0
    exact h.1 (h0 ▸ List.getElem_mem hlt)
  · rintro rfl
    exact List.getD_eq_default _ _ (Nat.le_refl _)

variable (delim) in
/-- The first loop of `strtok` clears the delimiters up to the next character, or to the end of the string. -/
theorem skipLoop_run (h : m.HasStr p str) : ∀ (fuel q : Nat), q ≤ str.length → str.length - q < fuel →
    (q < str.length ∨ delim ≠ 0) → ∃ k, q ≤ k ∧ k ≤ str.length ∧ (∀ i, q ≤ i → i < k → str.at i = delim) ∧
      (k < str.length → str.at k ≠ delim) ∧
      skipLoop delim fuel (m.cleared p delim q) (p + q) = some (m.cleared p delim k, p + k) := by
  intro fuel
  induction fuel with
  | zero => exact fun q _ hfuel => absurd hfuel (Nat.not_lt_zero _)
  | succ fuel ih =>
    intro q hq hfuel hne
    have hchar : m.cleared p delim q (p + q) = str.at q := by rw [cleared_behind _ _ _ (Nat.le_refl _), h.char hq]
    by_cases hd : str.at q = delim
    · have hlt : q < str.length := by
        rcases hne with hlt | hdelim
        · exact hlt
        · refine Nat.lt_of_le_of_ne hq fun hend => hdelim ?_
          rw [← hd]
          exact (h.at_eq_zero hq).2 hend
      have hdelim : delim ≠ 0 := by
        rintro rfl
        rw [h.at_eq_zero hq] at hd
        omega
      obtain ⟨k, h1, h2, h3, h4, hrun⟩ := ih (q + 1) hlt (by omega) (Or.inr hdelim)
      refine ⟨k, by omega, h2, fun i hi hik => ?_, h4, ?_⟩
      · by_cases hiq : i = q
        · rw [hiq, hd]
        · exact h3 i (by omega) hik
      · rw [skipLoop, hchar, if_pos hd, cleared_delim ((h.char hq).trans hd)]
        exact hrun
    · refine ⟨q, Nat.le_refl q, hq, fun i h1 h2 => by omega, fun _ => hd, ?_⟩
      rw [skipLoop, hchar, if_neg hd]

variable (delim) in
/-- The second loop clears the delimiter behind the token, if there is one. -/
theorem endLoop_run (h : m.HasStr p str) : ∀ (fuel q : Nat), q ≤ str.length → str.length - q < fuel →
    ∃ e, q ≤ e ∧ e ≤ str.length ∧ (∀ i, q ≤ i → i < e → str.at i ≠ delim) ∧ (e < str.length → str.at e = delim) ∧
      endLoop delim fuel (m.cleared p delim q) (p + q) =
        some (m.cleared p delim (min (e + 1) str.length), p + min (e + 1) str.length) := by
  intro fuel
  induction fuel with
  | zero => exact fun q _ hfuel => absurd hfuel (Nat.not_lt_zero _)
  | succ fuel ih =>
    intro q hq hfuel
    have hchar : m.cleared p delim q (p + q) = str.at q := by rw [cleared_behind _ _ _ (Nat.le_refl _), h.char hq]
    rw [endLoop, hchar]
    by_cases hend : q = str.length
    · refine ⟨q, Nat.le_refl q, hq, fun i h1 h2 => by omega, fun hlt => by omega, ?_⟩
      rw [if_pos ((h.at_eq_zero hq).2 hend), Nat.min_eq_right (by omega), ← hend]
    · rw [if_neg fun h0 => hend ((h.at_eq_zero hq).1 h0)]
      by_cases hd : str.at q = delim
      · refine ⟨q, Nat.le_refl q, hq, fun i h1 h2 => by omega, fun _ => hd, ?_⟩
        rw [if_pos hd, cleared_delim ((h.char hq).trans hd), Nat.min_eq_left (by omega)]
        rfl
      · obtain ⟨e, h1, h2, h3, h4, hrun⟩ := ih (q + 1) (by omega) (by omega)
        refine ⟨e, by omega, h2, fun i hi hie => ?_, h4, ?_⟩
        · by_cases hiq : i = q
          · rw [hiq]
            exact hd
          · exact h3 i (by omega) hie
        · rw [if_neg hd, ← cleared_char fun heq => hd ((h.char hq).symm.trans heq)]
          exact hrun

/-- What a call of `strtok` at index `q` does: it passes the delimiters up to index `k`, and the token ends at index `e`. -/
structure TokenAt (delim : UInt8) (str : CStr) (q k e : Nat) : Prop where
  start : q ≤ k
  stop : k ≤ e
  inside : e ≤ str.length
  skipped : ∀ i, q ≤ i → i < k → str.at i = delim
  first : k < str.length → str.at k ≠ delim
  chars : ∀ i, k ≤ i → i < e → str.at i ≠ delim
  last : e < str.length → str.at e = delim

variable (delim) in
theorem strtok_run (h : m.HasStr p str) {fuel q : Nat} (hq : q < str.length) (hfuel : str.length < fuel) :
    ∃ k e, TokenAt delim str q k e ∧ (m.cleared p delim q).strtok fuel (p + q) delim =
      some (m.cleared p delim (min (e + 1) str.length), p + k, p + min (e + 1) str.length) := by
  obtain ⟨k, h1, h2, h3, h4, hskip⟩ := skipLoop_run delim h fuel q (by omega) (by omega) (Or.inl hq)
  obtain ⟨e, h5, h6, h7, h8, hend⟩ := endLoop_run delim h fuel k h2 (by omega)
  refine ⟨k, e, ⟨h1, h5, h6, h3, h4, h7, h8⟩, ?_⟩
  rw [strtok, hskip]
  change (endLoop delim fuel (m.cleared p delim k) (p + k) >>= _) = _
  rw [hend]
  rfl

end Mem

/-- The part of a list that a test holds for, from its length. -/
theorem takeWhile_eq_take {α : Type} {test : α → Bool} : ∀ {l : List α} {k : Nat}, k ≤ l.length →
    (∀ i (hi : i < l.length), i < k → test l[i] = true) → (∀ hk : k < l.length, test l[k] = false) →
      l.takeWhile test = l.take k
  | [], k, _, _, _ => by rw [List.take_nil, List.takeWhile_nil]
  | a :: l, 0, _, _, hstop => by
    have ha : test a = false := hstop (Nat.succ_pos _)
    rw [List.take_zero, List.takeWhile_cons_of_neg (by rw [ha]; exact Bool.false_ne_true)]
  | a :: l, k + 1, hk, hall, hstop => by
    have ha : test a = true := hall 0 (Nat.succ_pos _) (Nat.succ_pos _)
    rw [List.take_succ_cons, List.takeWhile_cons_of_pos ha]
    congr 1
    refine takeWhile_eq_take (Nat.le_of_succ_le_succ hk) (fun i hi hik => ?_) fun hlt => ?_
    · exact hall (i + 1) (Nat.succ_lt_succ hi) (Nat.succ_lt_succ hik)
    · exact hstop (Nat.succ_lt_succ hlt)

/-- The run at an index, from its end. -/
theorem runAt_eq {delim : UInt8} {str : CStr} {i e : Nat} (hie : i ≤ e) (he : e ≤ str.length)
    (hchars : ∀ j, i ≤ j → j < e → str.at j ≠ delim) (hlast : e < str.length → str.at e = delim) :
    runAt delim str i = (str.take e).drop i := by
  have hat : ∀ j (hj : j < str.length), str.at j = str[j] := fun j hj => List.getD_eq_getElem _ _ hj
  rw [runAt, show str.take e = str.take (i + (e - i)) by congr 1; omega, ← List.take_drop]
  refine takeWhile_eq_take ?_ (fun j hj hje => ?_) fun hj => ?_
  · rw [List.length_drop]
    omega
  · rw [List.length_drop] at hj
    rw [List.getElem_drop, ← hat (i + j) (by omega)]
    exact bne_iff_ne.2 (hchars (i + j) (by omega) (by omega))
  · rw [List.length_drop] at hj
    rw [List.getElem_drop, ← hat (i + (e - i)) (by omega), show i + (e - i) = e by omega, hlast (by omega)]
    exact bne_self_eq_false delim

/-- What `strtok` finds in a string, taken as a list. -/
theorem Mem.TokenAt.strtok_eq {delim : UInt8} {str : CStr} {k e : Nat} (h : Mem.TokenAt delim str 0 k e) :
    NanoS32.strtok str delim = (k, (str.take e).drop k, str.drop (e + 1)) := by
  have hstop := h.stop
  have hinside := h.inside
  have hat : ∀ i (hi : i < str.length), str.at i = str[i] := fun i hi => List.getD_eq_getElem _ _ hi
  have hskip : str.takeWhile (· == delim) = str.take k := by
    refine takeWhile_eq_take (by omega) (fun i hi hik => ?_) fun hk => ?_
    · rw [← hat i hi, h.skipped i (Nat.zero_le _) hik, beq_self_eq_true]
    · rw [← hat k hk]
      exact beq_eq_false_iff_ne.2 (h.first hk)
  have htok : (str.drop k).takeWhile (· != delim) = (str.take e).drop k := runAt_eq hstop hinside h.chars h.last
  have hlen : (str.take k).length = k := List.length_take_of_le (by omega)
  have hlen' : ((str.take e).drop k).length = e - k := by rw [List.length_drop, List.length_take_of_le hinside]
  rw [NanoS32.strtok, hskip, hlen, htok, hlen', show k + (e - k) = e by omega]

/-- A part of the string with no delimiters, when the delimiter behind it is cleared. -/
theorem Mem.HasStr.segment {m : Mem} {p : Nat} {str : CStr} {delim : UInt8} (h : m.HasStr p str) {a b q : Nat} (hab : a ≤ b)
    (hb : b ≤ str.length) (hchars : ∀ i, a ≤ i → i < b → str.at i ≠ delim) (hlast : b < str.length → str.at b = delim ∧ b < q) :
    (m.cleared p delim q).HasStr (p + a) ((str.take b).drop a) := by
  have hlen : ((str.take b).drop a).length = b - a := by rw [List.length_drop, List.length_take_of_le hb]
  refine ⟨fun h0 => h.1 (List.mem_of_mem_take (List.mem_of_mem_drop h0)), fun j hj => ?_⟩
  rw [hlen] at hj
  have hchar : m (p + a + j) = str.at (a + j) := by rw [Nat.add_assoc, h.char (by omega)]
  by_cases hlt : j < b - a
  · rw [Mem.cleared, if_neg fun hc => hchars (a + j) (by omega) (by omega) (hchar ▸ hc.2.2), hchar, List.getD_eq_getElem?_getD,
      List.getElem?_drop, List.getElem?_take_of_lt (by omega), ← List.getD_eq_getElem?_getD]
  · rw [List.getD_eq_default _ _ (by omega)]
    obtain rfl : j = b - a := by omega
    by_cases hend : b < str.length
    · obtain ⟨hdelim, hq⟩ := hlast hend
      rw [Mem.cleared, if_pos ⟨by omega, by omega, by rw [hchar, show a + (b - a) = b by omega, hdelim]⟩]
    · have h0 : m (p + a + (b - a)) = 0 := by
        rw [hchar, h.at_eq_zero (by omega)]
        omega
      rw [Mem.cleared, h0]
      exact ite_self 0

/-- `strtok` in memory is `strtok` on the string: the token is stored where it was, with a 0 behind it, and so is what comes after
it. -/
theorem Mem.strtok_list {m : Mem} {p : Nat} {str : CStr} (h : m.HasStr p str) (hne : str ≠ []) (delim : UInt8) {fuel : Nat}
    (hfuel : str.length < fuel) : ∃ m' next, m.strtok fuel p delim = some (m', p + (NanoS32.strtok str delim).1, next) ∧
      m'.HasStr (p + (NanoS32.strtok str delim).1) (NanoS32.strtok str delim).2.1 ∧
      m'.HasStr next (NanoS32.strtok str delim).2.2 := by
  obtain ⟨k, e, htok, hrun⟩ := Mem.strtok_run delim h (List.length_pos_iff.2 hne) hfuel
  obtain ⟨next, hnext⟩ : ∃ next, next = min (e + 1) str.length := ⟨_, rfl⟩
  have hstart : m.cleared p delim 0 = m := by
    funext j
    exact if_neg (by omega)
  have hinside := htok.inside
  rw [hstart, Nat.add_zero, ← hnext] at hrun
  rw [htok.strtok_eq]
  refine ⟨_, _, hrun, ?_, fun h0 => h.1 (List.mem_of_mem_drop h0), fun j hj => ?_⟩
  · exact h.segment htok.stop htok.inside htok.chars fun hlt => ⟨htok.last hlt, by omega⟩
  · rw [List.length_drop] at hj
    rw [Mem.cleared_behind _ _ _ (by omega), Nat.add_assoc, h.char (by omega), CStr.at, List.getD_eq_getElem?_getD,
      List.getD_eq_getElem?_getD, List.getElem?_drop]
    by_cases hlt : e < str.length
    · rw [show next + j = e + 1 + j by omega]
    · rw [List.getElem?_eq_none (by omega), List.getElem?_eq_none (by omega)]

/-! ## The loop -/

/-- The runs that start in what a call goes through: the token, unless it is empty. -/
theorem Mem.TokenAt.runs {delim : UInt8} {str : CStr} {q k e : Nat} (h : TokenAt delim str q k e)
    (hq : q = 0 ∨ str.at (q - 1) = delim) :
    (List.range' q (min (e + 1) str.length - q)).filter (RunStart delim str) = if k < str.length then [k] else [] := by
  have hstart := h.start
  have hstop := h.stop
  have hinside := h.inside
  have hsplit : List.range' q (min (e + 1) str.length - q) =
      List.range' q (k - q) ++ List.range' k (min (e + 1) str.length - k) := by
    rw [show List.range' k (min (e + 1) str.length - k) = List.range' (q + 1 * (k - q)) (min (e + 1) str.length - k) by
      congr 1; omega, List.range'_append]
    congr 1
    omega
  have hskip : (List.range' q (k - q)).filter (RunStart delim str) = [] := by
    refine List.filter_eq_nil_iff.2 fun i hi => ?_
    rw [List.mem_range'_1] at hi
    rw [decide_eq_true_eq]
    exact fun hrun => hrun.1 (h.skipped i hi.1 (by omega))
  rw [hsplit, List.filter_append, hskip, List.nil_append]
  by_cases hk : k < str.length
  · obtain ⟨n, hn⟩ : ∃ n, min (e + 1) str.length - k = n + 1 := ⟨min (e + 1) str.length - k - 1, by omega⟩
    have hrun : RunStart delim str k := by
      refine ⟨h.first hk, ?_⟩
      by_cases hkq : k = q
      · rw [hkq]
        exact hq
      · exact Or.inr (h.skipped (k - 1) (by omega) (by omega))
    have hrest : (List.range' (k + 1) n).filter (RunStart delim str) = [] := by
      refine List.filter_eq_nil_iff.2 fun i hi => ?_
      rw [List.mem_range'_1] at hi
      rw [decide_eq_true_eq]
      rintro ⟨-, hzero | hprev⟩
      · omega
      · exact h.chars (i - 1) (by omega) (by omega) hprev
    rw [if_pos hk, hn, List.range'_succ, List.filter_cons, if_pos (decide_eq_true hrun), hrest]
  · rw [if_neg hk, show min (e + 1) str.length - k = 0 by omega]
    rfl

/-- The loop from index `q` on, where a token may start: it keeps the runs from there on, and clears all delimiters. -/
theorem tokensLoop_run {m : Mem} {p : Nat} {str : CStr} (delim : UInt8) (h : m.HasStr p str) {bound : Nat}
    (hbound : str.length < bound) : ∀ (fuel q : Nat) (toks : List Nat), q ≤ str.length → str.length - q < fuel →
      (q < str.length → q = 0 ∨ str.at (q - 1) = delim) →
      Mem.tokensLoop bound delim fuel (m.cleared p delim q) (p + q) (p + q) toks =
        some (m.cleared p delim str.length,
          toks ++ ((List.range' q (str.length - q)).filter (RunStart delim str)).map (p + ·)) := by
  intro fuel
  induction fuel with
  | zero => exact fun q _ _ hfuel => absurd hfuel (Nat.not_lt_zero _)
  | succ fuel ih =>
    intro q toks hq hfuel hprev
    have hchar : m.cleared p delim q (p + q) = str.at q := by rw [Mem.cleared_behind _ _ _ (Nat.le_refl _), h.char hq]
    rw [Mem.tokensLoop, hchar]
    by_cases hend : q = str.length
    · rw [if_neg fun h0 => h0.1 ((h.at_eq_zero hq).2 hend), hend, Nat.sub_self]
      simp
    · have hne : str.at q ≠ 0 := fun h0 => hend ((h.at_eq_zero hq).1 h0)
      obtain ⟨k, e, htok, hrun⟩ := Mem.strtok_run delim h (show q < str.length by omega) hbound
      obtain ⟨next, hnext⟩ : ∃ next, next = min (e + 1) str.length := ⟨_, rfl⟩
      have hruns := htok.runs (hprev (by omega))
      have hstart := htok.start
      have hstop := htok.stop
      have hinside := htok.inside
      rw [← hnext] at hrun hruns
      -- the token is kept when it is not at the end of the string
      have hkept : m.cleared p delim next (p + k) ≠ 0 ↔ k < str.length := by
        by_cases hk : k < str.length
        · have hne : m (p + k) ≠ delim := by
            rw [h.char (by omega)]
            exact htok.first hk
          have hk0 : m (p + k) ≠ 0 := by
            rw [h.char (by omega)]
            exact fun h0 => by
              rw [h.at_eq_zero (by omega)] at h0
              omega
          rw [Mem.cleared, if_neg fun hc => hne hc.2.2]
          exact iff_of_true hk0 hk
        · have hkl : k = str.length := by omega
          rw [Mem.cleared_behind _ _ _ (by omega), h.char (by omega)]
          exact iff_of_false (not_not.2 ((h.at_eq_zero (by omega)).2 hkl)) hk
      have hsplit : List.range' q (str.length - q) = List.range' q (next - q) ++ List.range' next (str.length - next) := by
        rw [show List.range' next (str.length - next) = List.range' (q + 1 * (next - q)) (str.length - next) by
          congr 1; omega, List.range'_append]
        congr 1
        omega
      rw [if_pos ⟨hne, hne⟩, hrun]
      change Mem.tokensLoop bound delim fuel (m.cleared p delim next) (p + next) (p + next)
        (if m.cleared p delim next (p + k) ≠ 0 then toks ++ [p + k] else toks) = _
      rw [ih next _ (by omega) (by omega) (fun hlt => Or.inr ?_), hsplit, List.filter_append, hruns]
      · by_cases hk : k < str.length
        · rw [if_pos (hkept.2 hk), if_pos hk, List.map_append, List.append_assoc]
          rfl
        · rw [if_neg (fun h0 => hk (hkept.1 h0)), if_neg hk, List.nil_append]
      · rw [show next - 1 = e by omega]
        exact htok.last (by omega)

/-- The string that is left at an index is the run from there on. -/
theorem Mem.HasStr.run {m : Mem} {p : Nat} {str : CStr} {delim : UInt8} (h : m.HasStr p str) {i : Nat} (hi : i < str.length) :
    (m.cleared p delim str.length).HasStr (p + i) (runAt delim str i) := by
  obtain ⟨e, hie, he, hchars, hlast, -⟩ := Mem.endLoop_run delim h (str.length + 1) i (by omega) (by omega)
  rw [runAt_eq hie he hchars hlast]
  exact h.segment hie he hchars fun hlt => ⟨hlast hlt, hlt⟩

/-- The loop with which the tokens of a string are taken ends, for every string and delimiter. It keeps the addresses where the
maximal runs of characters that are not delimiters start, in order; at each there is then the run, with a 0 behind it. Outside the
string nothing has changed. -/
theorem tokens_runs {m : Mem} {p : Nat} {str : CStr} (delim : UInt8) (h : m.HasStr p str) {bound : Nat}
    (hbound : str.length < bound) : ∃ m', m.tokens bound p delim = some (m', (runStarts delim str).map (p + ·)) ∧
      (∀ i ∈ runStarts delim str, m'.HasStr (p + i) (runAt delim str i)) ∧
      ∀ j, (j < p ∨ p + str.length ≤ j) → m' j = m j := by
  have hstart : m.cleared p delim 0 = m := by
    funext j
    exact if_neg (by omega)
  have hrun := tokensLoop_run delim h hbound bound 0 [] (Nat.zero_le _) (by omega) fun _ => Or.inl rfl
  rw [hstart, List.nil_append, Nat.sub_zero, ← List.range_eq_range'] at hrun
  refine ⟨_, hrun, fun i hi => ?_, fun j hj => ?_⟩
  · exact h.run (List.mem_range.1 (List.mem_of_mem_filter hi))
  · exact if_neg (by omega)

/-- The words of the line `"  ab c "`. -/
theorem tokens_runs_line :
    ∃ m', (Mem.store (fun _ => 0) 5 [32, 32, 97, 98, 32, 99, 32]).tokens 8 5 32 = some (m', [7, 10]) ∧
      (∀ i ∈ [2, 5], m'.HasStr (5 + i) (runAt 32 [32, 32, 97, 98, 32, 99, 32] i)) ∧ ∀ j, (j < 5 ∨ 5 + 7 ≤ j) →
        m' j = Mem.store (fun _ => 0) 5 [32, 32, 97, 98, 32, 99, 32] j := by
  have h : Mem.HasStr (Mem.store (fun _ => 0) 5 [32, 32, 97, 98, 32, 99, 32]) 5 [32, 32, 97, 98, 32, 99, 32] :=
    ⟨by decide, by decide⟩
  exact tokens_runs 32 h (by decide)

end NanoS32
