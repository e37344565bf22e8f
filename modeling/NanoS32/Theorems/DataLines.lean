import NanoS32.Lemmas.DataLine
import NanoS32.Lemmas.Token
import NanoS32.Theorems.Numbers

/-!
# The values of a data line

A data line of the source file has a name, a directive and its values, with separators between them. The line is cut into 32 tokens at
most, so its 30th value goes on to the end of the line, and the values behind it are lost.
-/

namespace NanoS32

/-! ## Data lines -/

/-- A value of a data line: a number, with the separators before it. -/
structure DataValue where
  gap : CStr
  numeral : CStr
  number : Nat
  isGap : ∀ ch ∈ gap, isSeparator ch = true
  apart : gap ≠ []
  denotes : denote numeral = some number

/-- The characters of a number are those of a token. -/
theorem denote_token {s : CStr} {n : Nat} (h : denote s = some n) : s ≠ [] ∧ ∀ ch ∈ s, isTokenChar ch = true := by
  have hdigit : ∀ ch, Numeral.IsDigit 16 ch → isTokenChar ch = true := by
    have hall : ∀ n ∈ List.range 256, Numeral.IsDigit 16 (UInt8.ofNat n) → isTokenChar (UInt8.ofNat n) = true := by
      decide +kernel
    intro ch
    have hch := hall ch.toNat (List.mem_range.2 ch.toNat_lt)
    rwa [UInt8.ofNat_toNat] at hch
  obtain ⟨⟨hne, hdigits⟩, -⟩ := denote_eq_some.1 h
  unfold numeralOf at hne hdigits
  split at hdigits
  · refine ⟨List.cons_ne_nil _ _, List.forall_mem_cons.2 ⟨by decide, List.forall_mem_cons.2 ⟨by decide, fun ch hch => ?_⟩⟩⟩
    exact hdigit ch (hdigits ch hch)
  · refine ⟨?_, fun ch hch => hdigit ch (isDigit_mono (Nat.le_add_right 10 6) (hdigits ch hch))⟩
    rintro rfl
    exact hne rfl

/-- A value as a token of its line. -/
def DataValue.spaced (v : DataValue) : SpacedToken :=
  { gap := v.gap, token := v.numeral, isGap := v.isGap, nonempty := (denote_token v.denotes).1
    isToken := (denote_token v.denotes).2 }

/-- A data line: its name, its directive, one value or more, and what is behind them. -/
structure DataLine where
  name : SpacedToken
  directive : SpacedToken
  type : SType
  values : List DataValue
  tail : CStr
  apart : directive.gap ≠ []
  isDirective : dataType directive.token = some type
  nonempty : values ≠ []
  isTail : IsTail tail

/-- The tokens of a data line, its text, and the bytes that it asks for. -/
def DataLine.tokens (d : DataLine) : List SpacedToken := d.name :: d.directive :: d.values.map DataValue.spaced

def DataLine.text (d : DataLine) : CStr := lineText d.tokens d.tail

def DataLine.bytes (d : DataLine) : List UInt8 := d.values.flatMap fun v => littleEndian (dataWidth d.type) v.number

/-- A data line fits: there is an entry for its name, room for its bytes, and a token for each of its values; and if the last value
takes the last token, what is behind it does not change the bytes of the number that is read. -/
structure DataLine.Fits (d : DataLine) (st : Asm) : Prop where
  entry : HasEntry st.sTable d.name.token
  room : st.ooffset + dataWidth d.type * d.values.length ≤ obuffSize
  count : d.values.length ≤ maxTok - 2
  last : d.values.length = maxTok - 2 → ∀ v ∈ d.values.getLast?,
    stou (v.numeral ++ d.tail) % 256 ^ dataWidth d.type = v.number % 256 ^ dataWidth d.type

/-- A turn of the assembler appends these bytes to the output, or it is an error. -/
def Appends (st : Asm) (bytes : List UInt8) (turn : Except AsmStop (Option (Asm × Nat))) : Prop :=
  turn = .error .error ∨ ∃ st' next, turn = .ok (some (st', next)) ∧ st'.obuff = st.obuff.store st.ooffset bytes ∧
    st'.ooffset = st.ooffset + bytes.length

/-! ## Tokens -/

theorem DataLine.gaps (d : DataLine) : ∀ t ∈ d.tokens.drop 1, t.gap ≠ [] := by
  refine List.forall_mem_cons.2 ⟨d.apart, fun t ht => ?_⟩
  obtain ⟨v, -, rfl⟩ := List.mem_map.1 ht
  exact v.apart

/-- The tokens of a data line whose values have a token each, with one to spare. -/
theorem DataLine.tokenize_few (d : DataLine) (h : d.values.length < maxTok - 2) :
    tokenizeLine maxTok d.text = d.name.token :: d.directive.token :: d.values.map DataValue.numeral := by
  have hlen : d.tokens.length < maxTok := by
    unfold DataLine.tokens maxTok at *
    simp only [List.length_cons, List.length_map]
    omega
  rw [DataLine.text, tokenizeLine_fits d.isTail d.tokens maxTok d.gaps hlen, DataLine.tokens, List.map_cons, List.map_cons,
    List.map_map]
  rfl

/-- The tokens of a data line with more values. -/
theorem DataLine.tokenize_many (d : DataLine) {vs us : List DataValue} {v : DataValue} (h : d.values = vs ++ v :: us)
    (hlen : vs.length + 1 = maxTok - 2) : tokenizeLine maxTok d.text =
      d.name.token :: d.directive.token :: (vs.map DataValue.numeral ++ [v.numeral ++ lineText (us.map DataValue.spaced) d.tail]) := by
  have htokens : d.tokens = (d.name :: d.directive :: vs.map DataValue.spaced) ++ v.spaced :: us.map DataValue.spaced := by
    rw [DataLine.tokens, h, List.map_append, List.map_cons]
    rfl
  have hroom : (d.name :: d.directive :: vs.map DataValue.spaced).length + 1 = maxTok := by
    unfold maxTok at *
    simp only [List.length_cons, List.length_map]
    omega
  have hgaps := d.gaps
  rw [htokens] at hgaps
  rw [DataLine.text, htokens, tokenizeLine_full d.isTail _ _ _ maxTok hgaps hroom, List.map_cons, List.map_cons, List.map_map]
  rfl

/-! ## Bytes -/

theorem stou_denote {s : CStr} {n : Nat} (h : denote s = some n) : stou s = n % 4294967296 := by
  obtain ⟨⟨hne, hdigits⟩, rfl⟩ := denote_eq_some.1 h
  exact stou_eq hdigits hne

/-- The bytes of values that are read as they are. -/
theorem valueBytes_numerals (type : SType) (vs : List DataValue) :
    valueBytes type (vs.map DataValue.numeral) = vs.flatMap fun v => littleEndian (dataWidth type) v.number := by
  rw [valueBytes, List.flatMap_map]
  congr 1
  funext v
  rw [stou_denote v.denotes, dataBytes_eq, littleEndian_mod]

theorem DataLine.length_bytes (d : DataLine) : d.bytes.length = dataWidth d.type * d.values.length := by
  rw [DataLine.bytes, ← valueBytes_numerals, length_valueBytes, List.length_map]

theorem dataWidth_pos {tok : CStr} {type : SType} (h : dataType tok = some type) : 0 < dataWidth type := by
  unfold dataType at h
  split_ifs at h
  all_goals
    obtain rfl := Option.some.inj h
    decide

/-! ## Turns -/

/-- Bytes that are stored at one place are the same when the output is. -/
theorem store_inj {m : Mem} {p : Nat} {l l' : List UInt8} (hlen : l.length = l'.length) (h : m.store p l = m.store p l') :
    l = l' := by
  refine List.ext_getElem hlen fun j hj hj' => ?_
  have hbyte := congrFun h (p + j)
  rw [Mem.store_of_mem _ (Nat.le_add_right _ _) (by omega), Mem.store_of_mem _ (Nat.le_add_right _ _) (by omega),
    Nat.add_sub_cancel_left] at hbyte
  rwa [List.getD_eq_getElem _ _ hj, List.getD_eq_getElem _ _ hj'] at hbyte

/-- A turn with a data line appends the bytes just when the line is inside the arrays and its values have these bytes. -/
theorem appends_dataLine {type : SType} {toks : List CStr} (hne : toks ≠ []) (st : Asm) (name : CStr)
    (bytes : List UInt8) (next : Nat) :
    Appends st bytes (dataLine st type name toks >>= fun st => .ok (some (st, next))) ↔
      (HasEntry st.sTable name ∧ st.ooffset + dataWidth type * toks.length ≤ obuffSize) ∧ valueBytes type toks = bytes := by
  by_cases hin : HasEntry st.sTable name ∧ st.ooffset + dataWidth type * toks.length ≤ obuffSize
  · obtain ⟨T, hline⟩ := dataLine_ok (Nat.le_trans (Nat.le_add_right _ _) hin.2) hin.1 hin.2
    rw [hline, and_iff_right hin]
    constructor
    · rintro (herror | ⟨st', next', hok, hobuff, hooffset⟩)
      · cases herror
      · obtain ⟨rfl, -⟩ := Prod.mk.inj (Option.some.inj (Except.ok.inj hok))
        exact store_inj (Nat.add_left_cancel hooffset) hobuff
    · rintro rfl
      exact Or.inr ⟨_, next, rfl, rfl, rfl⟩
  · obtain ⟨array, hline⟩ := dataLine_outside hne hin
    rw [hline]
    refine iff_of_false ?_ fun h => hin h.1
    rintro (herror | ⟨st', next', hok, -⟩)
    · cases herror
    · cases hok

/-- The bytes of a data line with more values than tokens, or as many. -/
theorem DataLine.bytes_many (d : DataLine) {vs us : List DataValue} {v : DataValue} (h : d.values = vs ++ v :: us)
    (hlen : vs.length + 1 = maxTok - 2) :
    valueBytes d.type (vs.map DataValue.numeral ++ [v.numeral ++ lineText (us.map DataValue.spaced) d.tail]) = d.bytes ↔
      d.values.length ≤ maxTok - 2 ∧ (d.values.length = maxTok - 2 → ∀ v ∈ d.values.getLast?,
        stou (v.numeral ++ d.tail) % 256 ^ dataWidth d.type = v.number % 256 ^ dataWidth d.type) := by
  have hpos := dataWidth_pos d.isDirective
  have hcount : d.values.length = vs.length + 1 + us.length := by
    rw [h, List.length_append, List.length_cons]
    omega
  cases us with
  | nil =>
    have hlast : d.values.getLast? = some v := by rw [h, List.getLast?_concat]
    have hall : d.values.length = maxTok - 2 := by rw [hcount, hlen, List.length_nil, Nat.add_zero]
    have hread : valueBytes d.type (vs.map DataValue.numeral ++ [v.numeral ++ lineText [] d.tail]) =
        (vs.flatMap fun v => littleEndian (dataWidth d.type) v.number) ++
          littleEndian (dataWidth d.type) (stou (v.numeral ++ d.tail)) := by
      rw [← valueBytes_numerals, ← dataBytes_eq, valueBytes, List.flatMap_append, List.flatMap_singleton]
      rfl
    have hbytes : d.bytes =
        (vs.flatMap fun v => littleEndian (dataWidth d.type) v.number) ++ littleEndian (dataWidth d.type) v.number := by
      rw [DataLine.bytes, h, List.flatMap_append, List.flatMap_singleton]
    rw [List.map_nil, hread, hbytes, List.append_right_inj, littleEndian_inj, hlast, and_iff_right (Nat.le_of_eq hall)]
    constructor
    · intro heq _ w hw
      obtain rfl := Option.some.inj hw
      exact heq
    · exact fun hv => hv hall v rfl
  | cons u us =>
    refine iff_of_false (fun heq => ?_) fun hle => ?_
    · have hlength := congrArg List.length heq
      rw [length_valueBytes, d.length_bytes, hcount, List.length_append, List.length_map] at hlength
      have := Nat.eq_of_mul_eq_mul_left hpos hlength
      simp only [List.length_cons, List.length_nil] at this
      omega
    · rw [List.length_cons] at hcount
      omega

/-- A data line is appended just when it fits. -/
theorem data_line_appended (d : DataLine) {file : List UInt8} {foffset : Nat} (hline : LineAt file foffset d.text) (st : Asm) :
    Appends st d.bytes (asmTurn file st foffset) ↔ d.Fits st := by
  obtain ⟨next, hread⟩ := hline.readLine
  have hpos := dataWidth_pos d.isDirective
  have hturn : ∀ toks, tokenizeLine maxTok d.text = d.name.token :: d.directive.token :: toks → toks ≠ [] →
      asmTurn file st foffset = dataLine st d.type d.name.token toks >>= fun st => .ok (some (st, next)) := by
    intro toks htoks hne
    rw [asmTurn, hread]
    dsimp only
    rw [htoks, asmLine_data d.isDirective hne]
  by_cases hfew : d.values.length < maxTok - 2
  · have hne : d.values.map DataValue.numeral ≠ [] := fun h => d.nonempty (List.map_eq_nil_iff.1 h)
    rw [hturn _ (d.tokenize_few hfew) hne, appends_dataLine hne, List.length_map]
    constructor
    · rintro ⟨⟨hentry, hroom⟩, -⟩
      exact ⟨hentry, hroom, Nat.le_of_lt hfew, fun h => absurd h (Nat.ne_of_lt hfew)⟩
    · exact fun h => ⟨⟨h.entry, h.room⟩, valueBytes_numerals d.type d.values⟩
  · obtain ⟨vs, v, us, hvalues, hlen⟩ : ∃ vs v us, d.values = vs ++ v :: us ∧ vs.length + 1 = maxTok - 2 := by
      have hlt : maxTok - 3 < d.values.length := by
        unfold maxTok at *
        omega
      refine ⟨d.values.take (maxTok - 3), d.values[maxTok - 3], d.values.drop (maxTok - 3 + 1), ?_, ?_⟩
      · rw [← List.drop_eq_getElem_cons hlt, List.take_append_drop]
      · rw [List.length_take, Nat.min_eq_left (Nat.le_of_lt hlt)]
        rfl
    have hne : vs.map DataValue.numeral ++ [v.numeral ++ lineText (us.map DataValue.spaced) d.tail] ≠ [] :=
      List.append_ne_nil_of_right_ne_nil _ (List.cons_ne_nil _ _)
    rw [hturn _ (d.tokenize_many hvalues hlen) hne, appends_dataLine hne, d.bytes_many hvalues hlen]
    have hlength : (vs.map DataValue.numeral ++ [v.numeral ++ lineText (us.map DataValue.spaced) d.tail]).length = maxTok - 2 := by
      rw [List.length_append, List.length_map]
      exact hlen
    rw [hlength]
    constructor
    · rintro ⟨⟨hentry, hroom⟩, hcount, hlast⟩
      refine ⟨hentry, Nat.le_trans (Nat.add_le_add_left (Nat.mul_le_mul_left _ hcount) _) hroom, hcount, hlast⟩
    · intro h
      have hall : d.values.length = maxTok - 2 := Nat.le_antisymm h.count (Nat.le_of_not_lt hfew)
      exact ⟨⟨h.entry, hall ▸ h.room⟩, h.count, h.last⟩

/-- Two words, with a comment behind them. -/
theorem data_line_appended_sample : Appends asmInit [1, 0, 2, 0] (asmTurn (ascii "x dw 1, 2 ;c\n") asmInit 0) := by
  let d : DataLine :=
    { name := ⟨[], ascii "x", List.all_eq_true.1 rfl, by decide, List.all_eq_true.1 rfl⟩
      directive := ⟨[32], ascii "dw", List.all_eq_true.1 rfl, by decide, List.all_eq_true.1 rfl⟩
      type := .dataw
      values := [⟨[32], [49], 1, List.all_eq_true.1 rfl, by decide, by decide +kernel⟩,
        ⟨[44, 32], [50], 2, List.all_eq_true.1 rfl, by decide, by decide +kernel⟩]
      tail := ascii " ;c"
      apart := by decide
      isDirective := rfl
      nonempty := List.cons_ne_nil _ _
      isTail := ⟨[32], ascii ";c", by decide, List.all_eq_true.1 rfl, Or.inr (by decide)⟩ }
  have hline : LineAt (ascii "x dw 1, 2 ;c\n") 0 d.text :=
    ⟨ascii "x dw 1, 2 ;c", [10], by decide, by decide, by decide, by decide +kernel, Or.inr rfl⟩
  have hfits : d.Fits asmInit := ⟨⟨0, by decide, Or.inr rfl⟩, by decide, by decide, fun h => absurd h (by decide)⟩
  exact (data_line_appended d hline asmInit).2 hfits

/-- A line of 31 values. -/
theorem last_value_lost : ∃ d : DataLine, LineAt (d.text ++ [10]) 0 d.text ∧
    ¬Appends asmInit d.bytes (asmTurn (d.text ++ [10]) asmInit 0) := by
  let d : DataLine :=
    { name := ⟨[], ascii "x", List.all_eq_true.1 rfl, by decide, List.all_eq_true.1 rfl⟩
      directive := ⟨[32], ascii "db", List.all_eq_true.1 rfl, by decide, List.all_eq_true.1 rfl⟩
      type := .datab
      values := List.replicate 31 ⟨[32], [49], 1, List.all_eq_true.1 rfl, by decide, by decide +kernel⟩
      tail := []
      apart := by decide
      isDirective := rfl
      nonempty := List.cons_ne_nil _ _
      isTail := ⟨[], [], rfl, List.all_eq_true.1 rfl, Or.inl rfl⟩ }
  refine ⟨d, ⟨d.text, [10], rfl, by decide +kernel, by decide +kernel, by decide +kernel, Or.inr rfl⟩, ?_⟩
  obtain ⟨turn, hturn, hp⟩ := exists_ok_of_any (x := asmTurn (d.text ++ [10]) asmInit 0)
    (p := fun turn => turn.any fun q => q.1.ooffset = 30) (by decide +kernel)
  rintro (herror | ⟨st', next, hok, -, hooffset⟩)
  · cases hturn.symm.trans herror
  · obtain rfl := Except.ok.inj (hturn.symm.trans hok)
    have hlen : st'.ooffset = 30 := of_decide_eq_true hp
    have hbytes : d.bytes.length = 31 := by decide +kernel
    rw [hlen, hbytes] at hooffset
    exact absurd hooffset (by decide)

end NanoS32
