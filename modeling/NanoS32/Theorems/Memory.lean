import NanoS32.Lemmas.Mem
import NanoS32.Theorems.Format
import NanoS32.Ulib.Format
import NanoS32.Ulib.Strtok

/-!
# Copying and formatting in memory

`memcpy` moves bytes, whether its two places overlap or not. `formatstr` keeps a string in the buffer whose end `stcatchar` looks
for: as long as the string is shorter than the buffer that end is in it, and when the last byte holds a character it is behind it.
-/

namespace NanoS32

/-! ## Copying -/

/-- `memcpy` leaves at the destination what the source held, and changes nothing else. -/
theorem memcpy_moves (m : Mem) (dst src n : Nat) :
    (m.memcpy dst src n).array dst n = m.array src n ∧ ∀ j, j < dst ∨ dst + n ≤ j → m.memcpy dst src n j = m j := by
  constructor
  · funext k
    have hk : dst ≤ dst + k.val ∧ dst + k.val < dst + n := ⟨by omega, by omega⟩
    rw [Mem.array, Mem.memcpy_apply, if_pos hk, Nat.add_sub_cancel_left]
    rfl
  · intro j hj
    rw [Mem.memcpy_apply, if_neg (by omega)]

example : (List.range 6).map (Mem.memcpy (fun j => UInt8.ofNat j) 1 0 4) = [0, 0, 1, 2, 3, 5] := by decide

/-! ## Formatting -/

/-- The characters that a format and its arguments stand for. -/
def rendering (format : CStr) (args : List FormatArg) : CStr := formatPutf format.length format args 0

/-- `formatstr` leaves the rendering in the buffer as far as it fits, with a 0 behind it, and neither it nor the local array of
`formatstr_putf` is left on the way. -/
def FormatsWithin (m : Mem) (str size : Nat) (format : CStr) (args : List FormatArg) : Prop :=
  ∃ bound m' touched, m.formatstr bound str size format args = some (m', touched) ∧
    m'.HasStr str ((rendering format args).take (size - 1)) ∧ (∀ j, j < str ∨ str + size ≤ j → m' j = m j) ∧
    (∀ a ∈ touched, str ≤ a ∧ a < str + size) ∧ ∀ write ∈ formatPutfWrites format args, 0 ≤ write.1 ∧ write.1 < 24

namespace Mem

/-! ### The string in the buffer -/

/-- What `strlen` returns: a 0 is there, and none before it. -/
theorem strlenLoop_eq_some {m : Mem} {str : Nat} : ∀ {fuel len n : Nat}, strlenLoop m str fuel len = some n →
    len ≤ n ∧ m (str + n) = 0 ∧ ∀ i, len ≤ i → i < n → m (str + i) ≠ 0 := by
  intro fuel
  induction fuel with
  | zero => exact fun h => nomatch h
  | succ fuel ih =>
    intro len n h
    rw [strlenLoop] at h
    split_ifs at h with hz
    · obtain ⟨hle, hend, hbefore⟩ := ih h
      refine ⟨by omega, hend, fun i hi hin => ?_⟩
      by_cases hlen : i = len
      · rwa [hlen]
      · exact hbefore i (by omega) hin
    · obtain rfl : len = n := Option.some.inj h
      exact ⟨Nat.le_refl _, not_not.1 hz, fun i _ _ => by omega⟩

theorem strlenLoop_of_end {m : Mem} {str n : Nat} (hend : m (str + n) = 0) (hbefore : ∀ i < n, m (str + i) ≠ 0) :
    ∀ fuel len, len ≤ n → n < len + fuel → strlenLoop m str fuel len = some n := by
  intro fuel
  induction fuel with
  | zero => exact fun len _ _ => by omega
  | succ fuel ih =>
    intro len hle hlt
    rw [strlenLoop]
    by_cases hlen : len = n
    · rw [hlen, if_neg (not_not.2 hend)]
    · rw [if_pos (hbefore len (by omega)), ih (len + 1) (by omega) (by omega)]

/-- A string in a buffer that was cleared before. -/
def buffer (m : Mem) (str size : Nat) (l : CStr) : Mem := (m.memset str 0 size).store str l

section Buffer

variable {m : Mem} {str size : Nat} {l : CStr}

theorem buffer_of_lt {i : Nat} (h : i < l.length) : m.buffer str size l (str + i) = l.getD i 0 := by
  rw [buffer, store_of_mem _ (by omega) (by omega), Nat.add_sub_cancel_left]

theorem buffer_of_ge {i : Nat} (h : l.length ≤ i) (hi : i < size) : m.buffer str size l (str + i) = 0 := by
  rw [buffer, store_of_not_mem _ (by omega), memset_apply, if_pos (by omega)]

theorem buffer_outside (hl : l.length ≤ size) {j : Nat} (h : j < str ∨ str + size ≤ j) : m.buffer str size l j = m j := by
  rw [buffer, store_of_not_mem _ (by omega), memset_apply, if_neg (by omega)]

theorem buffer_ne_zero (h0 : 0 ∉ l) {i : Nat} (h : i < l.length) : m.buffer str size l (str + i) ≠ 0 := by
  rw [buffer_of_lt h, List.getD_eq_getElem l 0 h]
  exact fun hz => h0 (hz ▸ List.getElem_mem h)

/-- A string with a 0 behind it is in its buffer. -/
theorem hasStr_buffer (h0 : 0 ∉ l) (hl : l.length < size) : (m.buffer str size l).HasStr str l := by
  refine ⟨h0, fun i hi => ?_⟩
  by_cases hlt : i < l.length
  · exact buffer_of_lt hlt
  · rw [buffer_of_ge (by omega) (by omega), List.getD_eq_default _ _ (by omega)]

/-- The 0 behind a string is already there. -/
theorem buffer_append_zero (hl : l.length < size) : m.buffer str size (l ++ [0]) = m.buffer str size l := by
  funext j
  rw [buffer, ← store_store]
  by_cases hj : j = str + l.length
  · have hzero : m.buffer str size l (str + l.length) = 0 := buffer_of_ge (Nat.le_refl _) hl
    rw [hj, store_of_mem _ (Nat.le_refl _) (by rw [List.length_singleton]; omega), Nat.sub_self, hzero]
    rfl
  · rw [store_of_not_mem _ (by rw [List.length_singleton]; omega)]
    rfl

variable (m str) in
/-- A character is put where `stcatchar` puts it. -/
theorem buffer_set (hsize : 1 ≤ size) (hl : l.length ≤ size) (c : UInt8) :
    (m.buffer str size l).set (str + min l.length (size - 1)) c = m.buffer str size (NanoS32.stcatchar size l c) := by
  have hlen : (l.take (size - 1)).length = min l.length (size - 1) := by rw [List.length_take, Nat.min_comm]
  have hlast : (l.take (size - 1) ++ [c]).length = min l.length (size - 1) + 1 := by rw [List.length_append, hlen]; rfl
  funext j
  rw [NanoS32.stcatchar]
  by_cases hj : j = str + min l.length (size - 1)
  · rw [hj, set_self, buffer_of_lt (by omega), List.getD_append_right _ _ _ _ (by omega), hlen, Nat.sub_self]
    rfl
  · rw [set_ne _ _ hj]
    by_cases hin : str ≤ j ∧ j < str + min l.length (size - 1)
    · obtain ⟨i, rfl⟩ := Nat.exists_eq_add_of_le hin.1
      rw [buffer_of_lt (by omega), buffer_of_lt (by omega), List.getD_append _ _ _ _ (by omega), List.getD_eq_getElem?_getD,
        List.getD_eq_getElem?_getD, List.getElem?_take_of_lt (by omega)]
    · rw [buffer, buffer, store_of_not_mem _ (by omega), store_of_not_mem _ (by omega)]

/-! ### One character -/

/-- Where `strlen` ends: at the end of the string while the buffer has room, and else behind the buffer. -/
theorem strlenLoop_buffer (h0 : 0 ∉ l) {bound n : Nat} (h : strlenLoop (m.buffer str size l) str bound 0 = some n) :
    l.length ≤ n ∧ (l.length < size → n = l.length) := by
  obtain ⟨-, hend, hbefore⟩ := strlenLoop_eq_some h
  have hle : l.length ≤ n := by
    by_contra hlt
    exact buffer_ne_zero h0 (by omega) hend
  refine ⟨hle, fun hroom => ?_⟩
  by_contra hne
  exact hbefore l.length (Nat.zero_le _) (by omega) (buffer_of_ge (Nat.le_refl _) hroom)

/-- `stcatchar` in memory does to the string in the buffer what it does to the string. -/
theorem stcatchar_buffer (hsize : 1 ≤ size) (hl : l.length ≤ size) (h0 : 0 ∉ l) {bound : Nat} {touched : List Nat} {c : UInt8}
    {t : Traced} (h : stcatchar bound str size (m.buffer str size l, touched) c = some t) :
    ∃ n, l.length ≤ n ∧ t = (m.buffer str size (NanoS32.stcatchar size l c),
      touched ++ List.range' str (n + 1) ++ [str + min n (size - 1)]) := by
  rw [stcatchar, Option.bind_eq_bind, Option.bind_eq_some_iff] at h
  obtain ⟨n, hn, ht⟩ := h
  obtain ⟨hle, hroom⟩ := strlenLoop_buffer h0 hn
  have hmin : min n (size - 1) = min l.length (size - 1) := by
    by_cases hlt : l.length < size
    · rw [hroom hlt]
    · omega
  refine ⟨n, hle, (Option.some.inj ht).symm.trans ?_⟩
  rw [hmin, buffer_set m str hsize hl c]

variable (m str) in
/-- While there is room it returns, and stays in the buffer. -/
theorem stcatchar_room (hl : l.length < size) (h0 : 0 ∉ l) {bound : Nat} (hbound : size ≤ bound) (touched : List Nat) (c : UInt8) :
    stcatchar bound str size (m.buffer str size l, touched) c =
      some (m.buffer str size (l ++ [c]), touched ++ List.range' str (l.length + 1) ++ [str + l.length]) := by
  have hstrlen : strlenLoop (m.buffer str size l) str bound 0 = some l.length :=
    strlenLoop_of_end (buffer_of_ge (Nat.le_refl _) hl) (fun i hi => buffer_ne_zero h0 hi) bound 0 (Nat.zero_le _) (by omega)
  have hput : (m.buffer str size l).set (str + l.length) c = m.buffer str size (l ++ [c]) := by
    have hset := buffer_set m str (show 1 ≤ size by omega) (Nat.le_of_lt hl) c
    rwa [Nat.min_eq_left (by omega), NanoS32.stcatchar, List.take_of_length_le (by omega)] at hset
  rw [stcatchar, hstrlen]
  simp only [Option.bind_eq_bind, Option.bind_some, Nat.min_eq_left (show l.length ≤ size - 1 by omega), hput]

theorem length_stcatchar (hsize : 1 ≤ size) (l : CStr) (c : UInt8) :
    (NanoS32.stcatchar size l c).length = min (l.length + 1) size := by
  rw [NanoS32.stcatchar, List.length_append, List.length_take, List.length_singleton]
  omega

theorem not_mem_stcatchar (h0 : 0 ∉ l) {c : UInt8} (hc : c ≠ 0) : 0 ∉ NanoS32.stcatchar size l c := by
  rw [NanoS32.stcatchar, List.mem_append, List.mem_singleton, not_or]
  exact ⟨fun h => h0 (List.mem_of_mem_take h), hc.symm⟩

/-! ### All characters -/

/-- After any characters the buffer holds the string that they make, and what was touched stays recorded. -/
theorem foldlM_buffer (hsize : 1 ≤ size) {bound : Nat} : ∀ {out l : CStr} {touched : List Nat} {t : Traced}, 0 ∉ out → 0 ∉ l →
    l.length ≤ size → out.foldlM (stcatchar bound str size) (m.buffer str size l, touched) = some t →
    ∃ more, t = (m.buffer str size (out.foldl (NanoS32.stcatchar size) l), touched ++ more) := by
  intro out
  induction out with
  | nil =>
    intro l touched t _ _ _ h
    exact ⟨[], by rw [List.append_nil]; exact (Option.some.inj h).symm⟩
  | cons c out ih =>
    intro l touched t hout h0 hl h
    rw [List.mem_cons, not_or] at hout
    rw [List.foldlM_cons, Option.bind_eq_bind, Option.bind_eq_some_iff] at h
    obtain ⟨t1, h1, h2⟩ := h
    obtain ⟨n, -, rfl⟩ := stcatchar_buffer hsize hl h0 h1
    obtain ⟨more, ht⟩ := ih hout.2 (not_mem_stcatchar h0 (Ne.symm hout.1)) (by rw [length_stcatchar hsize]; omega) h2
    refine ⟨List.range' str (n + 1) ++ [str + min n (size - 1)] ++ more, ?_⟩
    rw [ht, List.foldl_cons]
    simp only [List.append_assoc]

variable (m str) in
/-- As many characters as the buffer has room for are put without leaving it. -/
theorem foldlM_room {bound : Nat} (hbound : size ≤ bound) : ∀ {out l : CStr} {touched : List Nat}, 0 ∉ out → 0 ∉ l →
    l.length + out.length ≤ size → (∀ a ∈ touched, str ≤ a ∧ a < str + size) →
    ∃ touched', out.foldlM (stcatchar bound str size) (m.buffer str size l, touched) = some (m.buffer str size (l ++ out), touched') ∧
      ∀ a ∈ touched', str ≤ a ∧ a < str + size := by
  intro out
  induction out with
  | nil => exact fun _ _ _ htouched => ⟨_, by rw [List.append_nil]; rfl, htouched⟩
  | cons c out ih =>
    intro l touched hout h0 hlen htouched
    rw [List.mem_cons, not_or] at hout
    rw [List.length_cons] at hlen
    have h0' : 0 ∉ l ++ [c] := by
      rw [List.mem_append, List.mem_singleton, not_or]
      exact ⟨h0, hout.1⟩
    rw [List.foldlM_cons, stcatchar_room m str (by omega) h0 hbound, List.append_cons l c out]
    refine ih hout.2 h0' (by rw [List.length_append, List.length_singleton]; omega) fun a ha => ?_
    rw [List.mem_append, List.mem_append, List.mem_range'_1, List.mem_singleton] at ha
    rcases ha with (ha | ha) | ha
    · exact htouched a ha
    · omega
    · omega

end Buffer

end Mem

/-! ### The whole call -/

theorem not_mem_foldl_stcatchar {size : Nat} {out l : CStr} (hout : 0 ∉ out) (h0 : 0 ∉ l) : 0 ∉ out.foldl (stcatchar size) l := by
  induction out generalizing l with
  | nil => exact h0
  | cons c out ih =>
    rw [List.mem_cons, not_or] at hout
    exact ih hout.2 (Mem.not_mem_stcatchar h0 (Ne.symm hout.1))

theorem length_foldl_stcatchar {size : Nat} (hsize : 1 ≤ size) : ∀ {out l : CStr}, l.length ≤ size →
    (out.foldl (stcatchar size) l).length = min (l.length + out.length) size := by
  intro out
  induction out with
  | nil =>
    intro l hl
    exact (Nat.min_eq_left hl).symm
  | cons c out ih =>
    intro l hl
    have hlen := Mem.length_stcatchar hsize l c
    rw [List.foldl_cons, ih (by omega), hlen, List.length_cons]
    omega

/-- The characters that are put stay, up to the last place of the buffer. -/
theorem take_foldl_stcatchar {size : Nat} : ∀ (out l : CStr), (out.foldl (stcatchar size) l).take (size - 1) =
    (l ++ out).take (size - 1) := by
  intro out
  induction out with
  | nil => exact fun l => by rw [List.append_nil]; rfl
  | cons c out ih =>
    intro l
    rw [List.foldl_cons, ih, stcatchar, List.append_cons l c out]
    by_cases hl : l.length ≤ size - 1
    · rw [List.take_of_length_le hl]
    · have hfull : (l.take (size - 1)).length = size - 1 := by
        rw [List.length_take]
        omega
      rw [List.append_assoc, List.append_assoc, List.take_append_of_le_length (by omega), List.take_take, Nat.min_self,
        List.take_append_of_le_length (by omega)]

/-- `formatstr` leaves the start of the rendering. -/
theorem formatstr_eq (size : Nat) (format : CStr) (args : List FormatArg) :
    formatstr size format args = (rendering format args).take (size - 1) :=
  take_foldl_stcatchar (rendering format args) []

namespace Mem

variable {m : Mem} {str size : Nat} {format : CStr} {args : List FormatArg}

/-- `formatstr` ends with the string that `stcatchar` makes of the rendering, and with what the last `strlen` reads. -/
theorem formatstr_last (hsize : 1 ≤ size) (h0 : 0 ∉ rendering format args) {bound : Nat} {t : Traced}
    (h : m.formatstr bound str size format args = some t) :
    ∃ n touched, min (rendering format args).length size ≤ n ∧
      t = (m.buffer str size (NanoS32.stcatchar size ((rendering format args).foldl (NanoS32.stcatchar size) []) 0),
        touched ++ List.range' str (n + 1) ++ [str + min n (size - 1)]) := by
  have hempty : m.memset str 0 size = m.buffer str size [] := (store_nil _ _).symm
  rw [formatstr, Option.bind_eq_bind, Option.bind_eq_some_iff, hempty, ← rendering] at h
  obtain ⟨t1, h1, h2⟩ := h
  obtain ⟨more, rfl⟩ := foldlM_buffer hsize h0 List.not_mem_nil (Nat.zero_le _) h1
  have hlen : ((rendering format args).foldl (NanoS32.stcatchar size) []).length =
      min (([] : CStr).length + (rendering format args).length) size := length_foldl_stcatchar hsize (Nat.zero_le _)
  rw [List.length_nil, Nat.zero_add] at hlen
  obtain ⟨n, hn, ht⟩ := stcatchar_buffer hsize (by omega) (not_mem_foldl_stcatchar h0 List.not_mem_nil) h2
  exact ⟨n, _, by omega, ht⟩

/-- Whenever it returns, the string that `formatstr` leaves in memory is the right one, and the bytes around the buffer are as they
were. -/
theorem formatstr_string (hsize : 1 ≤ size) (h0 : 0 ∉ rendering format args) {bound : Nat} {t : Traced}
    (h : m.formatstr bound str size format args = some t) :
    t.1.HasStr str (NanoS32.formatstr size format args) ∧ ∀ j, j < str ∨ str + size ≤ j → t.1 j = m j := by
  have hlen : (NanoS32.formatstr size format args).length < size := by
    rw [formatstr_eq, List.length_take]
    omega
  obtain ⟨n, touched, -, rfl⟩ := formatstr_last hsize h0 h
  have hput : m.buffer str size (NanoS32.stcatchar size ((rendering format args).foldl (NanoS32.stcatchar size) []) 0) =
      m.buffer str size (NanoS32.formatstr size format args) := buffer_append_zero hlen
  refine ⟨?_, fun j hj => ?_⟩
  · rw [hput]
    exact hasStr_buffer (by rw [formatstr_eq]; exact fun hmem => h0 (List.mem_of_mem_take hmem)) hlen
  · exact (congrFun hput j).trans (buffer_outside (Nat.le_of_lt hlen) hj)

variable (m str) in
/-- A rendering with room for the 0 behind it is put without leaving the buffer. -/
theorem formatstr_room (h0 : 0 ∉ rendering format args) (hlen : (rendering format args).length < size) :
    ∃ t, m.formatstr size str size format args = some t ∧ ∀ a ∈ t.2, str ≤ a ∧ a < str + size := by
  have hempty : m.memset str 0 size = m.buffer str size [] := (store_nil _ _).symm
  obtain ⟨touched, hfold, htouched⟩ := foldlM_room m str (Nat.le_refl size) h0 List.not_mem_nil
    (by rw [List.length_nil]; omega) (fun a (ha : a ∈ List.range' str size) => List.mem_range'_1.1 ha)
  rw [List.nil_append] at hfold
  have hlast := stcatchar_room m str hlen h0 (Nat.le_refl size) touched 0
  refine ⟨_, (congrArg (· >>= _) (hempty ▸ hfold)).trans hlast, ?_⟩
  intro a ha
  rw [List.mem_append, List.mem_append, List.mem_range'_1, List.mem_singleton] at ha
  rcases ha with (ha | ha) | ha
  · exact htouched a ha
  · omega
  · omega

/-- A longer rendering fills the buffer, and the last `strlen` reads behind it. -/
theorem formatstr_outside (hsize : 1 ≤ size) (h0 : 0 ∉ rendering format args) (hlen : size ≤ (rendering format args).length)
    {bound : Nat} {t : Traced} (h : m.formatstr bound str size format args = some t) : str + size ∈ t.2 := by
  obtain ⟨n, touched, hn, rfl⟩ := formatstr_last hsize h0 h
  refine List.mem_append_left _ (List.mem_append_right _ (List.mem_range'_1.2 ?_))
  omega

end Mem

/-- The numbers of a format are converted with at most 23 digits. -/
def WidthsFit (format : CStr) (args : List FormatArg) : Prop :=
  ∀ conv nDigits value, (conv, nDigits, .num value) ∈ formatConversions format.length format args 0 →
    conv ∈ [(100 : UInt8), 117, 120] → nDigits ≤ 23

/-- A conversion has one of the arguments. -/
theorem mem_args_of_conversion : ∀ {fuel : Nat} {format : CStr} {args : List FormatArg} {count : Nat} {conv : UInt8} {nDigits : Nat}
    {arg : FormatArg}, (conv, nDigits, arg) ∈ formatConversions fuel format args count → arg ∈ args := by
  intro fuel
  induction fuel with
  | zero => exact fun h => absurd h List.not_mem_nil
  | succ fuel ih =>
    intro format args count conv nDigits arg h
    cases format with
    | nil => exact absurd h List.not_mem_nil
    | cons ch format =>
      rw [formatConversions] at h
      split_ifs at h with hch
      · obtain ⟨⟨n, rest⟩, hwidth⟩ : ∃ w, w = formatWidth format 0 := ⟨_, rfl⟩
        simp only [← hwidth] at h
        split at h
        · split at h
          · rcases List.mem_cons.1 h with heq | h
            · cases heq
              exact List.mem_cons_self
            · exact List.mem_cons_of_mem _ (ih h)
          · exact List.mem_cons_of_mem _ (ih h)
        · exact ih h
      · exact ih h

/-- The local array of `formatstr_putf` is not left just when the numbers have at most 23 digits. -/
theorem formatPutfWrites_inside {format : CStr} {args : List FormatArg} (hargs : ∀ value, .num value ∈ args → value < 2 ^ 32) :
    (∀ write ∈ formatPutfWrites format args, 0 ≤ write.1 ∧ write.1 < 24) ↔ WidthsFit format args := by
  constructor
  · intro h conv nDigits value hmem hconv
    exact (formatWrites_inside_iff (hargs value (mem_args_of_conversion hmem)) hconv).1 fun write hwrite =>
      h write (List.mem_flatMap.2 ⟨_, hmem, hwrite⟩)
  · intro h write hwrite
    obtain ⟨⟨conv, nDigits, arg⟩, hmem, hwrite⟩ := List.mem_flatMap.1 hwrite
    cases arg with
    | str value => exact absurd hwrite List.not_mem_nil
    | num value =>
      by_cases hconv : conv ∈ [(100 : UInt8), 117, 120]
      · have hv := hargs value (mem_args_of_conversion hmem)
        exact (formatWrites_inside_iff hv hconv).2 (h conv nDigits value hmem hconv) write hwrite
      · simp only [List.mem_cons, List.not_mem_nil, or_false, not_or] at hconv
        have hnone : formatWrites conv nDigits value = [] := by
          rw [formatWrites, if_neg hconv.1, if_neg hconv.2.1, if_neg hconv.2.2]
        have hin : write ∈ formatWrites conv nDigits value := hwrite
        rw [hnone] at hin
        exact absurd hin List.not_mem_nil

/-- `formatstr` keeps to its buffer and to the array just when the rendering is shorter than the buffer and the numbers in it have
at most 23 digits. -/
theorem formatstr_within (m : Mem) (str : Nat) {size : Nat} (hsize : 1 ≤ size) {format : CStr} {args : List FormatArg}
    (hargs : ∀ value, .num value ∈ args → value < 2 ^ 32) (h0 : 0 ∉ rendering format args) :
    FormatsWithin m str size format args ↔ (rendering format args).length < size ∧ WidthsFit format args := by
  rw [← formatPutfWrites_inside hargs]
  constructor
  · rintro ⟨bound, m', touched, hrun, -, -, htouched, hwrites⟩
    refine ⟨?_, hwrites⟩
    by_contra hlen
    have hout := htouched _ (Mem.formatstr_outside hsize h0 (Nat.le_of_not_lt hlen) hrun)
    omega
  · rintro ⟨hlen, hwrites⟩
    obtain ⟨⟨m', touched⟩, hrun, htouched⟩ := Mem.formatstr_room m str h0 hlen
    obtain ⟨hstr, hframe⟩ := Mem.formatstr_string hsize h0 hrun
    rw [formatstr_eq] at hstr
    exact ⟨size, m', touched, hrun, hstr, hframe, htouched, hwrites⟩

theorem formatstr_within_number : FormatsWithin (fun _ => 255) 100 4 [37, 117] [.num 70] ↔
    (rendering [37, 117] [.num 70]).length < 4 ∧ WidthsFit [37, 117] [.num 70] :=
  formatstr_within (fun _ => 255) 100 (by decide) (fun value h => by
    obtain rfl : value = 70 := by simpa using h
    decide) (by decide +kernel)

/-- One character in a buffer of one byte: it is put where the 0 was, and the end is looked for behind it. -/
theorem formatstr_full : ¬FormatsWithin (fun _ => 0) 0 1 [97] [] := by
  rintro ⟨bound, m', touched, hrun, -, -, htouched, -⟩
  have hmem := Mem.formatstr_outside (by decide) (by decide +kernel) (by decide +kernel) hrun
  exact absurd (htouched _ hmem).2 (by decide)

end NanoS32
