import NanoS32.Hwio.Keyboard

/-!
# What is typed

The keyboard sends a byte when a key is pressed and one when it is released, behind 0xE0 for some of the keys. Over any polls of its
controller, those included that find nothing or a byte of the mouse, `kb_get` gives the characters of the keys that are pressed: which
of them depends on the modifiers that are held, by their last events, and on how often the locks have been pressed.
-/

namespace NanoS32

/-- A key: the code that it sends when it is pressed, and whether it sends 0xE0 before. No key has the code 0x60, with which its
release would be a 0xE0. -/
structure Key where
  code : UInt8
  extended : Bool
  code_lt : code < 0x80
  code_ne : code ≠ 0x60

/-- The index of a key in the tables. -/
def Key.index (k : Key) : UInt8 := if k.extended then k.code ||| 0x80 else k.code

/-- A key that is pressed or released. -/
structure KeyEvent where
  key : Key
  pressed : Bool

/-- The byte of the event. -/
def KeyEvent.byte (e : KeyEvent) : UInt8 := if e.pressed then e.key.code else e.key.code ||| 0x80

/-- What the keyboard sends for it. -/
def KeyEvent.bytes (e : KeyEvent) : List UInt8 := if e.key.extended then [0xE0, e.byte] else [e.byte]

/-- The last event on one of the keys was that it has been pressed. -/
def held (keys : List UInt8) (events : List KeyEvent) : Bool :=
  ((events.reverse.find? fun e => keys.contains e.key.index).map KeyEvent.pressed).getD false

/-- The key has been pressed an odd number of times. -/
def toggled (key : UInt8) (events : List KeyEvent) : Bool :=
  (events.countP fun e => e.pressed && e.key.index == key) % 2 == 1

/-- The shift keys, the left one and the right one. -/
def shiftKeys : List UInt8 := [0x2A, 0x36]

/-- The control keys. -/
def ctlKeys : List UInt8 := [0x1D, 0x9D]

/-- The alt keys. -/
def altKeys : List UInt8 := [0x38, 0xB8]

/-- The key for CAPSLOCK. -/
def capsKey : UInt8 := 0x3A

/-- The key for NUMLOCK. -/
def numKey : UInt8 := 0x45

/-- The key for SCROLLLOCK. -/
def scrollKey : UInt8 := 0x46

/-- The character of a key that is pressed after `past`, or 0. -/
def keyChar (past : List KeyEvent) (k : Key) : UInt8 :=
  let c := (if held ctlKeys past then ctlMap else if held shiftKeys past then shiftMap else normalMap) k.index
  if toggled capsKey past then capsCase c else c

/-- The character that the event types after those of `past`, or 0. -/
def KeyEvent.char (past : List KeyEvent) (e : KeyEvent) : UInt8 := if e.pressed then keyChar (past ++ [e]) e.key else 0

/-- The characters that are typed with the events after those of `past`. -/
def typedChars : List KeyEvent → List KeyEvent → List UInt8
  | _, [] => []
  | past, e :: events => [e.char past].filter (· ≠ 0) ++ typedChars (past ++ [e]) events

/-- The byte of the keyboard that a poll finds, if any. -/
def KbPoll.heard (poll : KbPoll) : Option UInt8 :=
  if poll.status &&& kbDataInBuff = 0 ∨ poll.status &&& 0x20 ≠ 0 then none else some poll.data

/-- The flags that `shift` has after the events, but for `E0ESC`. -/
structure Shifted (s : BitVec 32) (events : List KeyEvent) : Prop where
  shift : s.getLsbD 0 = held shiftKeys events
  ctl : s.getLsbD 1 = held ctlKeys events
  alt : s.getLsbD 2 = held altKeys events
  caps : s.getLsbD 3 = toggled capsKey events
  num : s.getLsbD 4 = !toggled numKey events
  scroll : s.getLsbD 5 = toggled scrollKey events

theorem held_snoc (keys : List UInt8) (events : List KeyEvent) (e : KeyEvent) :
    held keys (events ++ [e]) = if keys.contains e.key.index then e.pressed else held keys events := by
  unfold held
  rw [List.reverse_append, List.reverse_singleton, List.singleton_append, List.find?_cons]
  cases keys.contains e.key.index
  · simp
  · simp

theorem toggled_snoc (key : UInt8) (events : List KeyEvent) (e : KeyEvent) :
    toggled key (events ++ [e]) = (toggled key events ^^ (e.pressed && e.key.index == key)) := by
  unfold toggled
  rw [List.countP_append, List.countP_singleton]
  cases e.pressed && e.key.index == key
  · simp
  · rcases Nat.mod_two_eq_zero_or_one (events.countP fun e => e.pressed && e.key.index == key) with h | h
    · simp [Nat.add_mod, h]
    · simp [Nat.add_mod, h]

/-- What is checked for each byte. -/
theorem forall_byte {p : UInt8 → Prop} (h : ∀ i : Fin 256, p (UInt8.ofNat i)) (x : UInt8) : p x := by
  have hx := h ⟨x.toNat, x.toNat_lt⟩
  simpa using hx

/-- The bits of the codes that change `shift` while their keys are held. -/
theorem shiftCode_bits (index : UInt8) :
    (shiftCode index).getLsbD 0 = shiftKeys.contains index ∧ (shiftCode index).getLsbD 1 = ctlKeys.contains index ∧
      (shiftCode index).getLsbD 2 = altKeys.contains index ∧ ∀ i < 7, 3 ≤ i → (shiftCode index).getLsbD i = false := by
  revert index
  exact forall_byte (by decide +kernel)

/-- The bits of the codes that change `shift` when their keys are pressed. -/
theorem toggleCode_bits (index : UInt8) :
    (toggleCode index).getLsbD 3 = (index == capsKey) ∧ (toggleCode index).getLsbD 4 = (index == numKey) ∧
      (toggleCode index).getLsbD 5 = (index == scrollKey) ∧
        ∀ i < 7, i < 3 ∨ i = 6 → (toggleCode index).getLsbD i = false := by
  revert index
  exact forall_byte (by decide +kernel)

theorem charcode_eq (s : BitVec 32) :
    charcode (s &&& (kbCtl ||| kbShift)) = if s.getLsbD 1 then ctlMap else if s.getLsbD 0 then shiftMap else normalMap := by
  have hindex : (s &&& (kbCtl ||| kbShift)).toNat = s.toNat % 4 := by
    rw [BitVec.toNat_and]
    exact Nat.and_two_pow_sub_one_eq_mod s.toNat 2
  have h0 : s.getLsbD 0 = decide (s.toNat % 4 % 2 = 1) := by
    rw [Nat.mod_mod_of_dvd s.toNat (by decide : 2 ∣ 4)]
    exact Nat.testBit_zero s.toNat
  have h1 : s.getLsbD 1 = decide (s.toNat % 4 / 2 = 1) := by
    rw [show 4 = 2 * 2 from rfl, Nat.mod_mul_right_div_self]
    exact (Nat.testBit_add_one s.toNat 0).trans (Nat.testBit_zero (s.toNat / 2))
  unfold charcode
  rw [hindex, h0, h1]
  have hcases : s.toNat % 4 = 0 ∨ s.toNat % 4 = 1 ∨ s.toNat % 4 = 2 ∨ s.toNat % 4 = 3 := by omega
  rcases hcases with h | h | h | h
  · rw [h]
    rfl
  · rw [h]
    rfl
  · rw [h]
    rfl
  · rw [h]
    rfl

/-- The letters in the three tables. -/
theorem letter_maps (index : UInt8) : 97 ≤ normalMap index ∧ normalMap index ≤ 122 →
    shiftMap index = normalMap index - 32 ∧ ctlMap index = normalMap index - 96 ∧ capsCase (normalMap index) = normalMap index - 32 ∧
      capsCase (normalMap index - 32) = normalMap index ∧ capsCase (normalMap index - 96) = normalMap index - 96 := by
  revert index
  exact forall_byte (by decide +kernel)

/-- A letter key types the capital when just one of shift and CAPSLOCK is on, and the control character with control. -/
theorem keyChar_letter (past : List KeyEvent) {k : Key} (hletter : 97 ≤ normalMap k.index ∧ normalMap k.index ≤ 122) :
    keyChar past k =
      if held ctlKeys past then normalMap k.index - 96
      else if held shiftKeys past = toggled capsKey past then normalMap k.index
      else normalMap k.index - 32 := by
  obtain ⟨hshift, hctl, hcaps, hback, hsame⟩ := letter_maps k.index hletter
  unfold keyChar
  cases held ctlKeys past
  · cases held shiftKeys past <;> cases toggled capsKey past <;> simp [hshift, hcaps, hback]
  · cases toggled capsKey past <;> simp [hctl, hsame]

/-! ## One event -/

/-- A flag is set in `s` when its bit is. -/
theorem and_flag_ne_zero (s : BitVec 32) {i : Nat} (hi : i < 32) : s &&& BitVec.twoPow 32 i ≠ 0 ↔ s.getLsbD i = true := by
  rw [BitVec.and_twoPow]
  have hne : BitVec.twoPow 32 i ≠ 0 := fun h => by
    have hbit := @BitVec.getLsbD_twoPow 32 i i
    simp [h, hi] at hbit
  cases s.getLsbD i
  · simp
  · exact iff_of_true hne rfl

theorem kbGet_none {poll : KbPoll} (h : poll.heard = none) (s : BitVec 32) : kbGet poll s = (0, s) := by
  unfold KbPoll.heard at h
  unfold kbGet
  split_ifs at h with hnone
  rcases hnone with hstatus | hmouse
  · rw [if_pos hstatus]
  · rw [if_pos hmouse, ite_self]

theorem kbGet_some {poll : KbPoll} {data : UInt8} (h : poll.heard = some data) (s : BitVec 32) :
    kbGet poll s = kbDecode data s := by
  unfold KbPoll.heard at h
  split_ifs at h with hnone
  cases h
  obtain ⟨hstatus, hmouse⟩ := not_or.1 hnone
  unfold kbGet
  rw [if_neg hstatus, if_neg hmouse]

/-- The bytes of a key, without 0xE0 and apart from it. -/
theorem code_bits (code : UInt8) : code < 0x80 → code ≠ 0x60 →
    code ≠ 0xE0 ∧ code &&& 0x80 = 0 ∧ code ||| 0x80 ≠ 0xE0 ∧ (code ||| 0x80) &&& 0x80 ≠ 0 ∧ (code ||| 0x80) &&& 0x7F = code := by
  revert code
  exact forall_byte (by decide +kernel)

/-- `E0ESC` is set as it should be for the key. -/
theorem e0esc_iff {s : BitVec 32} {k : Key} (hesc : s.getLsbD 6 = k.extended) : s &&& kbE0esc ≠ 0 ↔ k.extended = true :=
  hesc ▸ and_flag_ne_zero s (by decide)

/-- The byte for a key that is released, behind 0xE0 where it should be. -/
theorem kbDecode_released {k : Key} {s : BitVec 32} (hesc : s.getLsbD 6 = k.extended) :
    kbDecode (k.code ||| 0x80) s = (0, s &&& ~~~(shiftCode k.index ||| kbE0esc)) := by
  obtain ⟨-, -, hne, hbit, hcode⟩ := code_bits k.code k.code_lt k.code_ne
  unfold kbDecode
  rw [if_neg hne, if_pos hbit]
  simp only [e0esc_iff hesc, hcode, Key.index]

/-- What `shift` is when a key has been pressed. -/
def pressedShift (s : BitVec 32) (index : UInt8) : BitVec 32 := ((s &&& ~~~kbE0esc) ||| shiftCode index) ^^^ toggleCode index

theorem and_not_e0esc {s : BitVec 32} (h : s.getLsbD 6 = false) : s &&& ~~~kbE0esc = s := by
  refine BitVec.eq_of_getLsbD_eq fun i hi => ?_
  rw [BitVec.getLsbD_and, BitVec.getLsbD_not, show kbE0esc = BitVec.twoPow 32 6 from rfl, BitVec.getLsbD_twoPow]
  by_cases h6 : 6 = i
  · rw [← h6, h, Bool.false_and]
  · simp [hi, h6]

/-- The byte for a key that is pressed, behind 0xE0 where it should be. -/
theorem kbDecode_pressed {k : Key} {s : BitVec 32} (hesc : s.getLsbD 6 = k.extended) :
    (kbDecode k.code s).2 = pressedShift s k.index ∧
      (kbDecode k.code s).1 =
        (if pressedShift s k.index &&& kbCapslock ≠ 0
         then capsCase (charcode (pressedShift s k.index &&& (kbCtl ||| kbShift)) k.index)
         else charcode (pressedShift s k.index &&& (kbCtl ||| kbShift)) k.index) := by
  obtain ⟨hne, hbit, -, -, -⟩ := code_bits k.code k.code_lt k.code_ne
  have hflag := e0esc_iff hesc
  unfold kbDecode
  rw [if_neg hne, if_neg (not_not.2 hbit)]
  by_cases hext : k.extended = true
  · have hindex : k.index = k.code ||| 0x80 := if_pos hext
    simp only [if_pos (hflag.2 hext), hindex, pressedShift, true_and]
  · have hindex : k.index = k.code := if_neg hext
    have hclear := and_not_e0esc (hesc.trans (Bool.eq_false_iff.2 hext))
    simp only [if_neg fun h => hext (hflag.1 h), hindex, pressedShift, hclear, true_and]

/-! ## The flags -/

theorem kbE0esc_bit {i : Nat} (hi : i < 7) : kbE0esc.getLsbD i = decide (i = 6) := by
  revert i
  decide

theorem pressedShift_bit (s : BitVec 32) (index : UInt8) {i : Nat} (hi : i < 7) :
    (pressedShift s index).getLsbD i =
      ((s.getLsbD i && !decide (i = 6) || (shiftCode index).getLsbD i) ^^ (toggleCode index).getLsbD i) := by
  have h32 : i < 32 := Nat.lt_of_lt_of_le hi (by decide)
  unfold pressedShift
  rw [BitVec.getLsbD_xor, BitVec.getLsbD_or, BitVec.getLsbD_and, BitVec.getLsbD_not, kbE0esc_bit hi]
  simp [h32]

theorem releasedShift_bit (s : BitVec 32) (index : UInt8) {i : Nat} (hi : i < 7) :
    (s &&& ~~~(shiftCode index ||| kbE0esc)).getLsbD i =
      (s.getLsbD i && !((shiftCode index).getLsbD i || decide (i = 6))) := by
  have h32 : i < 32 := Nat.lt_of_lt_of_le hi (by decide)
  rw [BitVec.getLsbD_and, BitVec.getLsbD_not, BitVec.getLsbD_or, kbE0esc_bit hi]
  simp [h32]

theorem shifted_init : Shifted kbNumlock [] := ⟨rfl, rfl, rfl, rfl, rfl, rfl⟩

/-- 0xE0 does not change the other flags. -/
theorem Shifted.escaped {s : BitVec 32} {events : List KeyEvent} (h : Shifted s events) : Shifted (s ||| kbE0esc) events := by
  have hbit : ∀ i < 6, (s ||| kbE0esc).getLsbD i = s.getLsbD i := fun i hi => by
    rw [BitVec.getLsbD_or, kbE0esc_bit (Nat.lt_succ_of_lt hi), decide_eq_false (Nat.ne_of_lt hi), Bool.or_false]
  exact ⟨(hbit 0 (by decide)).trans h.shift, (hbit 1 (by decide)).trans h.ctl, (hbit 2 (by decide)).trans h.alt,
    (hbit 3 (by decide)).trans h.caps, (hbit 4 (by decide)).trans h.num, (hbit 5 (by decide)).trans h.scroll⟩

section Step

variable {s : BitVec 32} {past : List KeyEvent} {e : KeyEvent} {i : Nat}

/-- The bit of a modifier when a key is pressed. -/
theorem held_pressed {keys : List UInt8} (hi : i < 3) (hcode : (shiftCode e.key.index).getLsbD i = keys.contains e.key.index)
    (hbit : s.getLsbD i = held keys past) (he : e.pressed = true) :
    (pressedShift s e.key.index).getLsbD i = held keys (past ++ [e]) := by
  have hi7 : i < 7 := Nat.lt_of_lt_of_le hi (by decide)
  have h6 : i ≠ 6 := Nat.ne_of_lt (Nat.lt_of_lt_of_le hi (by decide))
  rw [pressedShift_bit s _ hi7, (toggleCode_bits _).2.2.2 i hi7 (Or.inl hi), hcode, hbit, held_snoc, he]
  cases keys.contains e.key.index <;> simp [h6]

/-- The bit of a modifier when a key is released. -/
theorem held_released {keys : List UInt8} (hi : i < 3) (hcode : (shiftCode e.key.index).getLsbD i = keys.contains e.key.index)
    (hbit : s.getLsbD i = held keys past) (he : e.pressed = false) :
    (s &&& ~~~(shiftCode e.key.index ||| kbE0esc)).getLsbD i = held keys (past ++ [e]) := by
  have hi7 : i < 7 := Nat.lt_of_lt_of_le hi (by decide)
  have h6 : i ≠ 6 := Nat.ne_of_lt (Nat.lt_of_lt_of_le hi (by decide))
  rw [releasedShift_bit s _ hi7, hcode, hbit, held_snoc, he]
  cases keys.contains e.key.index <;> simp [h6]

theorem toggled_pressed (key : UInt8) (he : e.pressed = true) :
    toggled key (past ++ [e]) = (toggled key past ^^ (e.key.index == key)) := by
  rw [toggled_snoc, he, Bool.true_and]

theorem toggled_released (key : UInt8) (he : e.pressed = false) : toggled key (past ++ [e]) = toggled key past := by
  rw [toggled_snoc, he, Bool.false_and, Bool.xor_false]

/-- The bit of a lock when a key is pressed. -/
theorem pressedShift_lock (index : UInt8) (h3 : 3 ≤ i) (hi : i < 6) :
    (pressedShift s index).getLsbD i = (s.getLsbD i ^^ (toggleCode index).getLsbD i) := by
  have hi7 : i < 7 := Nat.lt_succ_of_lt hi
  rw [pressedShift_bit s _ hi7, (shiftCode_bits _).2.2.2 i hi7 h3]
  simp [Nat.ne_of_lt hi]

/-- The bit of a lock when a key is released. -/
theorem releasedShift_lock (index : UInt8) (h3 : 3 ≤ i) (hi : i < 6) :
    (s &&& ~~~(shiftCode index ||| kbE0esc)).getLsbD i = s.getLsbD i := by
  have hi7 : i < 7 := Nat.lt_succ_of_lt hi
  rw [releasedShift_bit s _ hi7, (shiftCode_bits _).2.2.2 i hi7 h3]
  simp [Nat.ne_of_lt hi]

theorem Shifted.pressed (h : Shifted s past) (he : e.pressed = true) :
    Shifted (pressedShift s e.key.index) (past ++ [e]) := by
  obtain ⟨s0, s1, s2, -⟩ := shiftCode_bits e.key.index
  obtain ⟨t3, t4, t5, -⟩ := toggleCode_bits e.key.index
  refine ⟨held_pressed (by decide) s0 h.shift he, held_pressed (by decide) s1 h.ctl he, held_pressed (by decide) s2 h.alt he,
    ?_, ?_, ?_⟩
  · rw [pressedShift_lock _ (by decide) (by decide), h.caps, t3, toggled_pressed capsKey he]
  · rw [pressedShift_lock _ (by decide) (by decide), h.num, t4, toggled_pressed numKey he, Bool.not_xor]
  · rw [pressedShift_lock _ (by decide) (by decide), h.scroll, t5, toggled_pressed scrollKey he]

theorem Shifted.released (h : Shifted s past) (he : e.pressed = false) :
    Shifted (s &&& ~~~(shiftCode e.key.index ||| kbE0esc)) (past ++ [e]) := by
  obtain ⟨s0, s1, s2, -⟩ := shiftCode_bits e.key.index
  refine ⟨held_released (by decide) s0 h.shift he, held_released (by decide) s1 h.ctl he, held_released (by decide) s2 h.alt he,
    ?_, ?_, ?_⟩
  · rw [releasedShift_lock _ (by decide) (by decide), h.caps, toggled_released capsKey he]
  · rw [releasedShift_lock _ (by decide) (by decide), h.num, toggled_released numKey he]
  · rw [releasedShift_lock _ (by decide) (by decide), h.scroll, toggled_released scrollKey he]

end Step

/-- The byte of an event, when 0xE0 has come before it where it should. -/
theorem kbDecode_event {e : KeyEvent} {s : BitVec 32} {past : List KeyEvent} (h : Shifted s past)
    (hesc : s.getLsbD 6 = e.key.extended) :
    (kbDecode e.byte s).1 = e.char past ∧ Shifted (kbDecode e.byte s).2 (past ++ [e]) ∧ (kbDecode e.byte s).2.getLsbD 6 = false := by
  unfold KeyEvent.byte KeyEvent.char
  by_cases he : e.pressed = true
  · obtain ⟨hshift, hchar⟩ := kbDecode_pressed hesc
    have hs := h.pressed he
    have hcaps := and_flag_ne_zero (pressedShift s e.key.index) (show 3 < 32 by decide)
    rw [if_pos he, if_pos he, hshift, hchar, charcode_eq, hs.shift, hs.ctl]
    refine ⟨?_, hs, ?_⟩
    · unfold keyChar
      rw [← hs.caps]
      exact if_congr hcaps rfl rfl
    · rw [pressedShift_bit s _ (by decide), (shiftCode_bits _).2.2.2 6 (by decide) (by decide),
        (toggleCode_bits _).2.2.2 6 (by decide) (Or.inr rfl)]
      simp
  · rw [if_neg he, if_neg he, kbDecode_released hesc]
    refine ⟨rfl, h.released (Bool.eq_false_iff.2 he), ?_⟩
    rw [releasedShift_bit s _ (by decide)]
    simp

/-! ## A run of events -/

/-- The characters that are read from the bytes, and `shift` after them. -/
def kbBytes : List UInt8 → BitVec 32 → List UInt8 × BitVec 32
  | [], s => ([], s)
  | data :: bytes, s =>
    ([(kbDecode data s).1].filter (· ≠ 0) ++ (kbBytes bytes (kbDecode data s).2).1, (kbBytes bytes (kbDecode data s).2).2)

theorem kbBytes_append (bytes bytes' : List UInt8) (s : BitVec 32) :
    kbBytes (bytes ++ bytes') s =
      ((kbBytes bytes s).1 ++ (kbBytes bytes' (kbBytes bytes s).2).1, (kbBytes bytes' (kbBytes bytes s).2).2) := by
  induction bytes generalizing s with
  | nil => rfl
  | cons data bytes ih =>
    rw [List.cons_append, kbBytes, ih, kbBytes, List.append_assoc]

/-- The bytes of one event. -/
theorem kbBytes_event {e : KeyEvent} {s : BitVec 32} {past : List KeyEvent} (h : Shifted s past) (hidle : s.getLsbD 6 = false) :
    (kbBytes e.bytes s).1 = [e.char past].filter (· ≠ 0) ∧ Shifted (kbBytes e.bytes s).2 (past ++ [e]) ∧
      (kbBytes e.bytes s).2.getLsbD 6 = false := by
  unfold KeyEvent.bytes
  by_cases hext : e.key.extended = true
  · have hesc : (s ||| kbE0esc).getLsbD 6 = e.key.extended := by
      rw [BitVec.getLsbD_or, kbE0esc_bit (by decide), hext, decide_eq_true rfl, Bool.or_true]
    obtain ⟨hchar, hshifted, hidle'⟩ := kbDecode_event h.escaped hesc
    have hprefix : kbDecode 0xE0 s = (0, s ||| kbE0esc) := if_pos rfl
    rw [if_pos hext, kbBytes, kbBytes, kbBytes, hprefix, hchar]
    exact ⟨by simp, hshifted, hidle'⟩
  · have hesc : s.getLsbD 6 = e.key.extended := hidle.trans (Bool.eq_false_iff.2 hext).symm
    obtain ⟨hchar, hshifted, hidle'⟩ := kbDecode_event h hesc
    rw [if_neg hext, kbBytes, kbBytes, hchar]
    exact ⟨by simp, hshifted, hidle'⟩

/-- The bytes of the events after those of `past`. -/
theorem kbBytes_events (events : List KeyEvent) {s : BitVec 32} {past : List KeyEvent} (h : Shifted s past)
    (hidle : s.getLsbD 6 = false) : (kbBytes (events.flatMap KeyEvent.bytes) s).1 = typedChars past events := by
  induction events generalizing s past with
  | nil => rfl
  | cons e events ih =>
    obtain ⟨hchars, hshifted, hidle'⟩ := kbBytes_event (e := e) h hidle
    rw [List.flatMap_cons, kbBytes_append, typedChars, hchars, ih hshifted hidle']

/-! ## Calls of `io_getkey` -/

/-- The first of the characters is what a call that waits returns, and the others come after it. -/
theorem ioGetkey_cons {polls : List KbPoll} {s : BitVec 32} {c : UInt8} {cs : List UInt8}
    (h : (kbBytes (polls.filterMap KbPoll.heard) s).1 = c :: cs) :
    ∃ polls' s', ioGetkey true polls s = some (c, polls', s') ∧ (kbBytes (polls'.filterMap KbPoll.heard) s').1 = cs := by
  induction polls generalizing s with
  | nil => cases h
  | cons poll polls ih =>
    rw [ioGetkey]
    cases hheard : poll.heard with
    | none =>
      rw [List.filterMap_cons_none hheard] at h
      rw [kbGet_none hheard, if_pos ⟨rfl, rfl⟩]
      exact ih h
    | some data =>
      rw [List.filterMap_cons_some hheard, kbBytes] at h
      rw [kbGet_some hheard]
      by_cases hzero : (kbDecode data s).1 = 0
      · rw [if_pos ⟨hzero, rfl⟩]
        refine ih ?_
        simpa [hzero] using h
      · rw [if_neg fun h => hzero h.1]
        have hcons : (kbDecode data s).1 = c ∧ (kbBytes (polls.filterMap KbPoll.heard) (kbDecode data s).2).1 = cs := by
          simpa [hzero] using h
        exact ⟨polls, (kbDecode data s).2, by rw [hcons.1], hcons.2⟩

/-- A call that waits does not return when there is no character. -/
theorem ioGetkey_nil {polls : List KbPoll} {s : BitVec 32} (h : (kbBytes (polls.filterMap KbPoll.heard) s).1 = []) :
    ioGetkey true polls s = none := by
  induction polls generalizing s with
  | nil => rfl
  | cons poll polls ih =>
    rw [ioGetkey]
    cases hheard : poll.heard with
    | none =>
      rw [List.filterMap_cons_none hheard] at h
      rw [kbGet_none hheard, if_pos ⟨rfl, rfl⟩]
      exact ih h
    | some data =>
      rw [List.filterMap_cons_some hheard, kbBytes] at h
      obtain ⟨hnone, hrest⟩ := List.append_eq_nil_iff.1 h
      have hzero : (kbDecode data s).1 = 0 := by simpa using hnone
      rw [kbGet_some hheard, if_pos ⟨hzero, rfl⟩]
      exact ih hrest

theorem getkeys_eq {polls : List KbPoll} {s : BitVec 32} {chars : List UInt8}
    (h : (kbBytes (polls.filterMap KbPoll.heard) s).1 = chars) (n : Nat) :
    getkeys true n polls s = if n ≤ chars.length then some (chars.take n) else none := by
  induction n generalizing polls s chars with
  | zero => simp [getkeys]
  | succ n ih =>
    rw [getkeys]
    cases chars with
    | nil => simp [ioGetkey_nil h]
    | cons c cs =>
      obtain ⟨polls', s', hkey, hrest⟩ := ioGetkey_cons h
      rw [hkey, Option.bind_some, ih hrest]
      by_cases hn : n ≤ cs.length
      · simp [hn]
      · simp [hn]

/-- Whatever the polls find between the bytes of the keyboard, calls of `io_getkey` that wait return the characters of the keys that
are pressed, one after the other, and do not return when there are no more. -/
theorem getkeys_typed {polls : List KbPoll} {events : List KeyEvent}
    (hpolls : polls.filterMap KbPoll.heard = events.flatMap KeyEvent.bytes) (n : Nat) :
    getkeys true n polls kbNumlock =
      if n ≤ (typedChars [] events).length then some ((typedChars [] events).take n) else none := by
  refine getkeys_eq ?_ n
  rw [hpolls]
  exact kbBytes_events events shifted_init rfl

/-- A capital `A`, the key that moves up, and an `a`. -/
def sampleEvents : List KeyEvent :=
  [⟨⟨0x2A, false, by decide, by decide⟩, true⟩, ⟨⟨0x1E, false, by decide, by decide⟩, true⟩, ⟨⟨0x2A, false, by decide, by decide⟩, false⟩,
    ⟨⟨0x48, true, by decide, by decide⟩, true⟩, ⟨⟨0x1E, false, by decide, by decide⟩, true⟩]

/-- Their bytes, with a poll that finds nothing and one that finds a byte of the mouse. -/
def samplePolls : List KbPoll := [⟨1, 0x2A⟩, ⟨0, 0x2A⟩, ⟨1, 0x1E⟩, ⟨1, 0xAA⟩, ⟨1, 0xE0⟩, ⟨0x21, 0xE0⟩, ⟨1, 0x48⟩, ⟨1, 0x1E⟩]

theorem getkeys_typed_sample : getkeys true 3 samplePolls kbNumlock = some [65, 0xE7, 97] := by
  rw [@getkeys_typed samplePolls sampleEvents (by decide) 3]
  decide +kernel

end NanoS32
