import NanoS32.Lemmas.Assembler

/-!
# Data lines

What a data line does in full: it fails outside an array, or it appends its values, the lowest byte first.
-/

namespace NanoS32

/-! ## Symbols -/

/-- A symbol is in the table, or there is an empty entry for it. -/
def HasEntry (sTable : Nat → Symbol) (name : CStr) : Prop := ∃ s < sMax, (sTable s).name = name ∨ (sTable s).name = []

theorem Found.lt {T T' : Nat → Symbol} {name : CStr} {s : Nat} (h : Found T name T' s) (hentry : HasEntry T name) : s < sMax := by
  cases h with
  | found hs => exact hs.lt
  | added hlt => exact hlt
  | full hfull =>
    obtain ⟨i, hi, hname | hempty⟩ := hentry
    · exact absurd hname (hfull i hi).2
    · exact absurd hempty (hfull i hi).1

theorem Found.hasEntry {T T' : Nat → Symbol} {name : CStr} {s : Nat} (h : Found T name T' s) (hlt : s < sMax) : HasEntry T name := by
  cases h with
  | found hs => exact ⟨s, hs.lt, Or.inl hs.name_eq⟩
  | added hlt hempty => exact ⟨s, hlt, Or.inr hempty⟩
  | full => exact absurd hlt (by decide)

theorem defineSymbol_ok {st : Asm} {name : CStr} (h : HasEntry st.sTable name) (type : SType) :
    ∃ T, defineSymbol st name type = .ok { st with sTable := T } := by
  unfold defineSymbol setSymbol
  dsimp only
  rw [if_pos ((findOrAddSymbol_found st.sTable name).lt h)]
  exact ⟨_, rfl⟩

theorem defineSymbol_outside {st : Asm} {name : CStr} (h : ¬HasEntry st.sTable name) (type : SType) :
    defineSymbol st name type = .error (.outside .sTable) :=
  if_neg fun hlt => h ((findOrAddSymbol_found st.sTable name).hasEntry hlt)

/-! ## Values -/

/-- The bytes of a value of a data type, and the data type of a directive. -/
def dataWidth : SType → Nat
  | .datad => 4
  | .dataw => 2
  | .datab => 1
  | .label => 0

def dataType (tok : CStr) : Option SType :=
  if tok = ascii "dd" then some .datad
  else if tok = ascii "dw" then some .dataw
  else if tok = ascii "db" then some .datab
  else none

/-- The low bytes of a number, the lowest first. -/
def littleEndian (w n : Nat) : List UInt8 := (List.range w).map fun i => UInt8.ofNat (n / 256 ^ i)

theorem length_littleEndian (w n : Nat) : (littleEndian w n).length = w := by
  rw [littleEndian, List.length_map, List.length_range]

/-- The low bytes are the number modulo a power of 256. -/
theorem littleEndian_inj (w m n : Nat) : littleEndian w m = littleEndian w n ↔ m % 256 ^ w = n % 256 ^ w := by
  induction w with
  | zero =>
    rw [Nat.pow_zero, Nat.mod_one, Nat.mod_one]
    exact iff_of_true rfl rfl
  | succ w ih =>
    have hsucc : ∀ n, littleEndian (w + 1) n = littleEndian w n ++ [UInt8.ofNat (n / 256 ^ w)] := by
      intro n
      rw [littleEndian, List.range_succ, List.map_append]
      rfl
    have hbyte : UInt8.ofNat (m / 256 ^ w) = UInt8.ofNat (n / 256 ^ w) ↔ m / 256 ^ w % 256 = n / 256 ^ w % 256 := by
      rw [← UInt8.toNat_inj, UInt8.toNat_ofNat', UInt8.toNat_ofNat']
    have hlow : ∀ n, n % 256 ^ (w + 1) % 256 ^ w = n % 256 ^ w := fun n =>
      Nat.mod_mod_of_dvd n (Nat.pow_dvd_pow 256 (Nat.le_succ w))
    have hhigh : ∀ n, n % 256 ^ (w + 1) / 256 ^ w = n / 256 ^ w % 256 := fun n => by
      rw [Nat.pow_succ, Nat.mod_mul_right_div_self]
    rw [hsucc, hsucc]
    constructor
    · intro h
      obtain ⟨hbytes, hlast⟩ := List.append_inj' h rfl
      rw [Nat.mod_pow_succ, Nat.mod_pow_succ, ih.1 hbytes, hbyte.1 (List.singleton_inj.1 hlast)]
    · intro h
      have hm : m % 256 ^ w = n % 256 ^ w := by rw [← hlow m, ← hlow n, h]
      have hb : m / 256 ^ w % 256 = n / 256 ^ w % 256 := by rw [← hhigh m, ← hhigh n, h]
      rw [ih.2 hm, hbyte.2 hb]

/-- A value is written with the lowest byte first. -/
theorem dataBytes_eq (type : SType) (value : Nat) : dataBytes type value = littleEndian (dataWidth type) value := by
  have hzero : value / 256 ^ 0 = value := Nat.div_one value
  cases type with
  | datad =>
    change [UInt8.ofNat value, UInt8.ofNat (value / 256), UInt8.ofNat (value / 65536), UInt8.ofNat (value / 16777216)] =
      [UInt8.ofNat (value / 256 ^ 0), UInt8.ofNat (value / 256 ^ 1), UInt8.ofNat (value / 256 ^ 2), UInt8.ofNat (value / 256 ^ 3)]
    rw [hzero]
    rfl
  | dataw =>
    change [UInt8.ofNat value, UInt8.ofNat (value >>> 8)] = [UInt8.ofNat (value / 256 ^ 0), UInt8.ofNat (value / 256 ^ 1)]
    rw [hzero, Nat.shiftRight_eq_div_pow]
    rfl
  | datab =>
    change [UInt8.ofNat value] = [UInt8.ofNat (value / 256 ^ 0)]
    rw [hzero]
  | label => rfl

/-- What `stou` drops of a number is above the bytes of every data type. -/
theorem littleEndian_mod (type : SType) (n : Nat) :
    littleEndian (dataWidth type) (n % 4294967296) = littleEndian (dataWidth type) n := by
  refine (littleEndian_inj _ _ _).2 (Nat.mod_mod_of_dvd n ?_)
  cases type <;> decide

theorem length_valueBytes (type : SType) (values : List CStr) : (valueBytes type values).length = dataWidth type * values.length := by
  induction values with
  | nil => rfl
  | cons tok values ih =>
    rw [valueBytes, List.flatMap_cons, List.length_append, dataBytes_eq, length_littleEndian, List.length_cons, Nat.mul_succ,
      Nat.add_comm]
    exact congrArg (· + dataWidth type) ih

/-! ## Lines -/

theorem dataType_mem {tok : CStr} {type : SType} (h : dataType tok = some type) :
    tok ∈ [ascii "dd", ascii "dw", ascii "db"] := by
  unfold dataType at h
  split_ifs at h with hdd hdw hdb
  · exact hdd ▸ List.mem_cons_self
  · exact hdw ▸ List.mem_cons_of_mem _ List.mem_cons_self
  · exact hdb ▸ List.mem_cons_of_mem _ (List.mem_cons_of_mem _ List.mem_cons_self)

/-- A data line that fits appends its bytes. -/
theorem dataLine_ok {st : Asm} {type : SType} {name : CStr} {values : List CStr} (hi : st.ooffset ≤ obuffSize)
    (hentry : HasEntry st.sTable name) (hfit : st.ooffset + dataWidth type * values.length ≤ obuffSize) :
    ∃ T, dataLine st type name values = .ok (Asm.append { st with sTable := T } (valueBytes type values)) := by
  obtain ⟨T, hdef⟩ := defineSymbol_ok hentry type
  refine ⟨T, ?_⟩
  rw [dataLine, hdef]
  exact (dataLoop_eq type values { st with sTable := T } hi).trans (if_pos (by rwa [length_valueBytes]))

/-- Values that do not fit are written outside the output buffer. -/
theorem dataLoop_outside {st : Asm} {type : SType} {values : List CStr} (hne : values ≠ [])
    (hfit : ¬st.ooffset + dataWidth type * values.length ≤ obuffSize) : dataLoop type values st = .error (.outside .obuff) := by
  by_cases hi : st.ooffset ≤ obuffSize
  · rw [dataLoop_eq type values st hi, length_valueBytes]
    exact if_neg hfit
  · cases values with
    | nil => exact absurd rfl hne
    | cons tok values =>
      have hout : checkOutput (encodeData st.obuff st.ooffset type (stou tok)) = .error (.outside .obuff) :=
        if_neg fun hle => hi (Nat.le_trans (Nat.le_add_right _ _) hle)
      rw [dataLoop, hout]
      rfl

/-- A data line that does not fit has an access outside its array. -/
theorem dataLine_outside {st : Asm} {type : SType} {name : CStr} {values : List CStr} (hne : values ≠ [])
    (h : ¬(HasEntry st.sTable name ∧ st.ooffset + dataWidth type * values.length ≤ obuffSize)) :
    ∃ array, dataLine st type name values = .error (.outside array) := by
  by_cases hentry : HasEntry st.sTable name
  · obtain ⟨T, hdef⟩ := defineSymbol_ok hentry type
    rw [dataLine, hdef]
    exact ⟨.obuff, dataLoop_outside hne fun hfit => h ⟨hentry, hfit⟩⟩
  · rw [dataLine, defineSymbol_outside hentry]
    exact ⟨.sTable, rfl⟩

/-- The line of a directive is a data line. -/
theorem asmLine_data {dir : CStr} {type : SType} (hdir : dataType dir = some type) {values : List CStr} (hne : values ≠ []) (st : Asm)
    (name : CStr) : asmLine st (name :: dir :: values) = dataLine st type name values := by
  have hlen : 2 ≤ (dir :: values).length := by
    have := List.length_pos_of_ne_nil hne
    rw [List.length_cons]
    omega
  have horg : ¬((dir :: values).length = 1 ∧ name = ascii "ORG") := fun h => by omega
  have hlabel : ¬(dir :: values = [] ∧ name.getLast? = some 58) := fun h => absurd h.1 (List.cons_ne_nil _ _)
  unfold dataType at hdir
  unfold asmLine
  dsimp only
  rw [if_neg horg, if_neg hlabel]
  split_ifs at hdir with hdd hdw hdb
  · obtain rfl := Option.some.inj hdir
    rw [if_pos ⟨hlen, hdd⟩]
    rfl
  · obtain rfl := Option.some.inj hdir
    rw [if_neg fun h => hdd h.2, if_pos ⟨hlen, hdw⟩]
    rfl
  · obtain rfl := Option.some.inj hdir
    rw [if_neg fun h => hdd h.2, if_neg fun h => hdw h.2, if_pos ⟨hlen, hdb⟩]
    rfl

end NanoS32
