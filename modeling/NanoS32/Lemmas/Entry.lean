import NanoS32.Fs.Chain

/-!
# The fields of an entry

For each function that changes a field of an entry, the field it changes and, in one statement, all that it leaves.
-/

namespace NanoS32.Block

variable (e : SfsEntry)

/-! ## What an update leaves -/

@[simp] theorem setTime_fields (v : Nat) :
    (e.setTime v).flags = e.flags ∧ (e.setTime v).used = e.used ∧ (e.setTime v).isFile = e.isFile ∧
      (e.setTime v).isDir = e.isDir ∧ (e.setTime v).name = e.name ∧ (e.setTime v).nameStr = e.nameStr ∧
      (e.setTime v).size = e.size ∧ (e.setTime v).parent = e.parent ∧ (e.setTime v).next = e.next ∧
      (e.setTime v).refAt = e.refAt ∧ (e.setTime v).liveRefs = e.liveRefs :=
  ⟨rfl, rfl, rfl, rfl, rfl, rfl, rfl, rfl, rfl, rfl, rfl⟩

@[simp] theorem setSize_fields (v : Nat) :
    (e.setSize v).flags = e.flags ∧ (e.setSize v).used = e.used ∧ (e.setSize v).isFile = e.isFile ∧
      (e.setSize v).isDir = e.isDir ∧ (e.setSize v).name = e.name ∧ (e.setSize v).nameStr = e.nameStr ∧
      (e.setSize v).time = e.time ∧ (e.setSize v).parent = e.parent ∧ (e.setSize v).next = e.next ∧
      (e.setSize v).refAt = e.refAt :=
  ⟨rfl, rfl, rfl, rfl, rfl, rfl, rfl, rfl, rfl, rfl⟩

@[simp] theorem setParent_fields (v : Nat) :
    (e.setParent v).flags = e.flags ∧ (e.setParent v).used = e.used ∧ (e.setParent v).isFile = e.isFile ∧
      (e.setParent v).isDir = e.isDir ∧ (e.setParent v).name = e.name ∧ (e.setParent v).nameStr = e.nameStr ∧
      (e.setParent v).time = e.time ∧ (e.setParent v).size = e.size ∧ (e.setParent v).next = e.next ∧
      (e.setParent v).refAt = e.refAt ∧ (e.setParent v).liveRefs = e.liveRefs :=
  ⟨rfl, rfl, rfl, rfl, rfl, rfl, rfl, rfl, rfl, rfl, rfl⟩

@[simp] theorem setNext_fields (v : Nat) :
    (e.setNext v).flags = e.flags ∧ (e.setNext v).used = e.used ∧ (e.setNext v).isFile = e.isFile ∧
      (e.setNext v).isDir = e.isDir ∧ (e.setNext v).name = e.name ∧ (e.setNext v).nameStr = e.nameStr ∧
      (e.setNext v).time = e.time ∧ (e.setNext v).size = e.size ∧ (e.setNext v).parent = e.parent ∧
      (e.setNext v).refAt = e.refAt ∧ (e.setNext v).liveRefs = e.liveRefs :=
  ⟨rfl, rfl, rfl, rfl, rfl, rfl, rfl, rfl, rfl, rfl, rfl⟩

@[simp] theorem setName_fields (n : CStr) :
    (e.setName n).flags = e.flags ∧ (e.setName n).used = e.used ∧ (e.setName n).isFile = e.isFile ∧
      (e.setName n).isDir = e.isDir ∧ (e.setName n).time = e.time ∧ (e.setName n).size = e.size ∧
      (e.setName n).parent = e.parent ∧ (e.setName n).next = e.next ∧ (e.setName n).refAt = e.refAt ∧
      (e.setName n).liveRefs = e.liveRefs :=
  ⟨rfl, rfl, rfl, rfl, rfl, rfl, rfl, rfl, rfl, rfl⟩

@[simp] theorem setRef_fields (i v : Nat) :
    (e.setRef i v).flags = e.flags ∧ (e.setRef i v).used = e.used ∧ (e.setRef i v).isFile = e.isFile ∧
      (e.setRef i v).isDir = e.isDir ∧ (e.setRef i v).name = e.name ∧ (e.setRef i v).nameStr = e.nameStr ∧
      (e.setRef i v).time = e.time ∧ (e.setRef i v).size = e.size ∧ (e.setRef i v).parent = e.parent ∧
      (e.setRef i v).next = e.next :=
  ⟨rfl, rfl, rfl, rfl, rfl, rfl, rfl, rfl, rfl, rfl⟩

@[simp] theorem clearRefs_fields (i : Nat) :
    (e.clearRefs i).flags = e.flags ∧ (e.clearRefs i).used = e.used ∧ (e.clearRefs i).isFile = e.isFile ∧
      (e.clearRefs i).isDir = e.isDir ∧ (e.clearRefs i).name = e.name ∧ (e.clearRefs i).nameStr = e.nameStr ∧
      (e.clearRefs i).time = e.time ∧ (e.clearRefs i).size = e.size ∧ (e.clearRefs i).parent = e.parent ∧
      (e.clearRefs i).next = e.next :=
  ⟨rfl, rfl, rfl, rfl, rfl, rfl, rfl, rfl, rfl, rfl⟩

/-! ## What an update changes -/

theorem toNat_setSize {v : Nat} (h : v < 4294967296) : (e.setSize v).size.toNat = v := by
  simp only [setSize, UInt32.toNat_ofNat']
  exact Nat.mod_eq_of_lt h

theorem toNat_setParent {v : Nat} (h : v < 4294967296) : (e.setParent v).parent.toNat = v := by
  simp only [setParent, UInt32.toNat_ofNat']
  exact Nat.mod_eq_of_lt h

theorem toNat_setNext {v : Nat} (h : v < 4294967296) : (e.setNext v).next.toNat = v := by
  simp only [setNext, UInt32.toNat_ofNat']
  exact Nat.mod_eq_of_lt h

theorem refAt_lt (i : Nat) : e.refAt i < 4294967296 := by
  unfold refAt
  split_ifs
  · exact UInt32.toNat_lt _
  · omega

theorem refAt_of_le {i : Nat} (h : 120 ≤ i) : e.refAt i = 0 := by
  have h' : ¬i < 120 := by omega
  simp [refAt, h']

theorem refAt_setRef (i j : Nat) {v : Nat} (h : v < 4294967296) :
    (e.setRef i v).refAt j = if j = i ∧ j < 120 then v else e.refAt j := by
  unfold refAt setRef
  by_cases hj : j < 120
  · by_cases hi : j = i
    · subst hi
      simp only [hj, dite_true, if_true, UInt32.toNat_ofNat', and_self]
      exact Nat.mod_eq_of_lt h
    · simp [hj, hi]
  · simp [hj]

theorem refAt_clearRefs (i j : Nat) : (e.clearRefs i).refAt j = if j < i then e.refAt j else 0 := by
  unfold refAt clearRefs
  by_cases hj : j < 120
  · by_cases hi : j < i
    · simp [hj, hi]
    · simp [hj, hi]
  · simp [hj]

/-- Setting a name that fits and holds no 0 gives that name. -/
theorem nameStr_setName {n : CStr} (h : n.length < 15) (h0 : 0 ∉ n) : (e.setName n).nameStr = n := by
  have hofn : List.ofFn (e.setName n).name = n ++ List.replicate (15 - n.length) 0 := by
    apply List.ext_getElem
    · simp
      omega
    · intro k h1 h2
      have hk : k < 15 := by simpa using h1
      have ht : n.take 14 = n := List.take_of_length_le (by omega)
      simp only [setName, strncpy, sfsNameSize, List.getElem_ofFn, Nat.add_one_sub_one, ht]
      by_cases hkn : k < n.length
      · rw [List.getElem_append_left hkn, List.getD_eq_getElem _ _ hkn]
      · rw [List.getElem_append_right (by omega), List.getD_eq_default _ _ (by omega)]
        simp
  have h15 : 15 - n.length = (14 - n.length) + 1 := by omega
  rw [nameStr, hofn, h15, List.replicate_succ, List.takeWhile_append_of_pos]
  · simp
  · intro c hc
    have : c ≠ 0 := fun hc0 => h0 (hc0 ▸ hc)
    simpa using this

/-! ## Free entries -/

@[simp] theorem zero_fields : zero.flags = 0 ∧ zero.used = false ∧ zero.isFile = false ∧ zero.isDir = false ∧
    zero.time = 0 ∧ zero.size = 0 ∧ zero.parent = 0 ∧ zero.next = 0 ∧ zero.refAt = fun _ => 0 := by
  refine ⟨rfl, rfl, rfl, rfl, rfl, rfl, rfl, rfl, ?_⟩
  funext i
  simp [refAt, zero]

theorem liveRefs_of_not_isFile {e : SfsEntry} (h : e.isFile = false) : e.liveRefs = [] := by
  simp [liveRefs, h]

/-- A flag of the used flags makes an entry used. -/
theorem used_of_flag {e : SfsEntry} {t : UInt8} (ht : fUsed &&& t = t) (h : (e.flags &&& t != 0) = true) :
    e.used = true := by
  rw [← ht, ← UInt8.and_assoc] at h
  by_contra hu
  have h0 : e.flags &&& fUsed = 0 := by simpa [used] using hu
  simp [h0] at h

theorem used_of_isFile {e : SfsEntry} (h : e.isFile = true) : e.used = true := used_of_flag rfl h

theorem used_of_isDir {e : SfsEntry} (h : e.isDir = true) : e.used = true := used_of_flag rfl h

end NanoS32.Block
