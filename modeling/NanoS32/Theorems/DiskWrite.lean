import NanoS32.Theorems.Transfer

/-!
# Writes with failed transfers

What `io_disk_write` does outside a request, for every sequence of failures. A sector that is written in part is read into
`disk_buff` and written back whether or not the read succeeded, so a failed read can put whatever `disk_buff` holds on the disk.
-/

namespace NanoS32

/-! ## How transfers end -/

/-- From the first state to the second, no byte has changed outside the `n` bytes at position `p` of a disk. -/
def KeepsOutside (disk p n : Nat) (s t : Sys) : Prop :=
  ∀ d q, ¬(d = disk ∧ p ≤ q ∧ q < p + n) → t.diskByte d q = s.diskByte d q

theorem KeepsOutside.trans {disk p n : Nat} {s t u : Sys} (h : KeepsOutside disk p n s t) (h' : KeepsOutside disk p n t u) :
    KeepsOutside disk p n s u := fun d q hq => (h' d q hq).trans (h d q hq)

theorem KeepsOutside.mono {disk p n q k : Nat} {s t : Sys} (h : KeepsOutside disk p n s t) (hq : q ≤ p)
    (hk : p + n ≤ q + k) : KeepsOutside disk q k s t := fun d x hx => h d x fun hin => hx ⟨hin.1, by omega, by omega⟩

section Steps

variable {s : Sys}

end Steps

/-! ## What a failed read leaves -/

section Stale

variable {s t u : Sys}

/-- A block full of ones. -/
def Block.full : Block := Block.ofBytes fun _ => 255

/-- Failed reads leave a buffer full of ones. -/
def Sys.Stale (s : Sys) : Prop := ∀ f ∈ s.faults, f.buff = Block.full

/-- From the first state to the second, no byte of ones has become another. -/
structure Fills (s t : Sys) : Prop where
  stale : t.Stale
  bytes : ∀ d q, s.diskByte d q = 255 → t.diskByte d q = 255

theorem Fills.trans (h : Fills s t) (h' : Fills t u) : Fills s u := ⟨h'.stale, fun d q hq => h'.bytes d q (h.bytes d q hq)⟩

theorem Sys.Stale.drop (h : s.Stale) {n : Nat} (ht : t.faults = s.faults.drop n) : t.Stale :=
  fun f hf => h f (List.mem_of_mem_drop (ht ▸ hf))

end Stale

/-! ## All requests -/

end NanoS32
