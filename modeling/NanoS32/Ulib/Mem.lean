import Mathlib.Data.List.Basic

/-!
# Memory of the user library

The memory functions of `ulib.c`. A memory is a function from addresses to bytes: an array and whatever follows it.
-/

namespace NanoS32

/-- A memory. -/
abbrev Mem : Type := Nat → UInt8

namespace Mem

/-- The memory with one byte replaced. -/
def set (m : Mem) (i : Nat) (v : UInt8) : Mem := fun j => if j = i then v else m j

/-- The array of `n` bytes at `p`. -/
def array (m : Mem) (p n : Nat) : Fin n → UInt8 := fun k => m (p + k)

/-- `memcpy` from an array that is not part of the memory. -/
def put (m : Mem) (p : Nat) {n : Nat} (src : Fin n → UInt8) : Mem := fun j =>
  if h : p ≤ j ∧ j < p + n then src ⟨j - p, by omega⟩ else m j

/-- The bytes of a list stored at `p`. -/
def store (m : Mem) (p : Nat) (buff : List UInt8) : Mem := fun j =>
  if p ≤ j ∧ j < p + buff.length then buff.getD (j - p) 0 else m j

/-- `memset`. -/
def memset (m : Mem) (p : Nat) (c : UInt8) (n : Nat) : Mem := fun j => if p ≤ j ∧ j < p + n then c else m j

/-- The loop of `memcpy`, with `k` of the `n` bytes left to copy. -/
def memcpyLoop (rdir : Bool) (dst src n : Nat) : Nat → Mem → Mem
  | 0, m => m
  | k + 1, m =>
    let i := n - (k + 1)
    let c := if rdir then n - (i + 1) else i
    memcpyLoop rdir dst src n k (m.set (dst + c) (m (src + c)))

/-- `memcpy` inside the memory: backwards unless the source is above the destination. -/
def memcpy (m : Mem) (dst src n : Nat) : Mem := memcpyLoop (!decide (dst < src)) dst src n n m

/-- The little-endian 16-bit word at `p`. -/
def get16 (m : Mem) (p : Nat) : Nat := (m p).toNat + 256 * (m (p + 1)).toNat

/-- The memory with a 16-bit word stored at `p`. -/
def put16 (m : Mem) (p v : Nat) : Mem := (m.set p (UInt8.ofNat v)).set (p + 1) (UInt8.ofNat (v / 256))

end Mem

end NanoS32
