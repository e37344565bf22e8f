import Mathlib.Logic.Basic
import Mathlib.Tactic.Common

/-!
# The heap of the kernel

`heap_init`, `heap_alloc` and `heap_free` of `kernel.c`: a table of blocks, each with a mark and the address of the allocation
it belongs to. Addresses are numbers, and `NULL` is 0.
-/

namespace NanoS32

/-- `HEAPADDR`. -/
def heapAddr : Nat := 0x30000
def heapNumBlock : Nat := 0x20
def heapMemSize : Nat := 0x40000
def heapBlockSize : Nat := heapMemSize / heapNumBlock

/-- `heap_block_t`. -/
structure HeapBlock where
  used : Bool
  ptr : Nat
  deriving DecidableEq, Repr

/-- The block table, `heap[HEAP_NUM_BLOCK]`. -/
abbrev Heap : Type := Nat → HeapBlock

/-- `heap_init`. -/
def heapInit : Heap := fun _ => { used := false, ptr := 0 }

/-- The blocks an allocation takes up. -/
def heapBlocks (size : Nat) : Nat := size / heapBlockSize + (if size % heapBlockSize ≠ 0 then 1 else 0)

/-- The search of `heap_alloc`, over `k` blocks from block `i`, of which the last `nFound` before `i` are free: the first block
of the run. -/
def heapFind (h : Heap) (nAlloc : Nat) : Nat → Nat → Nat → Option Nat
  | 0, _, _ => none
  | k + 1, i, nFound =>
    if (h i).used then heapFind h nAlloc k (i + 1) 0
    else if nAlloc ≤ nFound + 1 then some (i + 1 - nAlloc)
    else heapFind h nAlloc k (i + 1) (nFound + 1)

/-- `heap_alloc`: the address it returns, and the table it leaves. -/
def heapAlloc (h : Heap) (size : Nat) : Nat × Heap :=
  if size = 0 then (0, h)
  else
    let nAlloc := heapBlocks size
    match heapFind h nAlloc heapNumBlock 0 0 with
    | some k =>
      let addr := heapAddr + k * heapBlockSize
      (addr, fun j => if k ≤ j ∧ j < k + nAlloc then { used := true, ptr := addr } else h j)
    | none => (0, h)

/-- `heap_free`. -/
def heapFree (h : Heap) (ptr : Nat) : Heap :=
  if ptr = 0 then h
  else fun i => if i < heapNumBlock ∧ (h i).ptr = ptr ∧ (h i).used then { used := false, ptr := 0 } else h i

/-! ## Runs -/

/-- A call, with its argument. -/
inductive HeapCall where
  | alloc (size : Nat)
  | free (ptr : Nat)

/-- An allocation: the address it was given, and the size it was asked for. -/
structure Allocation where
  addr : Nat
  size : Nat

/-- The table, with the allocations that have not been freed. -/
structure HeapState where
  heap : Heap
  live : List Allocation

/-- A call on the table, with its effect on the allocations. -/
def HeapState.step (s : HeapState) : HeapCall → HeapState
  | .alloc size =>
    let (addr, h) := heapAlloc s.heap size
    { heap := h, live := if addr = 0 then s.live else { addr := addr, size := size } :: s.live }
  | .free ptr => { heap := heapFree s.heap ptr, live := s.live.filter fun a => a.addr != ptr }

/-- The state after a sequence of calls from `heap_init`. -/
def heapRun (calls : List HeapCall) : HeapState := calls.foldl HeapState.step { heap := heapInit, live := [] }

/-- The bytes of the blocks of an allocation. -/
def Allocation.region (a : Allocation) (x : Nat) : Prop :=
  a.addr ≤ x ∧ x < a.addr + heapBlocks a.size * heapBlockSize

/-- The block is one of the allocation's. -/
def Allocation.hasBlock (a : Allocation) (i : Nat) : Prop :=
  a.addr ≤ heapAddr + i * heapBlockSize ∧
    heapAddr + i * heapBlockSize < a.addr + heapBlocks a.size * heapBlockSize

/-- There is a run of `n` free blocks. -/
def Heap.hasRun (h : Heap) (n : Nat) : Prop :=
  ∃ k, k + n ≤ heapNumBlock ∧ ∀ i, k ≤ i → i < k + n → (h i).used = false

end NanoS32
