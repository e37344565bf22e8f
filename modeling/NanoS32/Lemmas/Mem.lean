import Mathlib.Data.List.GetD
import NanoS32.Net.Wire

/-!
# The bytes that the memory functions write

One lemma for each function of the memory: what it leaves at an address.
-/

namespace NanoS32

namespace Mem

theorem set_self (m : Mem) (i : Nat) (v : UInt8) : m.set i v i = v := if_pos rfl

theorem set_ne (m : Mem) {i j : Nat} (v : UInt8) (h : j ≠ i) : m.set i v j = m j := if_neg h

/-- An array is written from a part of a memory. -/
theorem put_array (m m' : Mem) (p q n j : Nat) :
    m.put p (m'.array q n) j = if p ≤ j ∧ j < p + n then m' (q + (j - p)) else m j := by
  rw [put]
  split
  · rfl
  · rfl

theorem put_of_not_mem (m : Mem) {p n j : Nat} (src : Fin n → UInt8) (h : j < p ∨ p + n ≤ j) : m.put p src j = m j := by
  rw [put, dif_neg (by omega)]

/-- Reading back what was written. -/
theorem array_put (m : Mem) (p : Nat) {n : Nat} (src : Fin n → UInt8) : (m.put p src).array p n = src := by
  funext k
  have hk : p ≤ p + k.val ∧ p + k.val < p + n := ⟨by omega, by omega⟩
  rw [array, put, dif_pos hk]
  congr 1
  exact Fin.ext (by simp)

/-- Reading back what was written, after writes elsewhere. -/
theorem array_of_put {m m1 : Mem} {p n : Nat} {src : Fin n → UInt8}
    (h : ∀ j, p ≤ j → j < p + n → m j = m1.put p src j) : m.array p n = src := by
  rw [← array_put m1 p src]
  exact funext fun k => h _ (by omega) (by omega)

theorem store_of_mem (m : Mem) {p j : Nat} {buff : List UInt8} (h : p ≤ j) (h' : j < p + buff.length) :
    m.store p buff j = buff.getD (j - p) 0 := if_pos ⟨h, h'⟩

theorem store_of_not_mem (m : Mem) {p j : Nat} {buff : List UInt8} (h : j < p ∨ p + buff.length ≤ j) :
    m.store p buff j = m j := if_neg (by omega)

theorem store_nil (m : Mem) (p : Nat) : m.store p [] = m := by
  funext j
  exact store_of_not_mem m (by rw [List.length_nil]; omega)

/-- Two stores, one behind the other. -/
theorem store_store (m : Mem) (p : Nat) (l l' : List UInt8) : (m.store p l).store (p + l.length) l' = m.store p (l ++ l') := by
  funext j
  by_cases h1 : p ≤ j ∧ j < p + l.length
  · rw [store_of_not_mem _ (by omega), store_of_mem _ h1.1 h1.2, store_of_mem _ h1.1 (by rw [List.length_append]; omega),
      List.getD_append _ _ _ _ (by omega)]
  · by_cases h2 : p + l.length ≤ j ∧ j < p + l.length + l'.length
    · rw [store_of_mem _ h2.1 h2.2, store_of_mem _ (by omega) (by rw [List.length_append]; omega),
        List.getD_append_right _ _ _ _ (by omega), Nat.sub_add_eq]
    · rw [store_of_not_mem _ (by omega), store_of_not_mem _ (by omega),
        store_of_not_mem _ (by rw [List.length_append]; omega)]

theorem memset_apply (m : Mem) (p : Nat) (c : UInt8) (n j : Nat) :
    m.memset p c n j = if p ≤ j ∧ j < p + n then c else m j := rfl

/-- The loop of `memcpy` with `i` bytes copied: those are the source's, and the others are untouched. -/
theorem memcpyLoop_apply (m0 : Mem) (rdir : Bool) (dst src n : Nat) (hdir : rdir = !decide (dst < src)) :
    ∀ (k : Nat) (m : Mem), k ≤ n →
      (∀ j, m j = if (if rdir then dst + k ≤ j ∧ j < dst + n else dst ≤ j ∧ j < dst + (n - k)) then m0 (src + (j - dst))
        else m0 j) →
      ∀ j, memcpyLoop rdir dst src n k m j = if dst ≤ j ∧ j < dst + n then m0 (src + (j - dst)) else m0 j := by
  intro k
  induction k with
  | zero =>
    intro m _ hm j
    rw [memcpyLoop, hm j]
    cases rdir <;> simp
  | succ k ih =>
    intro m hk hm
    rw [memcpyLoop]
    refine ih _ (by omega) fun j => ?_
    cases rdir with
    | true =>
      have hle : ¬dst < src := by simpa using hdir
      simp only [if_true] at hm ⊢
      have hc : n - (n - (k + 1) + 1) = k := by omega
      rw [hc]
      by_cases hj : j = dst + k
      · have hin : dst + k ≤ j ∧ j < dst + n := ⟨by omega, by omega⟩
        have hout : ¬(dst + (k + 1) ≤ src + k ∧ src + k < dst + n) := by omega
        rw [if_pos hin, hj, set_self, hm (src + k), if_neg hout, show dst + k - dst = k by omega]
      · rw [set_ne _ _ hj, hm j]
        refine if_congr ?_ rfl rfl
        omega
    | false =>
      have hlt : dst < src := by simpa using hdir
      simp only [Bool.false_eq_true, if_false] at hm ⊢
      by_cases hj : j = dst + (n - (k + 1))
      · have hin : dst ≤ j ∧ j < dst + (n - k) := ⟨by omega, by omega⟩
        have hout : ¬(dst ≤ src + (n - (k + 1)) ∧ src + (n - (k + 1)) < dst + (n - (k + 1))) := by omega
        rw [if_pos hin, hj, set_self, hm (src + (n - (k + 1))), if_neg hout,
          show dst + (n - (k + 1)) - dst = n - (k + 1) by omega]
      · rw [set_ne _ _ hj, hm j]
        refine if_congr ?_ rfl rfl
        omega

/-- `memcpy` copies the bytes the source had before the call, also when the two overlap. -/
theorem memcpy_apply (m : Mem) (dst src n j : Nat) :
    m.memcpy dst src n j = if dst ≤ j ∧ j < dst + n then m (src + (j - dst)) else m j := by
  refine memcpyLoop_apply m _ dst src n rfl n m (Nat.le_refl n) (fun j => ?_) j
  rw [if_neg]
  split <;> omega

/-- An array and a word of a memory that is a shifted part of another. -/
theorem array_shift {m m' : Mem} {p q n : Nat} (h : ∀ j < n, m (p + j) = m' (q + j)) : m.array p n = m'.array q n :=
  funext fun k => h k k.isLt

theorem get16_shift {m m' : Mem} {p q : Nat} (h : ∀ j < 2, m (p + j) = m' (q + j)) : m.get16 p = m'.get16 q := by
  have h0 := h 0 (by omega)
  rw [Nat.add_zero, Nat.add_zero] at h0
  rw [get16, get16, h0, h 1 (by omega)]

theorem put16_of_ne (m : Mem) {p j : Nat} (v : Nat) (h : j < p ∨ p + 2 ≤ j) : m.put16 p v j = m j := by
  rw [put16, set_ne _ _ (by omega), set_ne _ _ (by omega)]

theorem get16_put16 (m : Mem) (p : Nat) {v : Nat} (hv : v < 65536) : (m.put16 p v).get16 p = v := by
  rw [get16, put16, set_self, set_ne _ _ (by omega), set_self]
  simp only [UInt8.toNat_ofNat']
  omega

/-- Reading back a word, after writes elsewhere. -/
theorem get16_of_put16 {m m1 : Mem} {p v : Nat} (hv : v < 65536) (h : ∀ j, p ≤ j → j < p + 2 → m j = m1.put16 p v j) :
    m.get16 p = v := by
  rw [← get16_put16 m1 p hv, get16, get16, h p (by omega) (by omega), h (p + 1) (by omega) (by omega)]

theorem get16_congr {m m' : Mem} {p : Nat} (h0 : m p = m' p) (h1 : m (p + 1) = m' (p + 1)) : m.get16 p = m'.get16 p := by
  rw [get16, get16, h0, h1]

/-- A word, after writes elsewhere. -/
theorem get16_set_ne (m : Mem) {p i : Nat} (v : UInt8) (h : i < p ∨ p + 2 ≤ i) : (m.set i v).get16 p = m.get16 p :=
  get16_congr (set_ne m v (by omega)) (set_ne m v (by omega))

theorem get16_put16_ne (m : Mem) {p q : Nat} (v : Nat) (h : p + 2 ≤ q ∨ q + 2 ≤ p) :
    (m.put16 q v).get16 p = m.get16 p :=
  get16_congr (put16_of_ne m v (by omega)) (put16_of_ne m v (by omega))

theorem get16_put_ne (m : Mem) {p q n : Nat} (src : Fin n → UInt8) (h : p + 2 ≤ q ∨ q + n ≤ p) :
    (m.put q src).get16 p = m.get16 p :=
  get16_congr (put_of_not_mem m src (by omega)) (put_of_not_mem m src (by omega))

/-- A word written as two bytes. -/
theorem get16_set_set (m : Mem) (p : Nat) (a b : UInt8) : ((m.set p a).set (p + 1) b).get16 p = a.toNat + 256 * b.toNat := by
  rw [get16, set_ne _ _ (by omega), set_self, set_self]

/-- The words of an address. -/
theorem get16_put_low (m : Mem) (p : Nat) (src : Fin 4 → UInt8) :
    (m.put p src).get16 p = (src 0).toNat + 256 * (src 1).toNat := by
  have h := array_put m p src
  have h0 : m.put p src p = src 0 := congrFun h 0
  have h1 : m.put p src (p + 1) = src 1 := congrFun h 1
  rw [get16, h0, h1]

theorem get16_put_high (m : Mem) (p : Nat) (src : Fin 4 → UInt8) :
    (m.put p src).get16 (p + 2) = (src 2).toNat + 256 * (src 3).toNat := by
  have h := array_put m p src
  have h2 : m.put p src (p + 2) = src 2 := congrFun h 2
  have h3 : m.put p src (p + 2 + 1) = src 3 := congrFun h 3
  rw [get16, h2, h3]

end Mem

/-! ## Byte order -/

theorem bswap16_eq (v : Nat) : bswap16 v = v % 256 * 256 + v / 256 % 256 := by
  have h1 : v &&& 0xFF = v % 256 := Nat.and_two_pow_sub_one_eq_mod v 8
  have h2 : (v &&& 0xFF00) >>> 8 = v / 256 % 256 := by
    rw [Nat.shiftRight_and_distrib, Nat.shiftRight_eq_div_pow]
    exact Nat.and_two_pow_sub_one_eq_mod (v / 256) 8
  have hlt : v / 256 % 256 < 2 ^ 8 := Nat.mod_lt _ (by decide)
  rw [bswap16, h1, h2, ← Nat.shiftLeft_add_eq_or_of_lt hlt, Nat.shiftLeft_eq]

theorem bswap16_lt (v : Nat) : bswap16 v < 65536 := by
  rw [bswap16_eq]
  omega

theorem bswap16_bswap16 {v : Nat} (hv : v < 65536) : bswap16 (bswap16 v) = v := by
  have hhi : v / 256 % 256 = v / 256 := Nat.mod_eq_of_lt (by omega)
  have hv' : v % 256 + 256 * (v / 256) = v := Nat.mod_add_div v 256
  have hx : v % 256 < 256 := Nat.mod_lt _ (by decide)
  rw [bswap16_eq, bswap16_eq, hhi]
  generalize v % 256 = x at *
  generalize v / 256 = y at *
  have hlo : (x * 256 + y) % 256 = y := by omega
  have hdiv : (x * 256 + y) / 256 = x := by omega
  rw [hlo, hdiv, Nat.mod_eq_of_lt hx]
  omega

/-- 32-bit subtraction takes back an addition. -/
theorem sub32_add {a : Nat} (b : Nat) (h : a < 4294967296) : sub32 (a + b) b = a := by
  unfold sub32 wrap32
  omega

end NanoS32
