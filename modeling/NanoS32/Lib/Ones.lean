import Mathlib.Data.Nat.ModEq
import Mathlib.Algebra.BigOperators.Group.List.Basic

/-!
# One's-complement sums

Addition of words below `N` with an end-around carry. A sum of words is the one word with its residue modulo `N - 1` that is zero
exactly when all words are (`Ones.sum_eq_rep`), so it does not depend on the order in which the carries are added, nor, up to a
swap of its halves, on the byte order of the words (`Ones.sum_swap`).
-/

namespace Ones

variable {N : Nat}

/-- Addition with an end-around carry. -/
def add (N a b : Nat) : Nat := if a + b < N then a + b else a + b - (N - 1)

/-- The sum of a list of words. -/
def sum (N : Nat) (words : List Nat) : Nat := words.foldl (add N) 0

/-- The one's complement of a word. -/
def complement (N a : Nat) : Nat := N - 1 - a

/-- The word that a sum of words comes to. -/
def rep (N s : Nat) : Nat := if s = 0 then 0 else (s - 1) % (N - 1) + 1

/-- The carries of a sum added to it once. -/
def fold (N s : Nat) : Nat := s % N + s / N

theorem complement_inj {a b : Nat} (ha : a < N) (hb : b < N) : complement N a = complement N b ↔ a = b := by
  unfold complement
  omega

theorem rep_lt (hN : 2 ≤ N) (s : Nat) : rep N s < N := by
  have hlt : (s - 1) % (N - 1) < N - 1 := Nat.mod_lt _ (by omega)
  unfold rep
  split
  · omega
  · omega

theorem rep_eq_zero (s : Nat) : rep N s = 0 ↔ s = 0 := by
  unfold rep
  split
  · simp [*]
  · simp [*]

theorem rep_modEq (s : Nat) : rep N s ≡ s [MOD N - 1] := by
  unfold rep
  split
  · rename_i h
    rw [h]
  · rename_i h
    have hs : s - 1 + 1 = s := Nat.sub_add_cancel (Nat.pos_of_ne_zero h)
    have hmod := (Nat.mod_modEq (s - 1) (N - 1)).add_right 1
    rwa [hs] at hmod

/-- The word with a residue that is zero exactly when the sum is. -/
theorem eq_rep {r s : Nat} (hr : r < N) (hz : r = 0 ↔ s = 0) (hmod : r ≡ s [MOD N - 1]) : r = rep N s := by
  by_cases hs : s = 0
  · rw [(rep_eq_zero s).2 hs, hz.2 hs]
  · have hpos : r ≠ 0 := fun h => hs (hz.1 h)
    have h1 : r - 1 + 1 = r := Nat.sub_add_cancel (Nat.pos_of_ne_zero hpos)
    have h2 : s - 1 + 1 = s := Nat.sub_add_cancel (Nat.pos_of_ne_zero hs)
    rw [← h1, ← h2] at hmod
    have hmod' : r - 1 ≡ s - 1 [MOD N - 1] := Nat.ModEq.add_right_cancel' 1 hmod
    have hlt : r - 1 < N - 1 := by omega
    rw [rep, if_neg hs, ← hmod', Nat.mod_eq_of_lt hlt, h1]

/-- An addition, on the words that two sums come to. -/
theorem add_rep (hN : 2 ≤ N) (s : Nat) {x : Nat} (hx : x < N) : add N (rep N s) x = rep N (s + x) := by
  have hr := rep_lt hN s
  have hmod := (rep_modEq (N := N) s).add_right x
  have hzero := rep_eq_zero (N := N) s
  unfold add
  split
  · rename_i hlt
    exact eq_rep hlt (by omega) hmod
  · rename_i hge
    have hsub : rep N s + x - (N - 1) + (N - 1) = rep N s + x := by omega
    refine eq_rep (by omega) (by omega) (Nat.ModEq.trans ?_ hmod)
    have hself : N - 1 ≡ 0 [MOD N - 1] := (Nat.modEq_zero_iff_dvd).2 (Nat.dvd_refl _)
    have hadd := (Nat.ModEq.refl (n := N - 1) (rep N s + x - (N - 1))).add hself
    rw [hsub, Nat.add_zero] at hadd
    exact hadd.symm

/-- What a sum of words comes to. -/
theorem sum_eq_rep (hN : 2 ≤ N) {words : List Nat} (h : ∀ x ∈ words, x < N) : sum N words = rep N words.sum := by
  have hfold : ∀ (words : List Nat) (s : Nat), (∀ x ∈ words, x < N) →
      words.foldl (add N) (rep N s) = rep N (s + words.sum) := by
    intro words
    induction words with
    | nil => exact fun s _ => rfl
    | cons x words ih =>
      intro s h
      rw [List.foldl_cons, add_rep hN s (h x List.mem_cons_self), ih _ fun y hy => h y (List.mem_cons_of_mem x hy),
        List.sum_cons, Nat.add_assoc]
  have hrun := hfold words 0 h
  rwa [Nat.zero_add] at hrun

/-- Adding the carries once is enough exactly when this leaves a word. -/
theorem fold_mod_eq_rep (hN : 2 ≤ N) {s : Nat} (hs : s < N * (N - 1)) : fold N s % N = rep N s ↔ fold N s < N := by
  have hdiv : s / N < N - 1 := Nat.div_lt_of_lt_mul hs
  have hlow : s % N < N := Nat.mod_lt _ (by omega)
  have heq : N * (s / N) + s % N = s := Nat.div_add_mod s N
  have hfold : fold N s = s % N + s / N := rfl
  have hmod : fold N s ≡ s [MOD N - 1] := by
    have hone : N ≡ 1 [MOD N - 1] := by
      have hself : N - 1 ≡ 0 [MOD N - 1] := (Nat.modEq_zero_iff_dvd).2 (Nat.dvd_refl _)
      have hadd := hself.add_right 1
      rwa [Nat.sub_add_cancel (by omega), Nat.zero_add] at hadd
    have hmul := (hone.mul_right (s / N)).add_right (s % N)
    rw [heq, Nat.one_mul] at hmul
    rw [fold, Nat.add_comm]
    exact hmul.symm
  have hzero : fold N s = 0 ↔ s = 0 := by
    unfold fold
    constructor
    · intro h
      obtain ⟨h2, h1⟩ := Nat.add_eq_zero_iff.1 h
      rw [← heq, h1, h2]
      rfl
    · intro h
      rw [h, Nat.zero_mod, Nat.zero_div]
  constructor
  · intro h
    by_contra hge
    -- the carry that is dropped takes the word off its residue
    have hred : fold N s % N = fold N s - N := by
      have hlt : fold N s < N + N := by
        rw [hfold]
        exact Nat.add_lt_add hlow (by omega)
      rw [Nat.mod_eq_sub_mod (Nat.le_of_not_lt hge), Nat.mod_eq_of_lt (by omega)]
    have hrep : fold N s - (N - 1) = rep N s := by
      refine eq_rep ?_ ?_ ?_
      · have hle : fold N s < N + (N - 1) := by
          rw [hfold]
          exact Nat.add_lt_add hlow hdiv
        omega
      · omega
      · have hself : N - 1 ≡ 0 [MOD N - 1] := (Nat.modEq_zero_iff_dvd).2 (Nat.dvd_refl _)
        have hadd := (Nat.ModEq.refl (n := N - 1) (fold N s - (N - 1))).add hself
        rw [Nat.sub_add_cancel (by omega), Nat.add_zero] at hadd
        exact hadd.symm.trans hmod
    omega
  · intro h
    rw [Nat.mod_eq_of_lt h]
    exact eq_rep h hzero hmod

/-! ## Byte order -/

section Swap

variable {B : Nat}

/-- The two halves of a word swapped. -/
def swap (B x : Nat) : Nat := x % B * B + x / B

theorem swap_lt {x : Nat} (hx : x < B * B) : swap B x < B * B := by
  have hB : 0 < B := Nat.pos_of_ne_zero fun h => by
    rw [h] at hx
    exact absurd hx (Nat.not_lt_zero _)
  have h1 : x / B < B := Nat.div_lt_of_lt_mul hx
  have h2 : x % B + 1 ≤ B := Nat.mod_lt x hB
  calc x % B * B + x / B < x % B * B + B := by omega
    _ = (x % B + 1) * B := by rw [Nat.add_mul, Nat.one_mul]
    _ ≤ B * B := Nat.mul_le_mul_right B h2

theorem swap_eq_zero (hB : 0 < B) (x : Nat) : swap B x = 0 ↔ x = 0 := by
  have heq := Nat.div_add_mod x B
  unfold swap
  constructor
  · intro h
    obtain ⟨h1, h2⟩ := Nat.add_eq_zero_iff.1 h
    have h3 : x % B = 0 := (Nat.mul_eq_zero.1 h1).resolve_right (Nat.ne_of_gt hB)
    rw [h2, h3, Nat.mul_zero] at heq
    exact heq.symm
  · intro h
    rw [h, Nat.zero_mod, Nat.zero_div, Nat.zero_mul]

/-- A swap is a multiplication by `B`. -/
theorem swap_modEq (hB : 0 < B) (x : Nat) : swap B x ≡ B * x [MOD B * B - 1] := by
  have hone : B * B ≡ 1 [MOD B * B - 1] := by
    have hself : B * B - 1 ≡ 0 [MOD B * B - 1] := (Nat.modEq_zero_iff_dvd).2 (Nat.dvd_refl _)
    have hadd := hself.add_right 1
    rwa [Nat.sub_add_cancel (Nat.mul_pos hB hB), Nat.zero_add] at hadd
  have hmul : B * x = x % B * B + B * B * (x / B) := by
    have heq := Nat.div_add_mod x B
    calc B * x = B * (B * (x / B) + x % B) := by rw [heq]
      _ = x % B * B + B * B * (x / B) := by rw [Nat.mul_add, Nat.mul_assoc, Nat.mul_comm B (x % B), Nat.add_comm]
  have hright := (hone.mul_right (x / B)).add_left (x % B * B)
  rw [← hmul, Nat.one_mul] at hright
  exact hright.symm

theorem swap_swap {x : Nat} (hx : x < B * B) : swap B (swap B x) = x := by
  have hB : 0 < B := Nat.pos_of_ne_zero fun h => by
    rw [h] at hx
    exact absurd hx (Nat.not_lt_zero _)
  have h1 : x / B < B := Nat.div_lt_of_lt_mul hx
  have hmod : (x % B * B + x / B) % B = x / B := by rw [Nat.add_comm, Nat.add_mul_mod_self_right, Nat.mod_eq_of_lt h1]
  have hdiv : (x % B * B + x / B) / B = x % B := by
    rw [Nat.add_comm, Nat.add_mul_div_right _ _ hB, Nat.div_eq_of_lt h1, Nat.zero_add]
  rw [swap, swap, hmod, hdiv, Nat.mul_comm, Nat.div_add_mod]

/-- A sum of swapped words is the swapped sum. -/
theorem sum_swap (hB : 2 ≤ B) {words : List Nat} (h : ∀ x ∈ words, x < B * B) :
    sum (B * B) (words.map (swap B)) = swap B (sum (B * B) words) := by
  have hN : 2 ≤ B * B := le_trans hB (Nat.le_mul_of_pos_left B (by omega))
  have hpos : 0 < B := by omega
  have hmap : ∀ x ∈ words.map (swap B), x < B * B := by
    intro x hx
    obtain ⟨y, hy, rfl⟩ := List.mem_map.1 hx
    exact swap_lt (h y hy)
  -- both are zero for the same words, and have the same residue
  have hzero : ∀ words : List Nat, (words.map (swap B)).sum = 0 ↔ words.sum = 0 := by
    intro words
    induction words with
    | nil => exact Iff.rfl
    | cons x words ih =>
      rw [List.map_cons, List.sum_cons, List.sum_cons, Nat.add_eq_zero_iff, Nat.add_eq_zero_iff, swap_eq_zero hpos, ih]
  have hmod : ∀ words : List Nat, (words.map (swap B)).sum ≡ B * words.sum [MOD B * B - 1] := by
    intro words
    induction words with
    | nil => exact Nat.ModEq.refl _
    | cons x words ih =>
      rw [List.map_cons, List.sum_cons, List.sum_cons, Nat.mul_add]
      exact (swap_modEq hpos x).add ih
  rw [sum_eq_rep hN hmap, sum_eq_rep hN h]
  symm
  refine eq_rep (swap_lt (rep_lt hN _)) ?_ ?_
  · rw [swap_eq_zero hpos, rep_eq_zero, hzero]
  · exact (swap_modEq hpos _).trans (((rep_modEq words.sum).mul_left B).trans (hmod words).symm)

end Swap

end Ones
