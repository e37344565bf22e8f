import NanoS32.Kernel.Heap
import Mathlib.Data.List.Nodup

/-!
# The allocations of the heap

Ownership is recorded only as the address stored in each block. The invariant of every run relates the table to the allocations
that have not been freed: each owns the run of blocks at its address, and every block in use is owned by one of them.
-/

namespace NanoS32

theorem heapBlockSize_eq : heapBlockSize = 8192 := rfl

theorem heapBlocks_eq (size : Nat) : heapBlocks size = (size + 8191) / 8192 := by
  unfold heapBlocks
  rw [heapBlockSize_eq]
  by_cases h : size % 8192 = 0
  · rw [if_neg (not_not.2 h)]
    omega
  · rw [if_pos h]
    omega

/-- The allocation owns the blocks `k` .. `k + n`. -/
structure Allocation.Owns (a : Allocation) (h : Heap) (k : Nat) : Prop where
  addr : a.addr = heapAddr + k * heapBlockSize
  pos : 0 < heapBlocks a.size
  fits : k + heapBlocks a.size ≤ heapNumBlock
  used : ∀ i, k ≤ i → i < k + heapBlocks a.size → (h i).used = true ∧ (h i).ptr = a.addr

/-- The invariant of the heap. -/
structure HeapState.Inv (s : HeapState) : Prop where
  owns : ∀ a ∈ s.live, ∃ k, a.Owns s.heap k
  owned : ∀ i < heapNumBlock, (s.heap i).used = true → ∃ a ∈ s.live, (s.heap i).ptr = a.addr ∧ a.hasBlock i
  nodup : (s.live.map Allocation.addr).Nodup

/-! ## The search -/

/-- What the search finds is a run of free blocks, and when it finds nothing there is no such run. -/
theorem heapFind_spec (h : Heap) {n : Nat} (hn : 0 < n) :
    ∀ (k i nFound : Nat), i + k = heapNumBlock → nFound ≤ i → nFound < n →
      (∀ j, i - nFound ≤ j → j < i → (h j).used = false) →
      (i - nFound = 0 ∨ (h (i - nFound - 1)).used = true) →
      (∀ m, m + n ≤ i → ∃ j, m ≤ j ∧ j < m + n ∧ (h j).used = true) →
      match heapFind h n k i nFound with
      | some m => m + n ≤ heapNumBlock ∧ ∀ j, m ≤ j → j < m + n → (h j).used = false
      | none => ¬h.hasRun n := by
  intro k
  induction k with
  | zero =>
    intro i nFound hik _ _ _ _ hno
    rw [heapFind]
    rintro ⟨m, hm, hfree⟩
    obtain ⟨j, h1, h2, h3⟩ := hno m (by omega)
    rw [hfree j h1 h2] at h3
    cases h3
  | succ k ih =>
    intro i nFound hik hle hlt hfree hstart hno
    rw [heapFind]
    cases hu : (h i).used with
    | true =>
      rw [if_pos rfl]
      refine ih (i + 1) 0 (by omega) (by omega) hn (fun j h1 h2 => by omega) (Or.inr hu) fun m hm => ?_
      by_cases hmi : m + n ≤ i
      · exact hno m hmi
      · exact ⟨i, by omega, by omega, hu⟩
    | false =>
      rw [if_neg (by simp)]
      have hfree' : ∀ j, i - nFound ≤ j → j < i + 1 → (h j).used = false := by
        intro j h1 h2
        by_cases hj : j = i
        · rw [hj, hu]
        · exact hfree j h1 (by omega)
      by_cases hfound : n ≤ nFound + 1
      · rw [if_pos hfound]
        exact ⟨by omega, fun j h1 h2 => hfree' j (by omega) (by omega)⟩
      · rw [if_neg hfound]
        refine ih (i + 1) (nFound + 1) (by omega) (by omega) (by omega) (fun j h1 h2 => hfree' j (by omega) h2) ?_ ?_
        · rw [show i + 1 - (nFound + 1) = i - nFound by omega]
          exact hstart
        · intro m hm
          by_cases hmi : m + n ≤ i
          · exact hno m hmi
          · -- a run that ends here contains the block before the free ones
            rcases hstart with h0 | hs
            · omega
            · exact ⟨i - nFound - 1, by omega, by omega, hs⟩

/-- The search over the whole table. -/
theorem heapFind_table (h : Heap) {n : Nat} (hn : 0 < n) :
    match heapFind h n heapNumBlock 0 0 with
    | some m => m + n ≤ heapNumBlock ∧ ∀ j, m ≤ j → j < m + n → (h j).used = false
    | none => ¬h.hasRun n :=
  heapFind_spec h hn heapNumBlock 0 0 rfl (by omega) hn (fun j _ h2 => by omega) (Or.inl rfl)
    fun m hm => by omega

/-- The two outcomes of `heap_alloc`. -/
theorem heapAlloc_cases (h : Heap) {size : Nat} (hs : size ≠ 0) :
    (∃ k, k + heapBlocks size ≤ heapNumBlock ∧ (∀ i, k ≤ i → i < k + heapBlocks size → (h i).used = false) ∧
      heapAlloc h size = (heapAddr + k * heapBlockSize, fun j =>
        if k ≤ j ∧ j < k + heapBlocks size then { used := true, ptr := heapAddr + k * heapBlockSize } else h j)) ∨
    (¬h.hasRun (heapBlocks size) ∧ heapAlloc h size = (0, h)) := by
  have hpos : 0 < heapBlocks size := by
    rw [heapBlocks_eq]
    omega
  have hspec := heapFind_table h hpos
  cases hf : heapFind h (heapBlocks size) heapNumBlock 0 0 with
  | some k =>
    rw [hf] at hspec
    refine Or.inl ⟨k, hspec.1, hspec.2, ?_⟩
    simp only [heapAlloc, hs, if_false, hf]
  | none =>
    rw [hf] at hspec
    refine Or.inr ⟨hspec, ?_⟩
    simp only [heapAlloc, hs, if_false, hf]

/-! ## The invariant -/

namespace HeapState.Inv

variable {s : HeapState}

theorem hasBlock_iff {a : Allocation} {h : Heap} {k : Nat} (ho : a.Owns h k) (i : Nat) :
    a.hasBlock i ↔ k ≤ i ∧ i < k + heapBlocks a.size := by
  have haddr := ho.addr
  simp only [Allocation.hasBlock, heapBlockSize_eq, heapAddr] at haddr ⊢
  omega

/-- Two live allocations with one address are the same. -/
theorem eq_of_addr (hi : s.Inv) {a b : Allocation} (ha : a ∈ s.live) (hb : b ∈ s.live) (h : a.addr = b.addr) : a = b :=
  List.inj_on_of_nodup_map hi.nodup ha hb h

/-- The blocks that hold the address of a live allocation are its blocks. -/
theorem block_iff (hi : s.Inv) {a : Allocation} (ha : a ∈ s.live) (i : Nat) :
    i < heapNumBlock ∧ (s.heap i).ptr = a.addr ∧ (s.heap i).used = true ↔ a.hasBlock i := by
  obtain ⟨k, ho⟩ := hi.owns a ha
  constructor
  · rintro ⟨hlt, hptr, hu⟩
    obtain ⟨b, hb, hpb, hbi⟩ := hi.owned i hlt hu
    rwa [hi.eq_of_addr ha hb (hptr.symm.trans hpb)]
  · intro h
    obtain ⟨h1, h2⟩ := (hasBlock_iff ho i).1 h
    have hfit := ho.fits
    exact ⟨by omega, (ho.used i h1 h2).2, (ho.used i h1 h2).1⟩

/-- Allocating keeps the invariant. -/
theorem alloc (hi : s.Inv) (size : Nat) : (s.step (.alloc size)).Inv := by
  by_cases hs : size = 0
  · simpa [HeapState.step, heapAlloc, hs] using hi
  rcases heapAlloc_cases s.heap hs with ⟨k, hk, hfree, halloc⟩ | ⟨-, halloc⟩
  · have haddr0 : heapAddr + k * heapBlockSize ≠ 0 := by
      simp only [heapAddr]
      omega
    have hpos : 0 < heapBlocks size := by
      rw [heapBlocks_eq]
      omega
    -- no live allocation has blocks among the new ones
    have hdis : ∀ a ∈ s.live, ∀ i, a.hasBlock i → ¬(k ≤ i ∧ i < k + heapBlocks size) := by
      rintro a ha i hai ⟨h1, h2⟩
      have := ((hi.block_iff ha i).2 hai).2.2
      rw [hfree i h1 h2] at this
      cases this
    simp only [HeapState.step, halloc, haddr0, if_false]
    refine ⟨?_, ?_, ?_⟩
    · intro a ha
      rcases List.mem_cons.1 ha with rfl | ha
      · exact ⟨k, rfl, hpos, hk, fun i h1 h2 => by simp only [h1, h2, and_self, if_true]⟩
      · obtain ⟨k', ho⟩ := hi.owns a ha
        refine ⟨k', ho.addr, ho.pos, ho.fits, fun i h1 h2 => ?_⟩
        have hold := hdis a ha i ((hasBlock_iff ho i).2 ⟨h1, h2⟩)
        simp only [if_neg hold]
        exact ho.used i h1 h2
    · intro i hlt hu
      by_cases hnew : k ≤ i ∧ i < k + heapBlocks size
      · refine ⟨_, List.mem_cons_self .., ?_, ?_⟩
        · simp only [hnew, and_self, if_true]
        · simp only [Allocation.hasBlock, heapBlockSize_eq]
          omega
      · simp only [if_neg hnew] at hu ⊢
        obtain ⟨a, ha, h1, h2⟩ := hi.owned i hlt hu
        exact ⟨a, List.mem_cons_of_mem _ ha, h1, h2⟩
    · rw [List.map_cons, List.nodup_cons]
      refine ⟨fun hmem => ?_, hi.nodup⟩
      obtain ⟨a, ha, haddr⟩ := List.mem_map.1 hmem
      obtain ⟨k', ho⟩ := hi.owns a ha
      have hkk : k' = k := by
        have h1 := ho.addr
        simp only [heapBlockSize_eq] at h1 haddr
        omega
      have hb := (hasBlock_iff ho k).2 ⟨by omega, by have := ho.pos; omega⟩
      exact hdis a ha k hb ⟨Nat.le_refl _, by omega⟩
  · simpa [HeapState.step, halloc] using hi

/-- Freeing keeps the invariant. -/
theorem free (hi : s.Inv) (ptr : Nat) : (s.step (.free ptr)).Inv := by
  by_cases hp : ptr = 0
  · have hlive : s.live.filter (fun a => a.addr != ptr) = s.live := by
      refine List.filter_eq_self.2 fun a ha => ?_
      obtain ⟨k, ho⟩ := hi.owns a ha
      have : a.addr ≠ 0 := by
        rw [ho.addr]
        simp only [heapAddr]
        omega
      simpa [hp] using this
    subst hp
    simp only [HeapState.step, heapFree, if_true, hlive]
    exact hi
  · simp only [HeapState.step, heapFree, hp, if_false]
    refine ⟨?_, ?_, ?_⟩
    · intro a ha
      obtain ⟨ha, hne⟩ := List.mem_filter.1 ha
      have hne' : a.addr ≠ ptr := by simpa using hne
      obtain ⟨k, ho⟩ := hi.owns a ha
      refine ⟨k, ho.addr, ho.pos, ho.fits, fun i h1 h2 => ?_⟩
      obtain ⟨hu, hptr⟩ := ho.used i h1 h2
      have hold : ¬(i < heapNumBlock ∧ (s.heap i).ptr = ptr ∧ (s.heap i).used = true) :=
        fun h => hne' (hptr.symm.trans h.2.1)
      simp only [if_neg hold]
      exact ⟨hu, hptr⟩
    · intro i hlt hu
      by_cases hfree : i < heapNumBlock ∧ (s.heap i).ptr = ptr ∧ (s.heap i).used = true
      · simp [hfree] at hu
      · simp only [if_neg hfree] at hu ⊢
        obtain ⟨a, ha, h1, h2⟩ := hi.owned i hlt hu
        have hne : a.addr ≠ ptr := fun h => hfree ⟨hlt, h1.trans h, hu⟩
        exact ⟨a, List.mem_filter.2 ⟨ha, by simpa using hne⟩, h1, h2⟩
    · exact hi.nodup.sublist (List.filter_sublist.map _)

theorem step (hi : s.Inv) (c : HeapCall) : (s.step c).Inv := by
  cases c with
  | alloc size => exact hi.alloc size
  | free ptr => exact hi.free ptr

end HeapState.Inv

/-- Every run keeps the invariant. -/
theorem heapRun_inv (calls : List HeapCall) : (heapRun calls).Inv := by
  have h : ∀ (calls : List HeapCall) (s : HeapState), s.Inv → (calls.foldl HeapState.step s).Inv := by
    intro calls
    induction calls with
    | nil => intro s hs; exact hs
    | cons c calls ih => intro s hs; exact ih _ (hs.step c)
  refine h calls _ ⟨?_, ?_, ?_⟩
  · simp
  · simp [heapInit]
  · simp

/-! ## The allocations -/

/-- After any sequence of calls, the regions of the live allocations are disjoint, inside the heap and large enough; a request
that fails finds no run of free blocks and changes nothing; freeing a live allocation releases its blocks and no others, and
freeing any other pointer changes nothing. -/
theorem heap_allocations (calls : List HeapCall) :
    (heapRun calls).live.Pairwise (fun a b => ∀ x, ¬(a.region x ∧ b.region x)) ∧
    (∀ a ∈ (heapRun calls).live, a.size ≤ heapBlocks a.size * heapBlockSize ∧
      ∀ x, a.region x → heapAddr ≤ x ∧ x < heapAddr + heapMemSize) ∧
    (∀ size, size ≠ 0 → (heapAlloc (heapRun calls).heap size).1 = 0 →
      ¬(heapRun calls).heap.hasRun (heapBlocks size) ∧
        (heapAlloc (heapRun calls).heap size).2 = (heapRun calls).heap) ∧
    (∀ a ∈ (heapRun calls).live, ∀ i,
      (a.hasBlock i → ((heapRun calls).heap i).used = true ∧ (heapFree (heapRun calls).heap a.addr i).used = false) ∧
      (¬a.hasBlock i → heapFree (heapRun calls).heap a.addr i = (heapRun calls).heap i)) ∧
    (∀ ptr, (∀ a ∈ (heapRun calls).live, a.addr ≠ ptr) → heapFree (heapRun calls).heap ptr = (heapRun calls).heap) := by
  have hi := heapRun_inv calls
  refine ⟨?_, ?_, ?_, ?_, ?_⟩
  · refine (List.pairwise_map.1 hi.nodup).imp_of_mem fun {a b} ha hb hne x hx => hne ?_
    obtain ⟨ka, hoa⟩ := hi.owns a ha
    obtain ⟨kb, hob⟩ := hi.owns b hb
    -- a byte in both regions is in a block of both
    obtain ⟨i, hia, hib⟩ : ∃ i, a.hasBlock i ∧ b.hasBlock i := by
      refine ⟨(x - heapAddr) / heapBlockSize, (HeapState.Inv.hasBlock_iff hoa _).2 ?_,
        (HeapState.Inv.hasBlock_iff hob _).2 ?_⟩
      · have h1 := hx.1
        have h2 := hoa.addr
        simp only [Allocation.region, heapBlockSize_eq] at h1 h2 ⊢
        omega
      · have h1 := hx.2
        have h2 := hob.addr
        simp only [Allocation.region, heapBlockSize_eq] at h1 h2 ⊢
        omega
    exact ((hi.block_iff ha i).2 hia).2.1.symm.trans ((hi.block_iff hb i).2 hib).2.1
  · intro a ha
    obtain ⟨k, ho⟩ := hi.owns a ha
    have h1 := ho.addr
    have h2 := ho.fits
    simp only [heapBlocks_eq, heapBlockSize_eq, heapNumBlock] at h1 h2 ⊢
    refine ⟨by omega, fun x hx => ?_⟩
    simp only [Allocation.region, heapBlocks_eq, heapBlockSize_eq, heapMemSize] at hx ⊢
    omega
  · intro size hs hnull
    rcases heapAlloc_cases (heapRun calls).heap hs with ⟨k, -, -, halloc⟩ | ⟨hrun, halloc⟩
    · rw [halloc] at hnull
      simp only [heapAddr] at hnull
      omega
    · rw [halloc]
      exact ⟨hrun, rfl⟩
  · intro a ha i
    obtain ⟨k, ho⟩ := hi.owns a ha
    have h0 : a.addr ≠ 0 := by
      rw [ho.addr]
      simp only [heapAddr]
      omega
    have hiff := hi.block_iff ha i
    simp only [heapFree, h0, if_false]
    refine ⟨fun hb => ?_, fun hb => ?_⟩
    · rw [if_pos (hiff.2 hb)]
      exact ⟨(hiff.2 hb).2.2, rfl⟩
    · rw [if_neg fun h => hb (hiff.1 h)]
  · intro ptr hptr
    by_cases h0 : ptr = 0
    · simp only [heapFree, h0, if_true]
    · simp only [heapFree, h0, if_false]
      funext i
      refine if_neg ?_
      rintro ⟨hlt, hp, hu⟩
      obtain ⟨a, ha, hpa, -⟩ := hi.owned i hlt hu
      exact hptr a ha (hpa.symm.trans hp)

end NanoS32
