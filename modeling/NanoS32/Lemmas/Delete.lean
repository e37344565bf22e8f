import NanoS32.Fs.Dir
import NanoS32.Inv.Format
import NanoS32.Lib.Forest
import Mathlib.Data.Finset.Card

/-!
# Deleting a subtree

`delete_n` calls itself on the items of a directory and on the rest of a chain, and each call first takes the entry out of the
references of the entry before it. The caller goes on with the copy of the directory that it read before.
-/

namespace NanoS32

open Prog

/-! ## Subtrees -/

/-- The entries of the subtree of a head: the chains of the heads under it. -/
def Vol.Subtree (V : Vol) (C : Nat → List Nat) (n m : Nat) : Prop := ∃ h, C h ≠ [] ∧ Forest.Under V.par n h ∧ m ∈ C h

open Classical in
/-- The number of these entries. -/
noncomputable def Vol.subtreeSize (V : Vol) (C : Nat → List Nat) (n : Nat) : Nat :=
  ((Finset.range V.nent).filter (V.Subtree C n)).card

namespace Vol.Format

variable {V : Vol} {C : Nat → List Nat} {P : Nat → Prop}

/-- A head that is not the root is not under one of its children. -/
theorem not_under_child (hf : V.Format C P) {n c : Nat} (ht : Forest.Under V.par 0 n) (hn0 : n ≠ 0) (hc : V.par c = n) :
    ¬Forest.Under V.par c n := by
  rintro ⟨k, hk⟩
  refine hn0 (Forest.root_of_cycle hf.root.2.2.1 ht (Nat.succ_pos k) ?_)
  rw [Function.iterate_succ_apply', hk, hc]

theorem subtree_self (hf : V.Format C P) {n : Nat} (hn : C n ≠ []) : V.Subtree C n n :=
  ⟨n, hn, Forest.Under.refl _ _, hf.mem_head hn⟩

theorem subtree_lt (hf : V.Format C P) {n m : Nat} (h : V.Subtree C n m) : m < V.nent := by
  obtain ⟨h, -, -, hm⟩ := h
  exact hf.lt hm

theorem subtree_child {n c m : Nat} (hc : V.par c = n) (h : V.Subtree C c m) : V.Subtree C n m := by
  obtain ⟨h, hh, hu, hm⟩ := h
  have hcn : Forest.Under V.par n c := Forest.Under.step (hc ▸ Forest.Under.refl _ _)
  exact ⟨h, hh, hcn.trans hu, hm⟩

/-- A subtree is the chain of its head and the subtrees of the items. -/
theorem subtree_cases (hf : V.Format C P) {n m : Nat} (h : V.Subtree C n m) :
    m ∈ C n ∨ ∃ c, C c ≠ [] ∧ V.par c = n ∧ c ≠ n ∧ V.Subtree C c m := by
  obtain ⟨h, hh, hu, hm⟩ := h
  by_cases hne : h = n
  · exact Or.inl (hne ▸ hm)
  · obtain ⟨c, hcn, hc, hch⟩ := hu.child hne
    have hhead : C c ≠ [] := by
      obtain ⟨k, hk⟩ := hch
      rw [← hk]
      clear hk
      induction k with
      | zero => exact hh
      | succ k ih =>
        rw [Function.iterate_succ_apply']
        exact hf.parent_head ih
    exact Or.inr ⟨c, hhead, hcn, hc, h, hh, hch, hm⟩

/-- The subtrees of two items are disjoint. -/
theorem subtree_disjoint (hf : V.Format C P) {n c c' m : Nat} (ht : Forest.Under V.par 0 n) (hn0 : n ≠ 0)
    (hc : V.par c = n) (hc' : V.par c' = n) (h : V.Subtree C c m) (h' : V.Subtree C c' m) : c = c' := by
  obtain ⟨g, -, hu, hm⟩ := h
  obtain ⟨g', -, hu', hm'⟩ := h'
  obtain rfl := hf.disjoint g g' m hm hm'
  exact Forest.Under.child_unique hf.root.2.2.1 ht hn0 hc hc' hu hu'

/-- The chain of a head is not in the subtree of an item. -/
theorem chain_not_subtree (hf : V.Format C P) {n c m : Nat} (ht : Forest.Under V.par 0 n) (hn0 : n ≠ 0)
    (hc : V.par c = n) (hm : m ∈ C n) : ¬V.Subtree C c m := by
  rintro ⟨g, -, hu, hm'⟩
  obtain rfl := hf.disjoint g n m hm' hm
  exact hf.not_under_child ht hn0 hc hu

/-- The directory of a head is not in its subtree. -/
theorem parent_not_subtree (hf : V.Format C P) {n : Nat} (hn : C n ≠ []) (ht : Forest.Under V.par 0 n) (hn0 : n ≠ 0) :
    ¬V.Subtree C n (V.par n) := by
  rintro ⟨g, hg, hu, hm⟩
  obtain rfl := hf.disjoint g (V.par n) (V.par n) hm (hf.mem_head (hf.parent_head hn))
  have hpn : Forest.Under V.par (V.par n) n := Forest.Under.step (Forest.Under.refl _ _)
  have heq := Forest.Under.antisymm hf.root.2.2.1 ht hu hpn
  exact hn0 (Forest.root_of_cycle hf.root.2.2.1 ht Nat.one_pos heq.symm)

/-- The subtree of an item is smaller. -/
theorem subtreeSize_child (hf : V.Format C P) {n c : Nat} (hn : C n ≠ []) (ht : Forest.Under V.par 0 n) (hn0 : n ≠ 0)
    (hc : V.par c = n) :
    V.subtreeSize C c < V.subtreeSize C n := by
  classical
  refine Finset.card_lt_card (Finset.ssubset_iff_subset_ne.2 ⟨fun m hm => ?_, fun heq => ?_⟩)
  · rw [Finset.mem_filter] at hm ⊢
    exact ⟨hm.1, subtree_child hc hm.2⟩
  · have hmem : n ∈ (Finset.range V.nent).filter (V.Subtree C n) :=
      Finset.mem_filter.2 ⟨Finset.mem_range.2 (hf.head_lt hn), hf.subtree_self hn⟩
    rw [← heq, Finset.mem_filter] at hmem
    exact hf.chain_not_subtree ht hn0 hc (hf.mem_head hn) hmem.2

/-- The chain of a head is part of its subtree. -/
theorem length_le_subtreeSize (hf : V.Format C P) {n : Nat} (hn : C n ≠ []) : (C n).length ≤ V.subtreeSize C n := by
  classical
  rw [← List.toFinset_card_of_nodup (hf.chain n hn).nodup]
  refine Finset.card_le_card fun m hm => ?_
  rw [List.mem_toFinset] at hm
  exact Finset.mem_filter.2 ⟨Finset.mem_range.2 (hf.lt hm), n, hn, Forest.Under.refl _ _, hm⟩

theorem subtreeSize_le (V : Vol) (C : Nat → List Nat) (n : Nat) : V.subtreeSize C n ≤ V.nent := by
  classical
  exact (Finset.card_filter_le _ _).trans (Finset.card_range _).le

end Vol.Format

section Run

variable {env : Env} {s : Sys} {d : Nat}

/-- `delete_n` as a sequence of its parts. -/
theorem deleteN_succ (env : Env) (fuel d n : Nat) : deleteN env (fuel + 1) d n =
    getEntryN env d n >>= fun entry => removeRefInEntry env d entry.parent.toNat n >>= fun _ =>
      (if entry.isDir then
        Prog.each (deleteN env fuel d) ((List.range (min entry.size.toNat sfsEntryRefs)).map entry.refAt) else pure ()) >>=
        fun _ => (if entry.next.toNat ≠ 0 then deleteN env fuel d entry.next.toNat else pure ()) >>=
          fun _ => writeEntry env d n Block.zero := by
  rw [deleteN]
  refine congrArg (fun x => getEntryN env d n >>= x) (funext fun entry => ?_)
  refine congrArg (fun x => removeRefInEntry env d entry.parent.toNat n >>= x) (funext fun _ => ?_)
  split_ifs <;> rfl

/-! ## The rest of a chain -/

/-- Zeroing the entries of a list. -/
theorem Vol.updEnts_zero_cons (V : Vol) (b : Nat) (l : List Nat) :
    (V.updEnts l fun _ _ => Block.zero).setEnt b Block.zero = V.updEnts (b :: l) fun _ _ => Block.zero := by
  have hlow : ∀ k < 2, (V.updEnts l fun _ _ => Block.zero).setEnt b Block.zero k = V k := by
    intro k hk
    have hne : k ≠ 2 + b := by omega
    rw [Vol.setEnt, Function.update_of_ne hne, Vol.updEnts_low _ _ _ hk]
  apply Vol.ext
  · rw [hlow 0 (by omega), Vol.updEnts_low _ _ _ (by omega)]
  · rw [hlow 1 (by omega), Vol.updEnts_low _ _ _ (by omega)]
  · intro n
    rw [Vol.ent_setEnt, Vol.ent_updEnts, Vol.ent_updEnts]
    by_cases hn : n = b
    · rw [if_pos hn, if_pos (by simp [hn])]
    · simp [hn]

/-- What a chain of a file is asked for by the search for an entry in its references: the references are not entries, and the
sizes are those of the rest of the file. -/
structure Vol.FileChain (V : Vol) (ch : List Nat) (size : Nat) : Prop where
  chain : V.IsChain ch
  flags : ∀ x ∈ ch, (V.ent x).flags = tFile
  refs : ∀ x ∈ ch, ∀ i, (V.ent x).refAt i = 0 ∨ V.firstData ≤ (V.ent x).refAt i
  sizes : ∀ i x, ch[i]? = some x → (V.ent x).size.toNat = size - 61440 * i
  fits : size ≤ 61440 * ch.length

theorem Vol.FileChain.tail {V : Vol} {a b : Nat} {l : List Nat} {size : Nat} (h : V.FileChain (a :: b :: l) size) :
    V.FileChain (b :: l) (size - 61440) := by
  refine ⟨h.chain.tail, fun x hx => h.flags x (List.mem_cons_of_mem _ hx),
    fun x hx => h.refs x (List.mem_cons_of_mem _ hx), fun i x hi => ?_, ?_⟩
  · have := h.sizes (i + 1) x hi
    omega
  · have := h.fits
    simp only [List.length_cons] at this ⊢
    omega

/-- The rest of a chain is not referenced by the entry before it. -/
theorem removeRef_chained (hr : Ready env s d) {V : Vol} (hg : V.Geo) {a b size : Nat} {l : List Nat}
    (h : V.FileChain (a :: b :: l) size) (hsize : size < 4294967296) :
    (removeRefInEntry env d a b).run (s.withVol d V) = .ok () (s.withVol d V) := by
  have hb : b < V.nent := h.chain.lt b (by simp)
  have hb0 : b ≠ 0 := h.chain.linked.2.1
  have hcount : ∀ x ∈ a :: b :: l, getEntryRefcount (V.ent x) = ((V.ent x).size.toNat + 511) / 512 := by
    intro x hx
    rw [getEntryRefcount, (Block.isFile_of_flags (h.flags x hx)).1, if_pos rfl, neededBlocks_eq]
  have hhead : getEntryRefcount (V.ent a) = (size + 511) / 512 := by
    have h0 := h.sizes 0 a rfl
    rw [Nat.mul_zero, Nat.sub_zero] at h0
    rw [hcount a (by simp), h0]
  refine removeRefInEntry_absent hr hg h.chain (fun i _ hi => ?_) (fun i x hi => ?_) ?_ ?_
  · unfold Vol.fref at hi
    split at hi
    case h_1 x hx =>
      rcases h.refs x (List.mem_of_getElem? hx) (i % 120) with h0 | h0
      · exact hb0 (hi.symm.trans h0)
      · simp only [Vol.firstData] at h0
        omega
    case h_2 => exact hb0 hi.symm
  · rw [hcount x (List.mem_of_getElem? hi), hhead, h.sizes i x hi]
    omega
  · have hfits := h.fits
    simp only [List.length_cons] at hfits ⊢
    omega
  · omega

/-- `delete_n` on a chained entry zeroes the rest of the chain. -/
theorem deleteN_chained (hr : Ready env s d) {V : Vol} (hg : V.Geo) :
    ∀ (l : List Nat) (fuel a b size : Nat), V.FileChain (a :: b :: l) size → size < 4294967296 → l.length < fuel →
      (deleteN env fuel d b).run (s.withVol d V) = .ok () (s.withVol d (V.updEnts (b :: l) fun _ _ => Block.zero)) := by
  have hn := hg.nent_lt
  intro l
  induction l with
  | nil =>
    intro fuel a b size h hsize hfuel
    obtain ⟨fuel, rfl⟩ : ∃ k, fuel = k + 1 := ⟨fuel - 1, by simp only [List.length_nil] at hfuel; omega⟩
    have hb : b < V.nent := h.chain.lt b (by simp)
    have hpar : (V.ent b).parent.toNat = a := h.chain.linked.2.2.1
    have hnext : (V.ent b).next.toNat = 0 := h.chain.tail.linked
    rw [deleteN_succ, bind_ok (getEntryN_run hr V (by omega)), hpar, bind_ok (removeRef_chained hr hg h hsize),
      (Block.isFile_of_flags (h.flags b (by simp))).2, if_neg Bool.false_ne_true, bind_ok (run_pure _ _), hnext,
      if_neg (not_not.2 rfl), bind_ok (run_pure _ _), writeEntry_run hr V (by omega), ← Vol.updEnts_zero_cons, Vol.updEnts_nil]
  | cons c l ih =>
    intro fuel a b size h hsize hfuel
    obtain ⟨fuel, rfl⟩ : ∃ k, fuel = k + 1 := ⟨fuel - 1, by simp only [List.length_cons] at hfuel; omega⟩
    have hb : b < V.nent := h.chain.lt b (by simp)
    have hpar : (V.ent b).parent.toNat = a := h.chain.linked.2.2.1
    have hnext : (V.ent b).next.toNat = c := h.chain.tail.linked.1
    have hc0 : c ≠ 0 := h.chain.tail.linked.2.1
    have hrest := ih fuel b c (size - 61440) h.tail (by omega) (by simp only [List.length_cons] at hfuel; omega)
    rw [deleteN_succ, bind_ok (getEntryN_run hr V (by omega)), hpar, bind_ok (removeRef_chained hr hg h hsize),
      (Block.isFile_of_flags (h.flags b (by simp))).2, if_neg Bool.false_ne_true, bind_ok (run_pure _ _), hnext, if_pos hc0,
      bind_ok hrest, writeEntry_run hr _ (by omega), Vol.updEnts_zero_cons]

/-! ## A head -/

/-- The directory `p` has `n` as its item `j`, and not before. -/
structure Vol.HasItem (V : Vol) (p n j : Nat) : Prop where
  flags : (V.ent p).flags = tDir
  next : V.next p = 0
  small : (V.ent p).size.toNat ≤ 120
  lt : j < (V.ent p).size.toNat
  ref : (V.ent p).refAt j = n
  first : ∀ i < j, (V.ent p).refAt i ≠ n

/-- The entries of the subtree of `n`, in the disk `V`, have been zeroed, and the item `j` of its directory has been removed, with
nothing else changed from `W` to `W'`. -/
structure Vol.Pruned (V : Vol) (C : Nat → List Nat) (n j : Nat) (W W' : Vol) : Prop where
  zero : ∀ m, V.Subtree C n m → W'.ent m = Block.zero
  parent : W'.ent (V.par n) = (W.ent (V.par n)).removeItem j
  rest : ∀ k, k ≠ 2 + V.par n → (∀ m, V.Subtree C n m → k ≠ 2 + m) → W' k = W k

/-- `delete_n` with this bound does so for every head that is an item of its directory. -/
def DeletesHeads (env : Env) (s : Sys) (d fuel : Nat) (V : Vol) (C : Nat → List Nat) : Prop :=
  ∀ (n j : Nat) (W : Vol), C n ≠ [] → Forest.Under V.par 0 n → n ≠ 0 → V.subtreeSize C n ≤ fuel → W 1 = V 1 →
    (∀ m, V.Subtree C n m → W.ent m = V.ent m) → W.HasItem (V.par n) n j →
      ∃ W', (deleteN env fuel d n).run (s.withVol d W) = .ok () (s.withVol d W') ∧ V.Pruned C n j W W'

variable {V : Vol} {C : Nat → List Nat}

/-- A head that is not the root is an item of its directory. -/
theorem Vol.Format.hasItem {P : Nat → Prop} (hf : V.Format C P) {n : Nat} (hn : C n ≠ []) (hn0 : n ≠ 0) (hP : ¬P n) :
    ∃ j, V.HasItem (V.par n) n j := by
  obtain ⟨j, hj, href, huniq⟩ := hf.place hn hn0 hP
  obtain ⟨hp, hdir⟩ := hf.parent n hn
  obtain ⟨hsingle, hsmall⟩ := hf.single _ hp hdir
  have hnext := (hf.chain _ hp).linked
  rw [hsingle] at hnext
  exact ⟨j, hdir, hnext, hsmall, hj, href, huniq⟩

/-- The loop over the items of a directory, each of which is the first item when its turn comes. -/
theorem deleteItems_run (hf : V.Format C fun _ => False) {fuel n : Nat} (ih : DeletesHeads env s d fuel V C) (hn : C n ≠ [])
    (ht : Forest.Under V.par 0 n) (hn0 : n ≠ 0) (hsize : V.subtreeSize C n ≤ fuel + 1) :
    ∀ (l : List Nat) (W : Vol), (∀ c ∈ l, C c ≠ [] ∧ V.par c = n ∧ c ≠ 0) → l.Nodup → W 1 = V 1 →
      (∀ c ∈ l, ∀ m, V.Subtree C c m → W.ent m = V.ent m) → (W.ent n).flags = tDir → W.next n = 0 →
      (W.ent n).size.toNat ≤ 120 → (W.ent n).items = l →
        ∃ W', (Prog.each (deleteN env fuel d) l).run (s.withVol d W) = .ok () (s.withVol d W') ∧
          (∀ c ∈ l, ∀ m, V.Subtree C c m → W'.ent m = Block.zero) ∧
            ∀ k, k ≠ 2 + n → (∀ c ∈ l, ∀ m, V.Subtree C c m → k ≠ 2 + m) → W' k = W k := by
  intro l
  induction l with
  | nil => exact fun W _ _ _ _ _ _ _ _ => ⟨W, rfl, fun _ h => absurd h List.not_mem_nil, fun _ _ _ => rfl⟩
  | cons c l ihl =>
    intro W hl hnd h1 hsame hflags hnext hsmall hitems
    obtain ⟨hc, hcn, hc0⟩ := hl c (by simp)
    obtain ⟨hcl, hnd'⟩ := List.nodup_cons.1 hnd
    have hlen : (W.ent n).size.toNat = l.length + 1 := by
      rw [← List.length_cons, ← hitems, Block.items, List.length_map, List.length_range]
    have hfirst : (W.ent n).refAt 0 = c := by
      have h0 : (W.ent n).items[0]? = some c := by rw [hitems]; rfl
      rw [Block.items, List.getElem?_map, List.getElem?_range (by omega)] at h0
      exact Option.some.inj h0
    have hitem : W.HasItem (V.par c) c 0 := by
      rw [hcn]
      exact ⟨hflags, hnext, hsmall, by omega, hfirst, fun _ h => absurd h (Nat.not_lt_zero _)⟩
    have hlt := hf.subtreeSize_child hn ht hn0 hcn
    obtain ⟨W₁, hrun, hp⟩ := ih c 0 W hc (Forest.Under.step (hcn.symm ▸ ht)) hc0 (by omega) h1 (hsame c (by simp)) hitem
    have hown : ∀ c' ∈ c :: l, ∀ m, V.Subtree C c' m → m ≠ n := by
      rintro c' hc' m hm rfl
      exact hf.chain_not_subtree ht hn0 (hl c' hc').2.1 (hf.mem_head hn) hm
    have hother : ∀ c' ∈ l, ∀ m, V.Subtree C c' m → ¬V.Subtree C c m := by
      intro c' hc' m hm hm'
      obtain rfl := hf.subtree_disjoint ht hn0 (hl c' (List.mem_cons_of_mem _ hc')).2.1 hcn hm hm'
      exact hcl hc'
    have hent : W₁.ent n = (W.ent n).removeItem 0 := by
      have h := hp.parent
      rwa [hcn] at h
    have hkeep : ∀ m, m ≠ n → ¬V.Subtree C c m → W₁.ent m = W.ent m := by
      intro m hmn hm
      refine hp.rest _ (by rw [hcn]; omega) fun m' hm' heq => ?_
      obtain rfl : m = m' := by omega
      exact hm hm'
    obtain ⟨W', hrun', hzero, hrest⟩ := ihl W₁ (fun c' hc' => hl c' (List.mem_cons_of_mem _ hc')) hnd'
      ((hp.rest 1 (by omega) (fun m _ => by omega)).trans h1)
      (fun c' hc' m hm => by
        rw [hkeep m (hown c' (List.mem_cons_of_mem _ hc') m hm) (hother c' hc' m hm)]
        exact hsame c' (List.mem_cons_of_mem _ hc') m hm)
      (by rw [hent]; exact hflags) (by rw [Vol.next, hent]; rfl)
      (by rw [hent, Block.size_removeItem _ _ hsmall]; omega)
      (by rw [hent, Block.items_removeItem _ hsmall (by omega), hitems]; rfl)
    refine ⟨W', (bind_ok hrun).trans hrun', fun c' hc' m hm => ?_, fun k hk hks => ?_⟩
    · rcases List.mem_cons.1 hc' with rfl | hc'l
      · rw [← hp.zero m hm]
        refine hrest _ (fun heq => hown c' hc' m hm (by omega)) fun c'' hc'' m' hm' heq => ?_
        obtain rfl : m = m' := by omega
        exact hother c'' hc'' m hm' hm
      · exact hzero c' hc'l m hm
    · rw [hrest k hk fun c' hc' => hks c' (List.mem_cons_of_mem _ hc')]
      exact hp.rest k (by rw [hcn]; exact hk) (hks c (by simp))

/-- The chain of a file, in a table that has its entries. -/
theorem fileChain (hf : V.Format C fun _ => False) {n : Nat} (hn : C n ≠ []) (hfile : (V.ent n).flags = tFile) {W : Vol}
    (h1 : W 1 = V 1) (hsame : ∀ m ∈ C n, W.ent m = V.ent m) : W.FileChain (C n) (V.ent n).size.toNat := by
  have hnent : W.nent = V.nent := by rw [Vol.nent, h1, Vol.nent]
  refine ⟨?_, fun x hx => ?_, fun x hx i => ?_, fun i x hi => ?_, hf.fits n hn hfile⟩
  · obtain ⟨l, hl⟩ := hf.cons hn
    have hc := hf.chain n hn
    rw [hl] at hc hsame ⊢
    exact hc.congr hnent (fun x hx => by rw [hsame x hx]) fun x hx => by rw [hsame x (List.mem_cons_of_mem _ hx)]
  · rw [hsame x hx, hf.flags n x hx, hfile]
  · obtain ⟨k, hk⟩ := List.mem_iff_getElem?.1 hx
    rw [hsame x hx, Vol.firstData, hnent]
    by_cases hi : i < 120
    · have href := hf.refs n hn hfile (120 * k + i)
      rw [V.fref_of_get hk i hi, Vol.firstData] at href
      exact href.imp_right And.left
    · exact Or.inl (Block.refAt_of_le _ (by omega))
  · rw [hsame x (List.mem_of_getElem? hi), hf.sizes n i x hi]

/-- `delete_n` on a head. -/
theorem deleteN_head (hr : Ready env s d) (hf : V.Format C fun _ => False) : ∀ fuel, DeletesHeads env s d fuel V C := by
  intro fuel
  induction fuel with
  | zero =>
    intro n j W hn _ _ hsize _ _ _
    have hlen := hf.length_le_subtreeSize hn
    have hpos := List.length_pos_iff.2 hn
    omega
  | succ fuel ih =>
    intro n j W hn ht hn0 hsize h1 hsame hitem
    have hbound := hf.geo.nent_lt
    have hnlt := hf.head_lt hn
    have hplt := hf.head_lt (hf.parent_head hn)
    have hg : W.Geo := hf.geo.of_super h1
    have hnent : W.nent = V.nent := by rw [Vol.nent, h1, Vol.nent]
    have hpn := hf.parent_not_subtree hn ht hn0
    obtain ⟨p, hp⟩ : ∃ p, p = V.par n := ⟨_, rfl⟩
    rw [← hp] at hitem hplt hpn
    have hself := hf.subtree_self hn
    have hne : p ≠ n := fun h => hpn (h ▸ hself)
    have hent : W.ent n = V.ent n := hsame n hself
    have hpar : (V.ent n).parent.toNat = p := hp.symm
    have hchain : W.IsChain [p] := by
      refine ⟨hitem.next, List.nodup_singleton p, fun x hx => ?_⟩
      rw [List.mem_singleton.1 hx, hnent]
      exact hplt
    have hremove := removeRefInEntry_run hr hg hchain hitem.flags hitem.small hitem.lt hitem.ref hitem.first
    obtain ⟨W₁, hW₁⟩ : ∃ W₁, W₁ = W.setEnt p ((W.ent p).removeItem j) := ⟨_, rfl⟩
    rw [← hW₁] at hremove
    have h1₁ : W₁ 1 = V 1 := by rw [hW₁, Vol.setEnt, Function.update_of_ne (by omega), h1]
    have hsame₁ : ∀ m, V.Subtree C n m → W₁.ent m = V.ent m := by
      intro m hm
      have hmp : m ≠ p := fun h => hpn (h ▸ hm)
      rw [hW₁, Vol.ent_setEnt_ne _ _ hmp, hsame m hm]
    have hrest₁ : ∀ k, k ≠ 2 + p → W₁ k = W k := fun k hk => by rw [hW₁, Vol.setEnt, Function.update_of_ne hk]
    rw [deleteN_succ, bind_ok (getEntryN_run hr W (by omega)), hent, hpar, bind_ok hremove]
    rcases hf.kind n hn with hdir | hfile
    · -- a directory: its items, and then itself
      obtain ⟨hsingle, hsmall⟩ := hf.single n hn hdir
      have hnext : (V.ent n).next.toNat = 0 := by
        have hlink := (hf.chain n hn).linked
        rw [hsingle] at hlink
        exact hlink
      have hmin : min (V.ent n).size.toNat sfsEntryRefs = (V.ent n).size.toNat := by
        rw [sfsEntryRefs]
        omega
      have hchild : ∀ c ∈ (V.ent n).items, C c ≠ [] ∧ V.par c = n ∧ c ≠ 0 := by
        intro c hc
        rw [hf.items n hn hdir c] at hc
        exact ⟨hc.1, hc.2.2.1, hc.2.1⟩
      have hent₁ : W₁.ent n = V.ent n := hsame₁ n hself
      obtain ⟨W₂, hloop, hzero, hrest⟩ := deleteItems_run hf ih hn ht hn0 hsize (V.ent n).items W₁ hchild
        (hf.nodup n hn hdir) h1₁ (fun c hc m hm => hsame₁ m (Vol.Format.subtree_child (hchild c hc).2.1 hm))
        (by rw [hent₁, hdir]) (by rw [Vol.next, hent₁, hnext]) (by rw [hent₁]; exact hsmall) (by rw [hent₁])
      have hlist : (List.range (min (V.ent n).size.toNat sfsEntryRefs)).map (V.ent n).refAt = (V.ent n).items := by
        rw [hmin, Block.items]
      rw [(Block.isDir_of_flags hdir).1, if_pos rfl, hlist, bind_ok hloop, hnext, if_neg (not_not.2 rfl),
        bind_ok (run_pure _ _), writeEntry_run hr _ (by omega)]
      have hout : ∀ k, k ≠ 2 + n → (∀ m, V.Subtree C n m → k ≠ 2 + m) → W₂.setEnt n Block.zero k = W₁ k := by
        intro k hk hks
        rw [Vol.setEnt, Function.update_of_ne hk]
        exact hrest k hk fun c hc m hm => hks m (Vol.Format.subtree_child (hchild c hc).2.1 hm)
      refine ⟨_, rfl, ⟨fun m hm => ?_, ?_, fun k hk hks => ?_⟩⟩
      · rcases hf.subtree_cases hm with hmn | ⟨c, hc, hcn, hcne, hmc⟩
        · rw [hsingle, List.mem_singleton] at hmn
          rw [hmn, Vol.ent_setEnt_self]
        · have hmne : m ≠ n := by
            rintro rfl
            exact hf.chain_not_subtree ht hn0 hcn (hf.mem_head hn) hmc
          have hc0 : c ≠ 0 := by
            rintro rfl
            exact hn0 (hcn.symm.trans hf.root.2.2.1)
          have hcitem : c ∈ (V.ent n).items := by
            rw [hf.items n hn hdir c]
            exact ⟨hc, hc0, hcn, not_false⟩
          rw [Vol.ent_setEnt_ne _ _ hmne]
          exact hzero c hcitem m hmc
      · rw [← hp]
        refine (hout (2 + p) (by omega) fun m hm h => ?_).trans ?_
        · obtain rfl : p = m := by omega
          exact hpn hm
        · rw [hW₁]
          exact Vol.ent_setEnt_self _ _ _
      · rw [hout k (hks n hself) hks]
        exact hrest₁ k (by rw [hp]; exact hk)
    · -- a file: the rest of its chain, and then itself
      have hnode : ∀ m, V.Subtree C n m → m ∈ C n := by
        intro m hm
        rcases hf.subtree_cases hm with hmn | ⟨c, hc, hcn, -, -⟩
        · exact hmn
        · have hd := (hf.parent c hc).2
          rw [hcn, hfile] at hd
          exact absurd hd.symm Vol.Format.tDir_ne_tFile
      have hmem : ∀ m ∈ C n, V.Subtree C n m := fun m hm => ⟨n, hn, Forest.Under.refl _ _, hm⟩
      have hfc := fileChain hf hn hfile h1₁ fun m hm => hsame₁ m (hmem m hm)
      obtain ⟨l, hl⟩ := hf.cons hn
      have hrun : ((if (V.ent n).next.toNat ≠ 0 then deleteN env fuel d (V.ent n).next.toNat else pure ()) >>=
          fun _ => writeEntry env d n Block.zero).run (s.withVol d W₁) =
            .ok () (s.withVol d (W₁.updEnts (C n) fun _ _ => Block.zero)) := by
        have hlink := (hf.chain n hn).linked
        rw [hl] at hfc hlink ⊢
        cases l with
        | nil =>
          have hnext : (V.ent n).next.toNat = 0 := hlink
          rw [hnext, if_neg (not_not.2 rfl), bind_ok (run_pure _ _), writeEntry_run hr _ (by omega),
            ← Vol.updEnts_zero_cons, Vol.updEnts_nil]
        | cons b l =>
          have hnext : (V.ent n).next.toNat = b := hlink.1
          have hlen := hf.length_le_subtreeSize hn
          rw [hl, List.length_cons, List.length_cons] at hlen
          have hchained := deleteN_chained hr (hf.geo.of_super h1₁) l fuel n b _ hfc (UInt32.toNat_lt _) (by omega)
          rw [hnext, if_pos hlink.2.1, bind_ok hchained, writeEntry_run hr _ (by omega), Vol.updEnts_zero_cons]
      have hout : ∀ k, (∀ m, V.Subtree C n m → k ≠ 2 + m) → (W₁.updEnts (C n) fun _ _ => Block.zero) k = W₁ k := by
        intro k hks
        exact Vol.agreeOff_updEnts W₁ (C n) _ k fun x hx => hks x (hmem x hx)
      rw [(Block.isFile_of_flags hfile).2, if_neg Bool.false_ne_true, bind_ok (run_pure _ _)]
      refine ⟨_, hrun, ⟨fun m hm => ?_, ?_, fun k hk hks => ?_⟩⟩
      · rw [Vol.ent_updEnts, if_pos (hnode m hm)]
      · rw [← hp]
        refine (hout (2 + p) fun m hm h => ?_).trans ?_
        · obtain rfl : p = m := by omega
          exact hpn hm
        · rw [hW₁]
          exact Vol.ent_setEnt_self _ _ _
      · rw [hout k hks]
        exact hrest₁ k (by rw [hp]; exact hk)

end Run

end NanoS32
