import NanoS32.Fs.File
import NanoS32.Lemmas.Recount

/-!
# Allocating the blocks of a file

The allocation loop of `fs_write_file` keeps the entry it fills in memory, while `find_free_block` reads the table on disk. So
the references it fills in one entry all get the same block, the one that was free when it came to the entry. `Vol.alloc` is
the effect of the loop on the table, entry by entry.
-/

namespace NanoS32

/-- The entry with other references. -/
def Block.setRefs (e : SfsEntry) (r : Fin 120 → UInt32) : SfsEntry := { e with ref := r }

/-- The entry with `m` references, from index `i` on, set to block `b`. -/
def Block.fillRefs (e : SfsEntry) (i m b : Nat) : SfsEntry :=
  { e with ref := fun k => if i ≤ k.val ∧ k.val < i + m then UInt32.ofNat b else e.ref k }

/-- The table after the allocation of `n` references, from reference `lo` of the first of the entries on; `false` when there
was no free block for an entry. -/
def Vol.alloc : Vol → List Nat → Nat → Nat → Vol × Bool
  | V, [], _, _ => (V, true)
  | V, a :: l, lo, n =>
    if n = 0 then (V, true)
    else
      match V.freeBlock with
      | none => (V, false)
      | some b => Vol.alloc (V.setEnt a ((V.ent a).fillRefs lo (min n (120 - lo)) b)) l 0 (n - min n (120 - lo))

namespace Block

variable (e : SfsEntry)

@[simp] theorem setRefs_fields (r : Fin 120 → UInt32) :
    (e.setRefs r).flags = e.flags ∧ (e.setRefs r).used = e.used ∧ (e.setRefs r).isFile = e.isFile ∧
      (e.setRefs r).isDir = e.isDir ∧ (e.setRefs r).name = e.name ∧ (e.setRefs r).nameStr = e.nameStr ∧
      (e.setRefs r).time = e.time ∧ (e.setRefs r).size = e.size ∧ (e.setRefs r).parent = e.parent ∧
      (e.setRefs r).next = e.next :=
  ⟨rfl, rfl, rfl, rfl, rfl, rfl, rfl, rfl, rfl, rfl⟩

@[simp] theorem fillRefs_fields (i m b : Nat) :
    (e.fillRefs i m b).flags = e.flags ∧ (e.fillRefs i m b).used = e.used ∧ (e.fillRefs i m b).isFile = e.isFile ∧
      (e.fillRefs i m b).isDir = e.isDir ∧ (e.fillRefs i m b).name = e.name ∧ (e.fillRefs i m b).nameStr = e.nameStr ∧
      (e.fillRefs i m b).time = e.time ∧ (e.fillRefs i m b).size = e.size ∧ (e.fillRefs i m b).parent = e.parent ∧
      (e.fillRefs i m b).next = e.next :=
  ⟨rfl, rfl, rfl, rfl, rfl, rfl, rfl, rfl, rfl, rfl⟩

theorem refAt_fillRefs (i m j : Nat) {b : Nat} (h : b < 4294967296) :
    (e.fillRefs i m b).refAt j = if i ≤ j ∧ j < i + m ∧ j < 120 then b else e.refAt j := by
  unfold refAt fillRefs
  by_cases hj : j < 120
  · by_cases hi : i ≤ j ∧ j < i + m
    · simp only [hj, dite_true, hi, and_self, if_true, UInt32.toNat_ofNat']
      exact Nat.mod_eq_of_lt h
    · have hi' : ¬(i ≤ j ∧ j < i + m ∧ j < 120) := by omega
      rw [if_neg hi']
      simp only [hj, dite_true, hi, if_false]
  · simp [hj]

theorem fillRefs_zero (i b : Nat) : e.fillRefs i 0 b = e := by
  have h : ∀ k : Fin 120, ¬(i ≤ k.val ∧ k.val < i + 0) := by
    intro k
    omega
  simp only [fillRefs, h, if_false]

/-- Filling one reference, and then those after it. -/
theorem fillRefs_setRef (i m b : Nat) : (e.setRef i b).fillRefs (i + 1) m b = e.fillRefs i (m + 1) b := by
  have h : ((e.setRef i b).fillRefs (i + 1) m b).ref = (e.fillRefs i (m + 1) b).ref := by
    funext k
    simp only [fillRefs, setRef]
    split_ifs <;> first | rfl | omega
  exact congrArg (fun r => { e with ref := r }) h

end Block

/-! ## What the allocation does to the table -/

/-- The references of a chain, from its first entry and from the chain behind it. -/
theorem Vol.fref_cons (V : Vol) (a : Nat) (l : List Nat) (i : Nat) :
    V.fref (a :: l) i = if i < 120 then (V.ent a).refAt i else V.fref l (i - 120) := by
  unfold Vol.fref
  by_cases hi : i < 120
  · rw [if_pos hi, Nat.div_eq_of_lt hi, Nat.mod_eq_of_lt hi]
    rfl
  · have h1 : i / 120 = (i - 120) / 120 + 1 := by omega
    have h2 : i % 120 = (i - 120) % 120 := by omega
    rw [if_neg hi, h1, h2, List.getElem?_cons_succ]

/-- The allocation of `n` references has set `k` of them. Those in the entry at place `j` of `l` have been set to `blk j`, a
data block that, when it was chosen, no file referenced. -/
structure Vol.Alloced (V : Vol) (l : List Nat) (lo k : Nat) (blk : Nat → Nat) (V' : Vol) : Prop where
  agree : V.AgreeOff l V'
  refsOnly : ∀ a, ∃ r, V'.ent a = (V.ent a).setRefs r
  refs : ∀ i, V'.fref l i = if lo ≤ i ∧ i < lo + k then blk (i / 120) else V.fref l i
  data : ∀ j, 0 < k → 120 * j < lo + k → V.firstData ≤ blk j ∧ blk j < V.dataEnd
  free : ∀ j, 0 < k → 120 * j < lo + k → (∀ m < V.nent, m ∉ l.take j → blk j ∉ (V.ent m).liveRefs) ∧
    ∀ m ∈ l.take j, blk j ∉ (V'.ent m).liveRefs

theorem Vol.Alloced.none (V : Vol) (l : List Nat) (lo : Nat) : V.Alloced l lo 0 (fun _ => 0) V := by
  refine ⟨Vol.AgreeOff.refl _ _, fun a => ⟨(V.ent a).ref, rfl⟩, ?_, ?_, ?_⟩
  · intro i
    rw [if_neg (by omega)]
  · intro j hk
    omega
  · intro j hk
    omega

/-- All the references are set, or some, and then there is no free block left. -/
theorem Vol.alloc_spec : ∀ (l : List Nat) (V : Vol) (lo n : Nat), V.Geo → l.Nodup → (∀ a ∈ l, a < V.nent) → lo < 120 →
    n ≤ 120 * l.length - lo →
    ∃ k blk, V.Alloced l lo k blk (V.alloc l lo n).1 ∧ ((V.alloc l lo n).2 = true ∧ k = n ∨
      (V.alloc l lo n).2 = false ∧ k < n ∧ (V.alloc l lo n).1.freeBlock = none) := by
  intro l
  induction l with
  | nil =>
    intro V lo n _ _ _ _ hn
    have hn0 : n = 0 := by
      simp only [List.length_nil] at hn
      omega
    subst hn0
    exact ⟨0, fun _ => 0, Vol.Alloced.none V [] lo, Or.inl ⟨rfl, rfl⟩⟩
  | cons a l ih =>
    intro V lo n hg hnd hlt hlo hn
    rcases Nat.eq_zero_or_pos n with rfl | hn0
    · have h : V.alloc (a :: l) lo 0 = (V, true) := by simp [Vol.alloc]
      rw [h]
      exact ⟨0, fun _ => 0, Vol.Alloced.none V _ lo, Or.inl ⟨rfl, rfl⟩⟩
    · cases hb : V.freeBlock with
      | none =>
        have h : V.alloc (a :: l) lo n = (V, false) := by simp [Vol.alloc, hb, show n ≠ 0 by omega]
        rw [h]
        exact ⟨0, fun _ => 0, Vol.Alloced.none V _ lo, Or.inr ⟨rfl, hn0, hb⟩⟩
      | some b =>
        obtain ⟨m, hm⟩ : ∃ m, m = min n (120 - lo) := ⟨_, rfl⟩
        have halloc : V.alloc (a :: l) lo n = (V.setEnt a ((V.ent a).fillRefs lo m b)).alloc l 0 (n - m) := by
          rw [Vol.alloc, if_neg (by omega), hb, hm]
        obtain ⟨V₁, hV₁⟩ : ∃ V₁, V₁ = V.setEnt a ((V.ent a).fillRefs lo m b) := ⟨_, rfl⟩
        rw [halloc, ← hV₁]
        obtain ⟨hal, hnd'⟩ := List.nodup_cons.1 hnd
        obtain ⟨hb1, -, hb3⟩ := Vol.freeBlock_eq_some hb
        have hbend := hg.freeBlock_lt hb
        have hbsmall : b < 4294967296 := by
          rw [Vol.dataEnd] at hbend
          omega
        have ha1 : V.AgreeOff [a] V₁ := hV₁ ▸ V.agreeOff_setEnt a _
        have henta : V₁.ent a = (V.ent a).fillRefs lo m b := by rw [hV₁, Vol.ent_setEnt_self]
        have hrest : n - m ≤ 120 * l.length - 0 := by
          simp only [List.length_cons] at hn
          omega
        obtain ⟨k, blk, hA, hres⟩ :=
          ih V₁ 0 (n - m) (ha1.geo hg) hnd' (fun x hx => ha1.nent ▸ hlt x (List.mem_cons_of_mem _ hx)) (by omega) hrest
        generalize V₁.alloc l 0 (n - m) = W at hA hres ⊢
        obtain ⟨V', ok⟩ := W
        simp only at hA hres ⊢
        have hVa : V'.ent a = (V.ent a).fillRefs lo m b := by rw [hA.agree.ent hal, henta]
        have hmpos : 0 < m := by omega
        have hmk : k = 0 ∨ lo + m = 120 := by
          rcases hres with ⟨-, h⟩ | ⟨-, h, -⟩ <;> omega
        have hlm : lo + m ≤ 120 := by omega
        refine ⟨m + k, fun j => if j = 0 then b else blk (j - 1), ?_, ?_⟩
        · refine ⟨?_, ?_, ?_, ?_, ?_⟩
          · exact (ha1.mono (by simp)).trans (hA.agree.mono (by simp))
          · intro x
            obtain ⟨r, hx⟩ := hA.refsOnly x
            by_cases hxa : x = a
            · subst hxa
              exact ⟨((V.ent x).fillRefs lo m b).ref, hVa⟩
            · rw [ha1.ent (by simpa using hxa)] at hx
              exact ⟨r, hx⟩
          · intro i
            rw [Vol.fref_cons, Vol.fref_cons, hVa, Block.refAt_fillRefs _ _ _ _ hbsmall]
            by_cases hi : i < 120
            · have hd0 : i / 120 = 0 := by omega
              simp only [hi, if_true, hd0]
              by_cases hin : lo ≤ i ∧ i < lo + m
              · rw [if_pos ⟨hin.1, hin.2, trivial⟩, if_pos (by omega)]
              · rw [if_neg (by omega), if_neg (by omega)]
            · have hfr : V₁.fref l (i - 120) = V.fref l (i - 120) := by
                refine Vol.fref_congr (fun x hx => ?_) _
                rw [ha1.ent (by rw [List.mem_singleton]; rintro rfl; exact hal hx)]
              rw [if_neg hi, if_neg hi, hA.refs, hfr]
              have hd : i / 120 = (i - 120) / 120 + 1 := by omega
              simp only [hd, Nat.add_one_ne_zero, if_false, Nat.add_sub_cancel]
              by_cases hin : i < lo + (m + k)
              · rw [if_pos (by omega), if_pos (by omega)]
              · rw [if_neg (by omega), if_neg (by omega)]
          · intro j _ hj
            by_cases hj0 : j = 0
            · simp only [hj0, if_true]
              exact ⟨hb1, hbend⟩
            · simp only [hj0, if_false]
              have := hA.data (j - 1) (by omega) (by omega)
              rw [ha1.firstData, ha1.dataEnd] at this
              exact this
          · intro j _ hj
            by_cases hj0 : j = 0
            · subst hj0
              simp only [if_true, List.take_zero]
              exact ⟨fun x hx _ => hb3 x hx, fun x hx => absurd hx List.not_mem_nil⟩
            · obtain ⟨i, rfl⟩ : ∃ i, j = i + 1 := ⟨j - 1, by omega⟩
              simp only [Nat.add_one_ne_zero, if_false, Nat.add_sub_cancel, List.take_succ_cons]
              obtain ⟨h1, h2⟩ := hA.free i (by omega) (by omega)
              refine ⟨?_, ?_⟩
              · intro x hx hxl
                rw [List.mem_cons, not_or] at hxl
                have := h1 x (ha1.nent ▸ hx) hxl.2
                rw [ha1.ent (by simpa using hxl.1)] at this
                exact this
              · intro x hx
                rcases List.mem_cons.1 hx with rfl | hx
                · have hxl : x ∉ l.take i := fun h => hal (List.mem_of_mem_take h)
                  have := h1 x (ha1.nent ▸ hlt x (by simp)) hxl
                  rw [hA.agree.ent hal]
                  exact this
                · exact h2 x hx
        · rcases hres with ⟨h1, h2⟩ | ⟨h1, h2, h3⟩
          · exact Or.inl ⟨h1, by omega⟩
          · exact Or.inr ⟨h1, by omega, h3⟩

/-! ## The loop -/

section Run

variable {env : Env} {s : Sys} {d : Nat}

/-- Writing back the entries on the way to the one where the allocation starts changes nothing. -/
theorem growSkip_run (hr : Ready env s d) {V : Vol} (hg : V.Geo) :
    ∀ (l₁ : List Nat) (a : Nat) (l₂ : List Nat), V.IsChain (l₁ ++ a :: l₂) →
      (growSkip env d l₁.length ((l₁ ++ [a]).head (by simp)) (V.ent ((l₁ ++ [a]).head (by simp)))).run (s.withVol d V) =
        .ok (a, V.ent a) (s.withVol d V) := by
  have hn := hg.nent_lt
  intro l₁
  induction l₁ with
  | nil => intro a l₂ _; rfl
  | cons x l₁ ih =>
    intro a l₂ hc
    have hx : x < V.nent := hc.lt x (by simp)
    obtain ⟨y, t, hyt⟩ : ∃ y t, l₁ ++ a :: l₂ = y :: t := by
      cases l₁ with
      | nil => exact ⟨a, l₂, rfl⟩
      | cons y l₁ => exact ⟨y, l₁ ++ a :: l₂, rfl⟩
    have hhead : (l₁ ++ [a]).head (by simp) = y := by
      cases l₁ with
      | nil => simpa using (List.cons.inj hyt).1
      | cons z l₁ => simpa using (List.cons.inj hyt).1
    rw [List.cons_append, hyt] at hc
    have hnext : (V.ent x).next.toNat = y := hc.linked.1
    have hlt : y < V.nent := hc.lt y (by simp)
    have ih' := ih a l₂ (by rw [hyt]; exact hc.tail)
    rw [hhead] at ih'
    simp only [List.cons_append, List.head_cons, List.length_cons]
    rw [growSkip, Prog.bind_ok (writeEntry_run hr V (by omega) _), Vol.setEnt_ent, hnext,
      Prog.bind_ok (getEntryN_run hr V (by omega))]
    exact ih'

/-- While a block is free, the references of one entry all get it. -/
theorem growLoop_fill (hr : Ready env s d) {V : Vol} (hg : V.Geo) {b : Nat} (hb : V.freeBlock = some b) (a n : Nat) :
    ∀ (m lo : Nat) (t : SfsEntry), lo + m ≤ 120 →
      (growLoop env d (m + n) lo a t).run (s.withVol d V) =
        (growLoop env d n (lo + m) a (t.fillRefs lo m b)).run (s.withVol d V) := by
  have hbl : b < 8388608 := by
    have h1 := hg.freeBlock_lt hb
    rw [Vol.dataEnd] at h1
    omega
  intro m
  induction m with
  | zero => intro lo t _; rw [Block.fillRefs_zero, Nat.zero_add, Nat.add_zero]
  | succ m ih =>
    intro lo t hlo
    have h1 : lo / sfsEntryRefs = 0 := by simp only [sfsEntryRefs]; omega
    have h2 : lo % sfsEntryRefs = lo := by simp only [sfsEntryRefs]; omega
    have h3 : ¬ errorAny ≤ b := by simp only [errorAny]; omega
    have hfree : (findFreeBlock env d).run (s.withVol d V) = .ok b (s.withVol d V) := by
      rw [findFreeBlock_run hr hg.nent_lt, hb]
    rw [show m + 1 + n = m + n + 1 by omega, growLoop, h1]
    simp only [growSkip]
    rw [Prog.bind_ok (Prog.run_pure _ _), Prog.bind_ok hfree]
    simp only [Prog.run_failIf_bind, if_neg h3, h2]
    rw [ih (lo + 1) _ (by omega), Block.fillRefs_setRef, show lo + 1 + m = lo + (m + 1) by omega]

/-- When no block is free, the loop ends. -/
theorem growLoop_none (hr : Ready env s d) {V : Vol} (hg : V.Geo) (hb : V.freeBlock = none) (a n : Nat) {lo : Nat}
    (hlo : lo < 120) (t : SfsEntry) :
    (growLoop env d (n + 1) lo a t).run (s.withVol d V) = .error errorNoSpace (s.withVol d V) := by
  have h1 : lo / sfsEntryRefs = 0 := by simp only [sfsEntryRefs]; omega
  have hfree : (findFreeBlock env d).run (s.withVol d V) = .error errorNoSpace (s.withVol d V) := by
    rw [findFreeBlock_run hr hg.nent_lt, hb]
  rw [growLoop, h1]
  simp only [growSkip]
  rw [Prog.bind_ok (Prog.run_pure _ _), Prog.bind_error hfree]

/-- At the end of an entry, the loop writes it back and goes on to the next. -/
theorem growLoop_next (hr : Ready env s d) {V : Vol} (hg : V.Geo) {a b : Nat} (ha : a < V.nent) (hb : b < V.nent)
    (t : SfsEntry) (hnext : t.next.toNat = b) (n : Nat) :
    (growLoop env d (n + 1) 120 a t).run (s.withVol d V) =
      (growLoop env d (n + 1) 0 b ((V.setEnt a t).ent b)).run (s.withVol d (V.setEnt a t)) := by
  have hn := hg.nent_lt
  have hskip : (growSkip env d (120 / sfsEntryRefs) a t).run (s.withVol d V) =
      .ok (b, (V.setEnt a t).ent b) (s.withVol d (V.setEnt a t)) := by
    rw [show 120 / sfsEntryRefs = 0 + 1 from rfl, growSkip, Prog.bind_ok (writeEntry_run hr V (by omega) _), hnext,
      Prog.bind_ok (getEntryN_run hr _ (by omega))]
    rfl
  rw [growLoop, Prog.bind_ok hskip]
  conv_rhs => rw [growLoop, show 0 / sfsEntryRefs = 0 from rfl, growSkip, Prog.bind_ok (Prog.run_pure _ _)]
  rfl

/-- The allocation loop, from an index inside its first entry, and the write of the last entry after it. -/
theorem growLoop_run (hr : Ready env s d) :
    ∀ (l : List Nat) (a : Nat) (V : Vol) (lo n : Nat), V.Geo → V.IsChain (a :: l) → lo < 120 →
      n ≤ 120 * (l.length + 1) - lo →
      (growLoop env d n lo a (V.ent a) >>= fun p => writeEntry env d p.1 p.2).run (s.withVol d V) =
        if (V.alloc (a :: l) lo n).2 then .ok () (s.withVol d (V.alloc (a :: l) lo n).1)
        else .error errorNoSpace (s.withVol d (V.alloc (a :: l) lo n).1) := by
  intro l
  induction l with
  | nil =>
    intro a V lo n hg hc hlo hn
    have hbound := hg.nent_lt
    have ha : a < V.nent := hc.lt a (by simp)
    rcases Nat.eq_zero_or_pos n with rfl | hn0
    · rw [growLoop, Prog.bind_ok (Prog.run_pure _ _), writeEntry_run hr V (by omega)]
      simp [Vol.alloc]
    · cases hb : V.freeBlock with
      | none =>
        obtain ⟨k, rfl⟩ : ∃ k, n = k + 1 := ⟨n - 1, by omega⟩
        rw [Prog.bind_error (growLoop_none hr hg hb a k hlo _)]
        simp [Vol.alloc, hb]
      | some b =>
        have hmin : min n (120 - lo) = n := by
          simp only [List.length_nil] at hn
          omega
        have hfill := growLoop_fill hr hg hb a 0 n lo (V.ent a) (by omega)
        rw [Nat.add_zero, growLoop] at hfill
        rw [Prog.bind_ok hfill, writeEntry_run hr V (by omega)]
        simp [Vol.alloc, hb, hmin, show n ≠ 0 by omega]
  | cons a' l ih =>
    intro a V lo n hg hc hlo hn
    have hbound := hg.nent_lt
    have ha : a < V.nent := hc.lt a (by simp)
    have ha' : a' < V.nent := hc.lt a' (by simp)
    obtain ⟨haa, -⟩ := List.nodup_cons.1 hc.nodup
    rcases Nat.eq_zero_or_pos n with rfl | hn0
    · rw [growLoop, Prog.bind_ok (Prog.run_pure _ _), writeEntry_run hr V (by omega)]
      simp [Vol.alloc]
    · cases hb : V.freeBlock with
      | none =>
        obtain ⟨k, rfl⟩ : ∃ k, n = k + 1 := ⟨n - 1, by omega⟩
        rw [Prog.bind_error (growLoop_none hr hg hb a k hlo _)]
        simp [Vol.alloc, hb]
      | some b =>
        have halloc : V.alloc (a :: a' :: l) lo n =
            (V.setEnt a ((V.ent a).fillRefs lo (min n (120 - lo)) b)).alloc (a' :: l) 0 (n - min n (120 - lo)) := by
          rw [Vol.alloc, if_neg (by omega), hb]
        rw [halloc]
        by_cases hle : n ≤ 120 - lo
        · -- the references end in this entry
          have hmin : min n (120 - lo) = n := by omega
          have hfill := growLoop_fill hr hg hb a 0 n lo (V.ent a) (by omega)
          rw [Nat.add_zero, growLoop] at hfill
          rw [hmin, Prog.bind_ok hfill, writeEntry_run hr V (by omega)]
          simp [Vol.alloc]
        · -- the references go on in the next entry
          have hmin : min n (120 - lo) = 120 - lo := by omega
          obtain ⟨k, hk⟩ : ∃ k, n = (120 - lo) + (k + 1) := ⟨n - (120 - lo) - 1, by omega⟩
          have hrest : n - (120 - lo) = k + 1 := by omega
          rw [hmin, hrest]
          have hfill := growLoop_fill hr hg hb a (k + 1) (120 - lo) lo (V.ent a) (by omega)
          rw [show lo + (120 - lo) = 120 by omega, ← hk] at hfill
          have hnext : ((V.ent a).fillRefs lo (120 - lo) b).next.toNat = a' := hc.linked.1
          rw [growLoop_next hr hg ha ha' _ hnext] at hfill
          have hc' : (V.setEnt a ((V.ent a).fillRefs lo (120 - lo) b)).IsChain (a' :: l) := by
            refine hc.tail.congr (by simp) ?_ ?_
            · intro x hx
              rw [Vol.ent_setEnt_ne _ _ (by rintro rfl; exact haa hx)]
            · intro x hx
              rw [Vol.ent_setEnt_ne _ _ (by rintro rfl; exact haa (List.mem_cons_of_mem _ hx))]
          rw [Prog.run_bind, hfill, ← Prog.run_bind]
          refine ih a' _ 0 (k + 1) (hg.setEnt _ _) hc' (by omega) ?_
          simp only [List.length_cons] at hn
          omega

end Run

end NanoS32
