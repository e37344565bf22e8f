import NanoS32.Lemmas.Grow

/-!
# The items of a directory

A directory with at most `SFS_ENTRYREFS` items is one entry, and its items are its first references. Adding an item puts it
behind them, removing one closes the gap. Along a chain of several entries, the loop that removes an item changes nothing but
references, and nothing at all when the item is not there.
-/

namespace NanoS32

/-- The items of a directory of one entry. -/
def Block.items (e : SfsEntry) : List Nat := (List.range e.size.toNat).map e.refAt

/-- The entry with the references after index `j`, up to index `r`, moved up by one. -/
def Block.dropRef (e : SfsEntry) (j r : Nat) : SfsEntry :=
  e.setRefs fun k => if j ≤ k.val ∧ k.val < r then UInt32.ofNat (e.refAt (k.val + 1)) else e.ref k

namespace Block

variable (e : SfsEntry)

theorem isDir_of_flags {e : SfsEntry} (h : e.flags = tDir) : e.isDir = true ∧ e.isFile = false := by
  rw [isDir, isFile, h]
  decide

theorem isFile_of_flags {e : SfsEntry} (h : e.flags = tFile) : e.isFile = true ∧ e.isDir = false := by
  rw [isDir, isFile, h]
  decide

@[simp] theorem dropRef_fields (j r : Nat) :
    (e.dropRef j r).flags = e.flags ∧ (e.dropRef j r).used = e.used ∧ (e.dropRef j r).isFile = e.isFile ∧
      (e.dropRef j r).isDir = e.isDir ∧ (e.dropRef j r).name = e.name ∧ (e.dropRef j r).nameStr = e.nameStr ∧
      (e.dropRef j r).time = e.time ∧ (e.dropRef j r).size = e.size ∧ (e.dropRef j r).parent = e.parent ∧
      (e.dropRef j r).next = e.next :=
  ⟨rfl, rfl, rfl, rfl, rfl, rfl, rfl, rfl, rfl, rfl⟩

theorem refAt_dropRef (j r i : Nat) :
    (e.dropRef j r).refAt i = if j ≤ i ∧ i < r ∧ i < 120 then e.refAt (i + 1) else e.refAt i := by
  by_cases hi : i < 120
  · by_cases hj : j ≤ i ∧ i < r
    · have hval : (e.dropRef j r).refAt i = (UInt32.ofNat (e.refAt (i + 1))).toNat := by
        simp only [refAt, hi, dite_true, dropRef, setRefs, hj, and_self, if_true]
      rw [hval, if_pos ⟨hj.1, hj.2, hi⟩, UInt32.toNat_ofNat']
      exact Nat.mod_eq_of_lt (e.refAt_lt _)
    · have hval : (e.dropRef j r).refAt i = e.refAt i := by
        simp only [refAt, hi, dite_true, dropRef, setRefs, hj, if_false]
      rw [hval, if_neg (by omega)]
  · rw [if_neg (by omega), refAt_of_le _ (by omega), refAt_of_le _ (by omega)]

theorem dropRef_self (j : Nat) : e.dropRef j j = e := by
  have h : ∀ k : Fin 120, ¬(j ≤ k.val ∧ k.val < j) := by
    intro k
    omega
  simp only [dropRef, setRefs, h, if_false]

/-- Moving up one more reference. -/
theorem dropRef_setRef {j r : Nat} (h : j ≤ r) : (e.dropRef j r).setRef r (e.refAt (r + 1)) = e.dropRef j (r + 1) := by
  have href : ((e.dropRef j r).setRef r (e.refAt (r + 1))).ref = (e.dropRef j (r + 1)).ref := by
    funext k
    simp only [dropRef, setRef, setRefs]
    by_cases hk : k.val = r
    · rw [if_pos hk, if_pos (by omega), hk]
    · rw [if_neg hk]
      by_cases hj : j ≤ k.val ∧ k.val < r
      · rw [if_pos hj, if_pos (by omega)]
      · rw [if_neg hj, if_neg (by omega)]
  exact congrArg (fun f => { e with ref := f }) href

end Block

section Run

variable {env : Env} {s : Sys} {d : Nat}

/-- Setting the size of a directory of one entry. -/
theorem setEntrySize_dir (hr : Ready env s d) {V : Vol} (hg : V.Geo) {n : Nat} (hc : V.IsChain [n])
    (hd : (V.ent n).flags = tDir) {size : Nat} (hs : size ≤ 120) :
    (setEntrySize env d n size).run (s.withVol d V) =
      .ok () (s.withVol d (V.setEnt n ((V.ent n).setSize size))) := by
  obtain ⟨hdir, hfile⟩ := Block.isDir_of_flags hd
  have hfuel := hr.fuel
  have hunit : ∀ x ∈ [n], (V.ent x).unit = 120 := by
    intro x hx
    obtain rfl := List.mem_singleton.1 hx
    simp [Block.unit, hdir, hfile, sfsEntryRefs]
  rw [setEntrySize, setSizeLoop_run hr 120 env.fuel n [] V size hg hc (by simp; omega) hunit (by simp; omega) (by simp),
    ← Vol.updEnts_cons _ (by simp), Vol.updEnts_nil]
  simp

/-- A directory of one entry stays one when the link of the entry does not change. -/
theorem Vol.IsChain.setEnt_single {V : Vol} {n : Nat} (hc : V.IsChain [n]) {e : SfsEntry}
    (he : e.next = (V.ent n).next) : (V.setEnt n e).IsChain [n] := by
  refine hc.congr (by simp) ?_ (by simp)
  intro x hx
  obtain rfl := List.mem_singleton.1 hx
  rw [Vol.ent_setEnt_self, he]

/-! ## Adding an item -/

/-- The entry of a directory after an item has been added. -/
def Block.addItem (e : SfsEntry) (n : Nat) : SfsEntry := (e.setRef e.size.toNat n).setSize (e.size.toNat + 1)

/-- `add_ref_in_entry` on a directory with room. -/
theorem addRefInEntry_run (hr : Ready env s d) {V : Vol} (hg : V.Geo) {n : Nat} (hc : V.IsChain [n])
    (hd : (V.ent n).flags = tDir) (hs : (V.ent n).size.toNat < 120) (ref : Nat) :
    (addRefInEntry env d n ref).run (s.withVol d V) =
      .ok () (s.withVol d (V.setEnt n ((V.ent n).addItem ref))) := by
  have hb := hg.nent_lt
  have hn : n < V.nent := hc.lt n (by simp)
  obtain ⟨hdir, hfile⟩ := Block.isDir_of_flags hd
  have hcount : getEntryRefcount (V.ent n) = (V.ent n).size.toNat := by simp [getEntryRefcount, hdir, hfile]
  have hfound : (getNrefEntryFromEntry env d n (V.ent n) (V.ent n).size.toNat).run (s.withVol d V) =
      .ok (n, V.ent n) (s.withVol d V) := by
    have h0 : (V.ent n).size.toNat / sfsEntryRefs = 0 := by simp only [sfsEntryRefs]; omega
    rw [getNrefEntryFromEntry, h0]
    rfl
  have hmod : (V.ent n).size.toNat % sfsEntryRefs = (V.ent n).size.toNat := by simp only [sfsEntryRefs]; omega
  have hwrap : wrap32 ((V.ent n).size.toNat + 1) = (V.ent n).size.toNat + 1 := wrap32_of_lt (by omega)
  have hsize := setEntrySize_dir hr (hg.setEnt n ((V.ent n).setRef (V.ent n).size.toNat ref))
    (hc.setEnt_single (Block.setRef_fields _ _ _).2.2.2.2.2.2.2.2.2)
    (by rw [Vol.ent_setEnt_self]; exact hd) (show (V.ent n).size.toNat + 1 ≤ 120 by omega)
  rw [Vol.setEnt_setEnt, Vol.ent_setEnt_self] at hsize
  rw [addRefInEntry, Prog.bind_ok (getEntryN_run hr V (by omega)), hcount, Prog.bind_ok (Prog.attempt_ok hfound)]
  refine (Prog.bind_ok (Prog.run_pure _ _)).trans ?_
  refine (Prog.bind_ok (writeEntry_run hr V (by omega) _)).trans ?_
  rw [if_pos hdir, hmod, hwrap, hsize, Block.addItem]

/-! ## Removing an item -/

/-- The loop of `remove_ref_in_entry` on a directory, from the place of the reference on. -/
theorem removeRefLoop_found (env : Env) (s : Sys) (d n : Nat) {ref j : Nat} {e : SfsEntry} {k : Nat} (hk : k ≤ 120)
    (hnext : e.next.toNat = 0) (href : e.refAt j = ref) :
    ∀ (m fuel r : Nat) (nextentry : SfsEntry) (found : Bool), r + m = k → j ≤ r → m < fuel → (found = true ∨ r = j) →
      (0 < m → nextentry = e) →
      ∃ st, (removeRefLoop env d ref fuel r
          { currentry := e.dropRef j r, ncurrentry := n, nextentry := nextentry, refcount := k, found := found }).run s = .ok st s ∧
        st.currentry = e.dropRef j k ∧ st.ncurrentry = n ∧ st.refcount = k ∧ (0 < m → st.found = true) ∧
        (m = 0 → st.found = found) := by
  intro m
  induction m with
  | zero =>
    intro fuel r nextentry found hrk _ hf _ _
    obtain ⟨fuel, rfl⟩ : ∃ f, fuel = f + 1 := ⟨fuel - 1, by omega⟩
    obtain rfl : r = k := by omega
    rw [removeRefLoop, if_neg (by simp)]
    exact ⟨_, rfl, rfl, rfl, rfl, by simp, by simp⟩
  | succ m ih =>
    intro fuel r nextentry found hrk hjr hf hfound hne
    obtain ⟨fuel, rfl⟩ : ∃ f, fuel = f + 1 := ⟨fuel - 1, by omega⟩
    obtain rfl : nextentry = e := hne (by omega)
    have hfd : (found || (nextentry.dropRef j r).refAt r == ref) = true := by
      rcases hfound with h | h
      · simp [h]
      · subst h
        rw [Block.dropRef_self, href]
        simp
    have h120 : ¬ r = sfsEntryRefs := by simp only [sfsEntryRefs]; omega
    -- whatever entry comes next, its reference in place `r + 1` is the one that moves up
    have hmove : ∀ nx : SfsEntry, nx.refAt ((r + 1) % sfsEntryRefs) = nextentry.refAt (r + 1) →
        (0 < m → nx = nextentry) → ∃ st, (removeRefLoop env d ref fuel (r + 1)
          { currentry := (nextentry.dropRef j r).setRef r (nx.refAt ((r + 1) % sfsEntryRefs)), ncurrentry := n,
            nextentry := nx, refcount := k, found := true }).run s = .ok st s ∧
          st.currentry = nextentry.dropRef j k ∧ st.ncurrentry = n ∧ st.refcount = k ∧ st.found = true := by
      intro nx hnx hnm
      rw [hnx, Block.dropRef_setRef _ hjr]
      obtain ⟨st, hrun, h1, h2, h3, h4, h5⟩ := ih fuel (r + 1) nx true (by omega) (by omega) (by omega) (Or.inl rfl) hnm
      refine ⟨st, hrun, h1, h2, h3, ?_⟩
      rcases Nat.eq_zero_or_pos m with h | h
      · exact h5 h
      · exact h4 h
    rw [removeRefLoop, if_pos (show r < k by omega)]
    by_cases hr119 : r + 1 = sfsEntryRefs
    · have hz : (Block.zero.refAt ((r + 1) % sfsEntryRefs)) = nextentry.refAt (r + 1) := by
        rw [Block.refAt_of_le nextentry (by simp only [sfsEntryRefs] at hr119; omega)]
        simp
      obtain ⟨st, hrun, h1, h2, h3, h4⟩ := hmove Block.zero hz (by simp only [sfsEntryRefs] at hr119; omega)
      refine ⟨st, ?_, h1, h2, h3, fun _ => h4, by omega⟩
      rw [if_neg h120, if_pos hr119, if_neg (by simp [hnext])]
      refine (Prog.bind_ok (Prog.run_pure _ _)).trans ?_
      simp only [hfd, if_true]
      exact hrun
    · have hmod : (r + 1) % sfsEntryRefs = r + 1 := by
        simp only [sfsEntryRefs] at hr119 h120 ⊢
        omega
      obtain ⟨st, hrun, h1, h2, h3, h4⟩ := hmove nextentry (by rw [hmod]) fun _ => rfl
      refine ⟨st, ?_, h1, h2, h3, fun _ => h4, by omega⟩
      rw [if_neg h120, if_neg hr119]
      refine (Prog.bind_ok (Prog.run_pure _ _)).trans ?_
      simp only [hfd, if_true]
      exact hrun

/-- The loop before the place of the reference. -/
theorem removeRefLoop_before (env : Env) (s : Sys) (d n : Nat) {ref : Nat} {e : SfsEntry} {k : Nat} (hk : k ≤ 120) :
    ∀ (m fuel r : Nat), r + m < k → (∀ i, r ≤ i → i < r + m → e.refAt i ≠ ref) →
      (removeRefLoop env d ref (fuel + m) r
          { currentry := e, ncurrentry := n, nextentry := e, refcount := k, found := false }).run s =
        (removeRefLoop env d ref fuel (r + m)
          { currentry := e, ncurrentry := n, nextentry := e, refcount := k, found := false }).run s := by
  intro m
  induction m with
  | zero => intro fuel r _ _; rfl
  | succ m ih =>
    intro fuel r hrk hne
    have h120 : ¬ r = sfsEntryRefs := by simp only [sfsEntryRefs]; omega
    have h119 : ¬ r + 1 = sfsEntryRefs := by simp only [sfsEntryRefs]; omega
    have hfd : (false || e.refAt r == ref) = false := by simpa using hne r (Nat.le_refl _) (by omega)
    rw [show fuel + (m + 1) = fuel + m + 1 by omega, removeRefLoop, if_pos (show r < k by omega), if_neg h120, if_neg h119]
    refine (Prog.bind_ok (Prog.run_pure _ _)).trans ?_
    simp only [hfd]
    rw [if_neg (by simp), ih fuel (r + 1) (by omega) fun i h1 h2 => hne i (by omega) (by omega),
      show r + 1 + m = r + (m + 1) by omega]

/-- The entry of a directory after the item at place `j` has been removed. -/
def Block.removeItem (e : SfsEntry) (j : Nat) : SfsEntry :=
  (((e.dropRef j e.size.toNat).clearRefs (e.size.toNat - 1)).setNext 0).setSize (e.size.toNat - 1)

/-- `remove_ref_in_entry` on a directory that has the item. -/
theorem removeRefInEntry_run (hr : Ready env s d) {V : Vol} (hg : V.Geo) {n : Nat} (hc : V.IsChain [n])
    (hd : (V.ent n).flags = tDir) (hs : (V.ent n).size.toNat ≤ 120) {ref j : Nat} (hj : j < (V.ent n).size.toNat)
    (href : (V.ent n).refAt j = ref) (hfirst : ∀ i < j, (V.ent n).refAt i ≠ ref) :
    (removeRefInEntry env d n ref).run (s.withVol d V) =
      .ok () (s.withVol d (V.setEnt n ((V.ent n).removeItem j))) := by
  have hb := hg.nent_lt
  have hn : n < V.nent := hc.lt n (by simp)
  have hfuel := hr.fuel
  obtain ⟨hdir, hfile⟩ := Block.isDir_of_flags hd
  have hnext : (V.ent n).next.toNat = 0 := hc.linked
  have hcount : getEntryRefcount (V.ent n) = (V.ent n).size.toNat := by simp [getEntryRefcount, hdir, hfile]
  obtain ⟨k, hk⟩ : ∃ k, k = (V.ent n).size.toNat := ⟨_, rfl⟩
  rw [← hk] at hj hs hcount
  have hbefore := removeRefLoop_before env (s.withVol d V) d n hs j (env.fuel - j) 0 (by omega) (fun i _ hi => hfirst i (by omega))
  obtain ⟨st, hrun, h1, h2, h3, h4, -⟩ := removeRefLoop_found env (s.withVol d V) d n hs hnext href (k - j) (env.fuel - j) j (V.ent n) false
    (by omega) (Nat.le_refl _) (by omega) (Or.inr rfl) fun _ => rfl
  rw [Block.dropRef_self] at hrun
  rw [Nat.zero_add, show env.fuel - j + j = env.fuel by omega, hrun] at hbefore
  have hfound : st.found = true := h4 (by omega)
  have hsub : sub32 k 1 = k - 1 := by
    simp only [sub32, wrap32]
    omega
  have hne : neededEntries (k - 1) - 1 = 0 := by
    rw [neededEntries_eq]
    omega
  obtain ⟨V₁, hV₁⟩ : ∃ V₁, V₁ = V.setEnt n ((V.ent n).dropRef j k) := ⟨_, rfl⟩
  have hg₁ : V₁.Geo := hV₁ ▸ hg.setEnt _ _
  have hc₁ : V₁.IsChain [n] := hV₁ ▸ hc.setEnt_single (Block.dropRef_fields _ _ _).2.2.2.2.2.2.2.2.2
  have hent₁ : V₁.ent n = (V.ent n).dropRef j k := by rw [hV₁, Vol.ent_setEnt_self]
  have hcut : (setEntryRefcount env d n (k - 1)).run (s.withVol d V₁) =
      .ok () (s.withVol d (V₁.setEnt n (((V₁.ent n).clearRefs (k - 1)).setNext 0))) := by
    have h := setEntryRefcount_cutChain hr hg₁ (show V₁.IsChain ([] ++ n :: []) from hc₁) rfl
      (show ([] : List Nat).length = neededEntries (k - 1) - 1 from hne.symm)
    rw [Vol.cutChain, Vol.updEnts_nil, show min 119 (k - 1) = k - 1 by omega] at h
    exact h
  have hnext₁ : (((V₁.ent n).clearRefs (k - 1)).setNext 0).next = (V₁.ent n).next := by
    apply UInt32.toNat_inj.1
    rw [Block.toNat_setNext _ (by omega)]
    exact hc₁.linked.symm
  have hsize := setEntrySize_dir hr (hg₁.setEnt n (((V₁.ent n).clearRefs (k - 1)).setNext 0)) (hc₁.setEnt_single hnext₁)
    (by rw [Vol.ent_setEnt_self, hent₁]; exact hd) (show k - 1 ≤ 120 by omega)
  rw [Vol.setEnt_setEnt, Vol.ent_setEnt_self] at hsize
  rw [removeRefInEntry, Prog.bind_ok (getEntryN_run hr V (by omega)), hcount, Prog.bind_ok hbefore]
  simp only [hfound, if_true, h1, h2, h3, hsub]
  rw [Prog.bind_ok (writeEntry_run hr V (by omega) _), ← hV₁, Prog.bind_ok hcut, if_pos hdir, hsize]
  rw [hent₁, hV₁, Vol.setEnt_setEnt, Block.removeItem, ← hk]

/-- The references of a directory after a removal: those behind the item move up, and there is one less. -/
theorem Block.refAt_removeItem (e : SfsEntry) {j : Nat} (hs : e.size.toNat ≤ 120) (i : Nat) :
    (e.removeItem j).refAt i =
      if i < e.size.toNat - 1 then (if i < j then e.refAt i else e.refAt (i + 1)) else 0 := by
  simp only [removeItem, setSize_fields, setNext_fields, refAt_clearRefs, refAt_dropRef]
  by_cases hi : i < e.size.toNat - 1
  · rw [if_pos hi, if_pos hi]
    by_cases hj : i < j
    · rw [if_pos hj, if_neg (by omega)]
    · rw [if_neg hj, if_pos (by omega)]
  · rw [if_neg hi, if_neg hi]

theorem Block.size_removeItem (e : SfsEntry) (j : Nat) (hs : e.size.toNat ≤ 120) :
    (e.removeItem j).size.toNat = e.size.toNat - 1 := by
  rw [removeItem, toNat_setSize _ (by omega)]

theorem Block.size_addItem (e : SfsEntry) (n : Nat) (hs : e.size.toNat < 120) :
    (e.addItem n).size.toNat = e.size.toNat + 1 := by
  rw [addItem, toNat_setSize _ (by omega)]

theorem Block.refAt_addItem (e : SfsEntry) {n : Nat} (hs : e.size.toNat < 120) (hn : n < 4294967296) (i : Nat) :
    (e.addItem n).refAt i = if i = e.size.toNat then n else e.refAt i := by
  simp only [addItem, setSize_fields, refAt_setRef _ _ _ hn]
  by_cases hi : i = e.size.toNat
  · rw [if_pos hi, if_pos ⟨hi, by omega⟩]
  · rw [if_neg hi, if_neg (by tauto)]

/-- Adding an item puts it behind the others. -/
theorem Block.items_addItem (e : SfsEntry) {n : Nat} (hs : e.size.toNat < 120) (hn : n < 4294967296) :
    (e.addItem n).items = e.items ++ [n] := by
  have hmap : (List.range e.size.toNat).map (e.addItem n).refAt = e.items := by
    refine List.map_congr_left fun i hi => ?_
    have := List.mem_range.1 hi
    rw [refAt_addItem e hs hn, if_neg (by omega)]
  rw [items, size_addItem e n hs, List.range_succ, List.map_append, hmap, List.map_singleton,
    refAt_addItem e hs hn, if_pos rfl]

theorem Block.mem_items {e : SfsEntry} {n : Nat} : n ∈ e.items ↔ ∃ i < e.size.toNat, e.refAt i = n := by
  simp [items]

/-- Removing an item takes it out of the list. -/
theorem Block.items_removeItem (e : SfsEntry) {j : Nat} (hs : e.size.toNat ≤ 120) (hj : j < e.size.toNat) :
    (e.removeItem j).items = e.items.eraseIdx j := by
  apply List.ext_getElem
  · simp only [items, List.length_map, List.length_range, size_removeItem e j hs, List.length_eraseIdx]
    rw [if_pos hj]
  · intro i h1 h2
    simp only [items, List.length_map, List.length_range, size_removeItem e j hs] at h1
    simp only [items, List.getElem_map, List.getElem_range, List.getElem_eraseIdx, refAt_removeItem e hs, if_pos h1]
    split_ifs <;> rfl

/-! ## Removing along a chain -/

/-- The tables are the same but for the references in the entries `ch`. -/
structure Vol.SameButRefs (V : Vol) (ch : List Nat) (V' : Vol) : Prop where
  agree : V.AgreeOff ch V'
  refs : ∀ n ∈ ch, ∃ f, V'.ent n = (V.ent n).setRefs f

namespace Vol.SameButRefs

variable {V V' V'' : Vol} {ch : List Nat}

theorem refl (V : Vol) (ch : List Nat) : V.SameButRefs ch V := ⟨Vol.AgreeOff.refl ch V, fun n _ => ⟨(V.ent n).ref, rfl⟩⟩

theorem trans (h : V.SameButRefs ch V') (h' : V'.SameButRefs ch V'') : V.SameButRefs ch V'' := by
  refine ⟨h.agree.trans h'.agree, fun n hn => ?_⟩
  obtain ⟨f, hf⟩ := h.refs n hn
  obtain ⟨g, hg⟩ := h'.refs n hn
  exact ⟨g, by rw [hg, hf]; rfl⟩

/-- More entries may have changed than those that have. -/
theorem cons (h : V.SameButRefs ch V') (a : Nat) : V.SameButRefs (a :: ch) V' := by
  refine ⟨h.agree.mono fun x hx => List.mem_cons_of_mem a hx, fun n _ => ?_⟩
  by_cases hn : n ∈ ch
  · exact h.refs n hn
  · exact ⟨(V.ent n).ref, h.agree.ent hn⟩

/-- Writing an entry with other references. -/
theorem setEnt {a : Nat} (ha : a ∈ ch) {e : SfsEntry} (he : ∃ f, e = (V.ent a).setRefs f) : V.SameButRefs ch (V.setEnt a e) := by
  refine ⟨(V.agreeOff_setEnt a e).mono fun x hx => List.mem_singleton.1 hx ▸ ha, fun n _ => ?_⟩
  by_cases hn : n = a
  · rw [hn, Vol.ent_setEnt_self]
    exact he
  · exact ⟨(V.ent n).ref, Vol.ent_setEnt_ne _ _ hn⟩

theorem fields (h : V.SameButRefs ch V') {n : Nat} (hn : n ∈ ch) : (V'.ent n).flags = (V.ent n).flags ∧
    (V'.ent n).next = (V.ent n).next ∧ (V'.ent n).parent = (V.ent n).parent ∧
      getEntryRefcount (V'.ent n) = getEntryRefcount (V.ent n) := by
  obtain ⟨f, hf⟩ := h.refs n hn
  rw [hf]
  exact ⟨rfl, rfl, rfl, rfl⟩

theorem isChain {a : Nat} {l : List Nat} (h : V.SameButRefs (a :: l) V') (hc : V.IsChain (a :: l)) : V'.IsChain (a :: l) :=
  hc.congr h.agree.nent (fun _ hx => (h.fields hx).2.1) fun _ hx => (h.fields (List.mem_cons_of_mem a hx)).2.2.1

end Vol.SameButRefs

/-- The copy of an entry that the loop works on, and whether the reference has been found: it is the entry while it has not. -/
structure RemoveCopy (orig e : SfsEntry) (found : Bool) : Prop where
  refs : ∃ f, e = orig.setRefs f
  same : found = false → e = orig

namespace RemoveCopy

variable {orig e : SfsEntry} {found : Bool}

theorem init (orig : SfsEntry) (found : Bool) : RemoveCopy orig orig found := ⟨⟨orig.ref, rfl⟩, fun _ => rfl⟩

/-- The copy after one reference, whatever reference moves up to it. -/
theorem step (h : RemoveCopy orig e found) (ref r v : Nat) :
    RemoveCopy orig (if (found || e.refAt r == ref) = true then e.setRef r v else e) (found || e.refAt r == ref) := by
  obtain ⟨f, hf⟩ := h.refs
  refine ⟨?_, fun hfalse => ?_⟩
  · split_ifs
    · exact ⟨(e.setRef r v).ref, by rw [hf]; rfl⟩
    · exact ⟨f, hf⟩
  · rw [if_neg (by rw [hfalse]; exact Bool.false_ne_true)]
    exact h.same (Bool.or_eq_false_iff.1 hfalse).1

/-- The reference is looked for in the copy, but it is the one of the entry when it has not been found before. -/
theorem found_iff (h : RemoveCopy orig e found) (ref r : Nat) :
    (found || e.refAt r == ref) = true ↔ found = true ∨ orig.refAt r = ref := by
  cases hfound : found with
  | true => exact ⟨fun _ => Or.inl rfl, fun _ => rfl⟩
  | false => rw [h.same hfound, Bool.false_or, beq_iff_eq, or_iff_right Bool.false_ne_true]

end RemoveCopy

/-- How the loop of `remove_ref_in_entry` ends on the chain `a :: l` with `k` references, from reference `r` of `a` on. -/
structure RemoveEnd (V : Vol) (a : Nat) (l : List Nat) (ref k r : Nat) (found : Bool) (st : RemoveState) (V' : Vol) : Prop where
  same : V.SameButRefs (a :: l) V'
  last : st.ncurrentry ∈ a :: l
  copy : ∃ f, st.currentry = (V'.ent st.ncurrentry).setRefs f
  count : (l ≠ [] → 120 * l.length < k) → st.refcount = k - 120 * l.length
  found : st.found = true ↔ found = true ∨ ∃ i, r ≤ i ∧ i < k ∧ V.fref (a :: l) i = ref
  kept : st.found = false → V' = V

namespace RemoveEnd

variable {V V' : Vol} {a : Nat} {l : List Nat} {ref k r : Nat} {found found' : Bool} {st : RemoveState}

/-- One reference more. -/
theorem step (h : RemoveEnd V a l ref k (r + 1) found' st V') (hrk : r < k)
    (hfound : found' = true ↔ found = true ∨ V.fref (a :: l) r = ref) : RemoveEnd V a l ref k r found st V' := by
  refine { h with found := ?_ }
  rw [h.found, hfound]
  constructor
  · rintro ((hf | href) | ⟨i, hi, hik, href⟩)
    · exact Or.inl hf
    · exact Or.inr ⟨r, Nat.le_refl r, hrk, href⟩
    · exact Or.inr ⟨i, by omega, hik, href⟩
  · rintro (hf | ⟨i, hi, hik, href⟩)
    · exact Or.inl (Or.inl hf)
    · rcases Nat.eq_or_lt_of_le hi with rfl | hlt
      · exact Or.inl (Or.inr href)
      · exact Or.inr ⟨i, hlt, hik, href⟩

/-- One entry more: its copy has been written. -/
theorem next {b : Nat} {e : SfsEntry} (hc : V.IsChain (a :: b :: l)) (hcopy : RemoveCopy (V.ent a) e found) (hk : 120 < k)
    (h : RemoveEnd (V.setEnt a e) b l ref (k - 120) 0 found st V') : RemoveEnd V a (b :: l) ref k 120 found st V' := by
  have ha : a ∉ b :: l := (List.nodup_cons.1 hc.nodup).1
  have hfref : ∀ i, (V.setEnt a e).fref (b :: l) i = V.fref (b :: l) i := by
    refine Vol.fref_congr fun n hn => ?_
    have hna : n ≠ a := fun hna => ha (hna ▸ hn)
    rw [Vol.ent_setEnt_ne _ _ hna]
  have hiff : (∃ i, 0 ≤ i ∧ i < k - 120 ∧ (V.setEnt a e).fref (b :: l) i = ref) ↔
      ∃ i, 120 ≤ i ∧ i < k ∧ V.fref (a :: b :: l) i = ref := by
    constructor
    · rintro ⟨i, -, hik, href⟩
      refine ⟨i + 120, by omega, by omega, ?_⟩
      rw [Vol.fref_cons, if_neg (by omega), Nat.add_sub_cancel, ← hfref i]
      exact href
    · rintro ⟨i, hi, hik, href⟩
      rw [Vol.fref_cons, if_neg (by omega)] at href
      exact ⟨i - 120, Nat.zero_le _, by omega, (hfref _).trans href⟩
  refine
    { same := (Vol.SameButRefs.setEnt (List.mem_cons_self) hcopy.refs).trans (h.same.cons a)
      last := List.mem_cons_of_mem a h.last
      copy := h.copy
      count := fun hlen => ?_
      found := by rw [h.found, hiff]
      kept := fun hfalse => ?_ }
  · have hlt := hlen (List.cons_ne_nil b l)
    rw [List.length_cons] at hlt ⊢
    rw [h.count fun _ => by omega]
    omega
  · have hnot : ¬found = true := fun hf => absurd (h.found.2 (Or.inl hf)) (by rw [hfalse]; exact Bool.false_ne_true)
    rw [h.kept hfalse, hcopy.same (Bool.eq_false_iff.2 hnot), Vol.setEnt_ent]

end RemoveEnd

/-- The loop of `remove_ref_in_entry` along a chain. -/
theorem removeRefLoop_run (hr : Ready env s d) {ref : Nat} :
    ∀ (fuel a : Nat) (l : List Nat) (V : Vol) (r k : Nat) (e nextentry : SfsEntry) (found : Bool), V.Geo → V.IsChain (a :: l) →
      (∀ i x, (a :: l)[i]? = some x → getEntryRefcount (V.ent x) = k - 120 * i) → k ≤ 120 * (l.length + 1) → r ≤ 120 →
      k - r < fuel → (r < 120 → nextentry.next = (V.ent a).next) → (r = 120 → ∀ b t, l = b :: t → nextentry.next = (V.ent b).next) →
      RemoveCopy (V.ent a) e found →
      ∃ st V', (removeRefLoop env d ref fuel r
          { currentry := e, ncurrentry := a, nextentry := nextentry, refcount := k, found := found }).run
            (s.withVol d V) = .ok st (s.withVol d V') ∧ RemoveEnd V a l ref k r found st V' := by
  intro fuel
  induction fuel with
  | zero => intro a l V r k e nextentry found _ _ _ _ _ h; omega
  | succ fuel ih =>
    intro a l V r k e nextentry found hg hc hcount hk hr120 hf hnx hnx' hcopy
    have hn := hg.nent_lt
    have ha : a < V.nent := hc.lt a List.mem_cons_self
    have hnext : (V.ent a).next.toNat = l.headD 0 := hc.linked.next_head
    rw [removeRefLoop]
    by_cases hrk : r < k
    · rw [if_pos hrk]
      by_cases h120 : r = sfsEntryRefs
      · -- on to the next entry of the chain, with its first reference
        have hr' : r = 120 := h120
        rw [hr'] at hrk
        cases l with
        | nil =>
          rw [List.length_nil] at hk
          omega
        | cons b l =>
          have hb : b ≠ a := fun hba => (List.nodup_cons.1 hc.nodup).1 (hba ▸ List.mem_cons_self)
          have hblt : b < V.nent := hc.lt b (List.mem_cons_of_mem a List.mem_cons_self)
          have henext : e.next.toNat = b := by
            obtain ⟨f, hef⟩ := hcopy.refs
            rw [hef]
            exact hnext
          obtain ⟨V₁, hV₁⟩ : ∃ V₁, V₁ = V.setEnt a e := ⟨_, rfl⟩
          have hsame : V.SameButRefs (a :: b :: l) V₁ := hV₁ ▸ Vol.SameButRefs.setEnt List.mem_cons_self hcopy.refs
          have hent : V₁.ent b = V.ent b := by rw [hV₁, Vol.ent_setEnt_ne _ _ hb]
          have hcount' : ∀ i x, (b :: l)[i]? = some x → getEntryRefcount (V₁.ent x) = k - 120 - 120 * i := by
            intro i x hx
            rw [(hsame.fields (List.mem_cons_of_mem a (List.mem_of_getElem? hx))).2.2.2, hcount (i + 1) x hx]
            omega
          have hcb : getEntryRefcount (V₁.ent b) = k - 120 := by rw [hcount' 0 b rfl, Nat.mul_zero, Nat.sub_zero]
          have hcopy' := (RemoveCopy.init (V₁.ent b) found).step ref 0 (nextentry.refAt ((0 + 1) % sfsEntryRefs))
          obtain ⟨st, V', hrun, hend⟩ := ih b l V₁ 1 (k - 120) _ nextentry _ (hsame.agree.geo hg) (hsame.isChain hc).tail hcount'
            (by rw [List.length_cons] at hk; omega) (by omega) (by omega) (fun _ => by rw [hent]; exact hnx' hr' b l rfl)
            (by omega) hcopy'
          have hfound := (RemoveCopy.init (V₁.ent b) found).found_iff ref 0
          have hend' : RemoveEnd V₁ b l ref (k - 120) 0 found st V' := hend.step (by omega) (by rw [Vol.fref_cons]; exact hfound)
          refine ⟨st, V', ?_, hr' ▸ RemoveEnd.next hc hcopy hrk (hV₁ ▸ hend')⟩
          rw [if_pos h120]
          simp only [henext]
          refine (Prog.bind_ok (writeEntry_run hr V (by omega) _)).trans ?_
          rw [← hV₁]
          refine (Prog.bind_ok (getEntryN_run hr V₁ (by omega))).trans ?_
          refine (Prog.bind_ok (Prog.run_pure _ _)).trans ?_
          rw [← hcb] at hrun
          exact hrun
      · have hlt : r < 120 := by
          have : r ≠ 120 := h120
          omega
        have hfound := hcopy.found_iff ref r
        have hnext' : nextentry.next.toNat = l.headD 0 := by rw [hnx hlt, hnext]
        -- the rest of the loop, whatever entry is looked at next
        have hrest : ∀ nx : SfsEntry, (r + 1 < 120 → nx.next = (V.ent a).next) →
            (r + 1 = 120 → ∀ b t, l = b :: t → nx.next = (V.ent b).next) →
            ∃ st V', (removeRefLoop env d ref fuel (r + 1)
              { currentry := if (found || e.refAt r == ref) = true then e.setRef r (nx.refAt ((r + 1) % sfsEntryRefs)) else e,
                ncurrentry := a, nextentry := nx, refcount := k, found := found || e.refAt r == ref }).run (s.withVol d V) =
                .ok st (s.withVol d V') ∧ RemoveEnd V a l ref k r found st V' := by
          intro nx h1 h2
          obtain ⟨st, V', hrun, hend⟩ := ih a l V (r + 1) k _ nx _ hg hc hcount hk (by omega) (by omega) h1 h2
            (hcopy.step ref r (nx.refAt ((r + 1) % sfsEntryRefs)))
          exact ⟨st, V', hrun, hend.step hrk (by rw [Vol.fref_cons, if_pos hlt]; exact hfound)⟩
        rw [if_neg h120]
        by_cases h119 : r + 1 = sfsEntryRefs
        · have hr1 : r + 1 = 120 := h119
          rw [if_pos h119]
          cases l with
          | nil =>
            rw [List.headD_nil] at hnext'
            obtain ⟨st, V', hrun, hend⟩ := hrest Block.zero (by omega) fun _ b t hbt => absurd hbt.symm (List.cons_ne_nil b t)
            refine ⟨st, V', ?_, hend⟩
            rw [if_neg (not_not.2 hnext')]
            exact (Prog.bind_ok (Prog.run_pure _ _)).trans hrun
          | cons b l =>
            rw [List.headD_cons] at hnext'
            have hb0 : b ≠ 0 := hc.linked.2.1
            have hblt : b < V.nent := hc.lt b (List.mem_cons_of_mem a List.mem_cons_self)
            obtain ⟨st, V', hrun, hend⟩ := hrest (V.ent b) (by omega) fun _ b' t hbt => by rw [(List.cons.inj hbt).1]
            refine ⟨st, V', ?_, hend⟩
            simp only [hnext']
            rw [if_pos hb0]
            refine (Prog.bind_ok (getEntryN_run hr V (by omega))).trans ?_
            exact (Prog.bind_ok (Prog.run_pure _ _)).trans hrun
        · have hr119 : r + 1 ≠ 120 := h119
          obtain ⟨st, V', hrun, hend⟩ := hrest nextentry (fun _ => hnx hlt) (by omega)
          refine ⟨st, V', ?_, hend⟩
          rw [if_neg h119]
          exact (Prog.bind_ok (Prog.run_pure _ _)).trans hrun
    · rw [if_neg hrk]
      refine ⟨_, V, rfl, Vol.SameButRefs.refl V _, List.mem_cons_self, ?_, fun hlen => ?_, ?_, fun _ => rfl⟩
      · exact hcopy.refs
      · by_cases hl : l = []
        · rw [hl]
          exact (Nat.sub_zero k).symm
        · have := hlen hl
          have := List.length_pos_iff.2 hl
          omega
      · exact ⟨Or.inl, fun h => h.resolve_right fun ⟨i, hi, hik, _⟩ => by omega⟩

/-- `remove_ref_in_entry` on a chain that does not have the reference changes nothing. -/
theorem removeRefInEntry_absent (hr : Ready env s d) {V : Vol} (hg : V.Geo) {ref a : Nat} {l : List Nat}
    (hc : V.IsChain (a :: l)) (habs : ∀ i < getEntryRefcount (V.ent a), V.fref (a :: l) i ≠ ref)
    (hcount : ∀ i x, (a :: l)[i]? = some x → getEntryRefcount (V.ent x) = getEntryRefcount (V.ent a) - 120 * i)
    (hk : getEntryRefcount (V.ent a) ≤ 120 * (l.length + 1)) (hsmall : getEntryRefcount (V.ent a) ≤ 8388608) :
    (removeRefInEntry env d a ref).run (s.withVol d V) = .ok () (s.withVol d V) := by
  have hn := hg.nent_lt
  have ha : a < V.nent := hc.lt a List.mem_cons_self
  have hfuel := hr.fuel
  obtain ⟨st, V', hrun, hend⟩ := removeRefLoop_run hr env.fuel a l V 0 _ (V.ent a) (V.ent a) false hg hc hcount hk (by omega)
    (by omega) (fun _ => rfl) (by omega) (RemoveCopy.init (V.ent a) false)
  have hst : st.found = false := by
    rw [Bool.eq_false_iff, ne_eq, hend.found]
    rintro (hf | ⟨i, -, hi, href⟩)
    · exact Bool.false_ne_true hf
    · exact habs i hi href
  obtain rfl : V' = V := hend.kept hst
  rw [removeRefInEntry, Prog.bind_ok (getEntryN_run hr V' (by omega)), Prog.bind_ok hrun]
  simp [hst]

end Run

end NanoS32
