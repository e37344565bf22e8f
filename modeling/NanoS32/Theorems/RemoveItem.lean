import NanoS32.Theorems.Chains

/-!
# Removing an item

What `remove_ref_in_entry` does on the chain of a directory. Its loop goes through all entries of the chain and moves the items up;
but then it takes the count that is left in the last entry for that of the directory.
-/

namespace NanoS32

/-- The items of the directory with chain `ch`. -/
def Vol.chainItems (V : Vol) (ch : List Nat) : List Nat := V.dirItems ch (V.ent (ch.headD 0)).size.toNat

/-- The entries `ch` are the chain of a directory. -/
structure Vol.DirChained (V : Vol) (ch : List Nat) : Prop extends V.WellChained ch where
  dir : (V.ent (ch.headD 0)).flags = tDir

/-- The item `ref` has been removed from the directory with chain `ch`: it is a directory with one item less, and the others are in
the order they had. -/
structure Vol.ItemRemoved (V : Vol) (ch : List Nat) (ref : Nat) (ch' : List Nat) (V' : Vol) : Prop where
  head : ch'.head? = ch.head?
  chained : V'.DirChained ch'
  size : (V'.ent (ch'.headD 0)).size.toNat + 1 = (V.ent (ch.headD 0)).size.toNat
  items : V'.chainItems ch' = (V.chainItems ch).erase ref
  others : V.AgreeOff ch V'

/-- `remove_ref_in_entry` removes an item, and changes nothing for what is no item. -/
def RemovesItem (env : Env) (s : Sys) (d : Nat) (V : Vol) (ch : List Nat) (ref : Nat) : Prop :=
  (ref ∈ V.chainItems ch → ∃ V' ch', (removeRefInEntry env d (ch.headD 0) ref).run (s.withVol d V) = .ok () (s.withVol d V') ∧
    V.ItemRemoved ch ref ch' V') ∧
  (ref ∉ V.chainItems ch → (removeRefInEntry env d (ch.headD 0) ref).run (s.withVol d V) = .ok () (s.withVol d V))

namespace Vol.DirChained

variable {V : Vol} {ch : List Nat}

theorem kinds (hw : V.DirChained ch) : ∀ n ∈ ch, (V.ent n).isDir = true ∧ (V.ent n).isFile = false :=
  fun n hn => Block.isDir_of_flags ((hw.flags n hn).trans hw.dir)

/-- The count of references of an entry of a directory is its size. -/
theorem count (hw : V.DirChained ch) {n : Nat} (hn : n ∈ ch) : getEntryRefcount (V.ent n) = (V.ent n).size.toNat := by
  obtain ⟨hdir, hfile⟩ := hw.kinds n hn
  rw [getEntryRefcount, hfile, hdir, if_neg Bool.false_ne_true, if_pos rfl]

theorem head_mem (hw : V.DirChained ch) : ch.headD 0 ∈ ch := by
  obtain ⟨l, hl⟩ := hw.cons
  rw [hl]
  exact List.mem_cons_self

theorem refcount_eq (hw : V.DirChained ch) : V.refcount ch = (V.ent (ch.headD 0)).size.toNat := hw.count hw.head_mem

/-- The counts along the chain of a directory. -/
theorem counts (hw : V.DirChained ch) (i n : Nat) (hn : ch[i]? = some n) :
    getEntryRefcount (V.ent n) = V.refcount ch - 120 * i := by
  have hcap : (V.ent (ch.headD 0)).capacity = 120 := if_neg fun h => Vol.Format.tDir_ne_tFile (hw.dir.symm.trans h)
  rw [hw.count (List.mem_of_getElem? hn), hw.sizes i n hn, hcap, hw.refcount_eq]

theorem mem_chainItems (hw : V.DirChained ch) {ref : Nat} :
    ref ∈ V.chainItems ch ↔ ∃ i < V.refcount ch, V.fref ch i = ref := by
  rw [hw.refcount_eq, Vol.chainItems, Vol.dirItems, List.mem_map]
  simp only [List.mem_range]

/-- A directory has no more items than its entries have references. -/
theorem refcount_le (hw : V.DirChained ch) : V.refcount ch ≤ 120 * ch.length ∧ 120 * ch.length < 8388608 := by
  have hlen := hw.length
  have hnent := hw.chain.length_le
  have hsmall := hw.geo.small
  omega

end Vol.DirChained

section Run

variable {env : Env} {s : Sys} {d : Nat} {V : Vol} {ch : List Nat} {ref : Nat}

/-! ## No item -/

theorem removeRefInEntry_noItem (hr : Ready env s d) (hw : V.DirChained ch) (href : ref ∉ V.chainItems ch) :
    (removeRefInEntry env d (ch.headD 0) ref).run (s.withVol d V) = .ok () (s.withVol d V) := by
  rw [hw.mem_chainItems] at href
  obtain ⟨hle, hsmall⟩ := hw.refcount_le
  obtain ⟨a, l, rfl⟩ := List.exists_cons_of_ne_nil hw.chain.linked.ne_nil
  rw [List.length_cons] at hle hsmall
  exact removeRefInEntry_absent hr hw.geo hw.chain (fun i hi hi' => href ⟨i, hi, hi'⟩) hw.counts hle (Nat.le_of_lt (Nat.lt_of_le_of_lt hle hsmall))

/-! ## A directory of one entry -/

/-- A directory with at most 120 items is one entry. -/
theorem Vol.DirChained.single (hw : V.DirChained ch) (hsize : (V.ent (ch.headD 0)).size.toNat ≤ 120) : ch = [ch.headD 0] := by
  obtain ⟨l, hl⟩ := hw.cons
  have hlen := hw.length
  rw [hw.refcount_eq, hl, List.length_cons, ← hl] at hlen
  obtain rfl : l = [] := List.eq_nil_of_length_eq_zero (by omega)
  exact hl

/-- The directory after an item of its one entry has been removed. -/
theorem Vol.DirChained.removeItem {h : Nat} (hw : V.DirChained [h]) (hsize : (V.ent h).size.toNat ≤ 120) {j : Nat}
    (hj : j < (V.ent h).size.toNat) : (V.setEnt h ((V.ent h).removeItem j)).DirChained [h] := by
  obtain ⟨V', hV'⟩ : ∃ V', V' = V.setEnt h ((V.ent h).removeItem j) := ⟨_, rfl⟩
  rw [← hV']
  have hent : V'.ent h = (V.ent h).removeItem j := by rw [hV', Vol.ent_setEnt_self]
  have hflags : (V'.ent h).flags = tDir := by
    rw [hent]
    exact hw.dir
  have hnext : ((V.ent h).removeItem j).next = (V.ent h).next := by
    apply UInt32.toNat_inj.1
    rw [Block.removeItem, (Block.setSize_fields _ _).2.2.2.2.2.2.2.2.1, Block.toNat_setNext _ (by omega)]
    exact hw.chain.linked.symm
  have hchain : V'.IsChain [h] := hV' ▸ hw.chain.setEnt_single hnext
  have hcount : V'.refcount [h] = (V.ent h).size.toNat - 1 := by
    obtain ⟨hdir, hfile⟩ := Block.isDir_of_flags hflags
    rw [Vol.refcount, List.headD_cons, getEntryRefcount, hfile, hdir, if_neg Bool.false_ne_true, if_pos rfl, hent,
      Block.size_removeItem _ _ hsize]
  refine
    { geo := hV' ▸ hw.geo.setEnt _ _
      root := ?_
      chain := hchain
      kind := Or.inl hflags
      flags := fun n hn => by rw [List.mem_singleton.1 hn]; rfl
      sizes := fun k n hn => ?_
      length := ?_
      unused := Vol.unused_of_lt fun i hlt hi => ?_
      dir := hflags }
  · rw [hV', Vol.ent_setEnt]
    split_ifs with h0
    · exact Block.used_of_isDir (Block.isDir_of_flags hw.dir).1
    · exact hw.root
  · cases k with
    | zero =>
      cases hn
      rfl
    | succ k => cases hn
  · rw [hcount, List.length_singleton]
    omega
  · have href := V'.fref_of_get (show [h][0]? = some h from rfl) i hlt
    rw [Nat.mul_zero, Nat.zero_add] at href
    rw [href, hent, Block.refAt_removeItem _ hsize, if_neg (by omega)]

theorem removeRefInEntry_item (hr : Ready env s d) (hw : V.DirChained ch) (hsize : (V.ent (ch.headD 0)).size.toNat ≤ 120)
    (href : ref ∈ V.chainItems ch) :
    ∃ V' ch', (removeRefInEntry env d (ch.headD 0) ref).run (s.withVol d V) = .ok () (s.withVol d V') ∧
      V.ItemRemoved ch ref ch' V' := by
  obtain ⟨h, hch⟩ : ∃ h, ch = [h] := ⟨_, hw.single hsize⟩
  subst hch
  rw [List.headD_cons] at hsize ⊢
  have hitems : V.chainItems [h] = (V.ent h).items := Vol.WellFormed.dirItems_single h _ hsize
  obtain ⟨j, hj⟩ : ∃ j, j = (V.ent h).items.idxOf ref := ⟨_, rfl⟩
  rw [hitems] at href
  have hlength : (V.ent h).items.length = (V.ent h).size.toNat := by rw [Block.items, List.length_map, List.length_range]
  have hlt : j < (V.ent h).items.length := hj ▸ List.idxOf_lt_length_iff.2 href
  have hjs : j < (V.ent h).size.toNat := hlength ▸ hlt
  have hget : ∀ i (hi : i < (V.ent h).items.length), (V.ent h).items[i] = (V.ent h).refAt i := by
    intro i hi
    simp only [Block.items, List.getElem_map, List.getElem_range]
  have hfound : (V.ent h).refAt j = ref := by
    rw [← hget j hlt]
    subst hj
    exact List.getElem_idxOf hlt
  have hfirst : ∀ i < j, (V.ent h).refAt i ≠ ref := by
    intro i hi
    rw [← hget i (by omega)]
    rw [hj, List.idxOf] at hi
    exact ne_of_beq_false (List.not_of_lt_findIdx hi)
  have hrun := removeRefInEntry_run hr hw.geo hw.chain hw.dir hsize hjs hfound hfirst
  have hw' := hw.removeItem hsize hjs
  have hent : (V.setEnt h ((V.ent h).removeItem j)).ent h = (V.ent h).removeItem j := Vol.ent_setEnt_self _ _ _
  refine ⟨_, [h], hrun, rfl, hw', ?_, ?_, V.agreeOff_setEnt h _⟩
  · rw [List.headD_cons, hent, Block.size_removeItem _ _ hsize]
    omega
  · rw [hitems, Vol.chainItems, List.headD_cons, hent,
      Vol.WellFormed.dirItems_single h _ (by rw [Block.size_removeItem _ _ hsize]; omega), hent, ← Block.items,
      Block.items_removeItem _ hsize hjs, hj, List.eraseIdx_idxOf_eq_erase]

/-! ## A directory of more entries -/

/-- After an item has been removed from a directory of more than 120, the size of the directory is the number of items that is left in
its last entry. -/
theorem removeRefInEntry_crowded (hr : Ready env s d) (hw : V.DirChained ch) (hsize : 120 < (V.ent (ch.headD 0)).size.toNat)
    (href : ref ∈ V.chainItems ch) :
    ∃ V', (removeRefInEntry env d (ch.headD 0) ref).run (s.withVol d V) = .ok () (s.withVol d V') ∧
      (V'.ent (ch.headD 0)).size.toNat < 120 := by
  obtain ⟨hle, hsmall⟩ := hw.refcount_le
  have hfuel := hr.fuel
  have hn := hw.geo.nent_lt
  have hlen := hw.length
  have hcount := hw.counts
  have hrc := hw.refcount_eq
  obtain ⟨i, hi, hfref⟩ := hw.mem_chainItems.1 href
  obtain ⟨a, l, rfl⟩ := List.exists_cons_of_ne_nil hw.chain.linked.ne_nil
  have hdir := (hw.kinds a List.mem_cons_self).1
  have ha : a < V.nent := hw.chain.lt a List.mem_cons_self
  rw [List.headD_cons] at hsize hrc ⊢
  rw [List.length_cons] at hle hsmall hlen
  -- the loop goes to the end of the chain
  obtain ⟨st, V₁, hrun, hend⟩ := removeRefLoop_run hr env.fuel a l V 0 (V.refcount (a :: l)) (V.ent a) (V.ent a) false hw.geo hw.chain
    hcount hle (by omega) (by omega) (fun _ => rfl) (by omega) (RemoveCopy.init (V.ent a) false)
  have hfound : st.found = true := hend.found.2 (Or.inr ⟨i, Nat.zero_le i, hi, hfref⟩)
  have hlast : st.refcount = V.refcount (a :: l) - 120 * l.length := hend.count fun _ => by omega
  obtain ⟨m, hm⟩ : ∃ m, m = st.refcount - 1 := ⟨_, rfl⟩
  have hm119 : m ≤ 119 := by omega
  have hsub : sub32 st.refcount 1 = m := by
    simp only [sub32, wrap32]
    omega
  -- the last copy is written
  obtain ⟨V₂, hV₂⟩ : ∃ V₂, V₂ = V₁.setEnt st.ncurrentry st.currentry := ⟨_, rfl⟩
  have hsame : V.SameButRefs (a :: l) V₂ := hend.same.trans (hV₂ ▸ Vol.SameButRefs.setEnt hend.last hend.copy)
  have hg₁ : V₁.Geo := hend.same.agree.geo hw.geo
  have hg₂ : V₂.Geo := hsame.agree.geo hw.geo
  have hc₂ : V₂.IsChain ([] ++ a :: l) := hsame.isChain hw.chain
  have hlastlt : st.ncurrentry < V.nent := hw.chain.lt _ hend.last
  -- the head is cut to the references of the last entry
  obtain ⟨V₃, hV₃⟩ : ∃ V₃, V₃ = V₂.cutChain a (min 119 m) l := ⟨_, rfl⟩
  have hcut : (setEntryRefcount env d a m).run (s.withVol d V₂) = .ok () (s.withVol d V₃) := by
    rw [hV₃]
    refine setEntryRefcount_cutChain hr hg₂ hc₂ rfl ?_
    rw [neededEntries_eq, List.length_nil]
    omega
  have hre : V₂.Rechain (a :: l) (120 * 0 + min 119 m) [a] V₃ := hV₃ ▸ Vol.rechain_cut hc₂ (by omega)
  have hdir₃ : (V₃.ent a).flags = tDir := by
    rw [(hre.kept a List.mem_cons_self List.mem_cons_self).1, (hsame.fields List.mem_cons_self).1]
    exact hw.dir
  have hset := setEntrySize_dir hr (hre.agree.geo hg₂) hre.chain hdir₃ (show m ≤ 120 by omega)
  refine ⟨V₃.setEnt a ((V₃.ent a).setSize m), ?_, ?_⟩
  · have hhead : getEntryRefcount (V.ent a) = V.refcount (a :: l) := rfl
    rw [removeRefInEntry, Prog.bind_ok (getEntryN_run hr V (by omega)), hhead, Prog.bind_ok hrun]
    simp only [hfound, if_true, hsub]
    rw [Prog.bind_ok (writeEntry_run hr V₁ (by omega) _), ← hV₂, Prog.bind_ok hcut, if_pos hdir, hset]
  · rw [Vol.ent_setEnt_self, Block.toNat_setSize _ (by omega)]
    omega

/-- So the item has not been removed as it should be. -/
theorem removeRefInEntry_not_removed (hr : Ready env s d) (hw : V.DirChained ch) (hsize : 120 < (V.ent (ch.headD 0)).size.toNat)
    (href : ref ∈ V.chainItems ch) : ¬RemovesItem env s d V ch ref := by
  intro h
  obtain ⟨V', ch', hrun, hremoved⟩ := h.1 href
  obtain ⟨W, hrun', hless⟩ := removeRefInEntry_crowded hr hw hsize href
  obtain rfl : W = V' := by
    rw [hrun'] at hrun
    exact Sys.withVol_inj (Prog.Outcome.ok.inj hrun).2
  have hhead : ch'.headD 0 = ch.headD 0 := by rw [List.headD_eq_head?_getD, hremoved.head, ← List.headD_eq_head?_getD]
  have hkept := hremoved.size
  rw [hhead] at hkept
  omega

/-- On the chain of a directory, `remove_ref_in_entry` removes an item that is there, and changes nothing for one that is not, just
when a directory that has the item has at most 120. -/
theorem remove_ref_in_entry_removes (hr : Ready env s d) (hw : V.DirChained ch) :
    RemovesItem env s d V ch ref ↔ (ref ∈ V.chainItems ch → (V.ent (ch.headD 0)).size.toNat ≤ 120) := by
  constructor
  · intro h href
    by_contra hsize
    exact removeRefInEntry_not_removed hr hw (Nat.lt_of_not_le hsize) href h
  · intro h
    exact ⟨fun href => removeRefInEntry_item hr hw (h href) href, removeRefInEntry_noItem hr hw⟩

end Run

/-! ## Two directories -/

theorem sampleSys_dirChained : Vol.DirChained (sampleSys.disk 2) [0] := by
  obtain ⟨V, hV⟩ : ∃ V : Vol, V = sampleSys.disk 2 := ⟨_, rfl⟩
  have hw : V.WellFormed V.flatChains := hV ▸ sampleSys_wellFormed
  have hzero : V.flatChains 0 = [0] := if_pos (by rw [hV]; decide +kernel)
  have hcount : getEntryRefcount (V.ent 0) = 1 := by rw [hV]; decide +kernel
  have hrefs : ∀ i < 120, 1 ≤ i → V.fref [0] i = 0 := by rw [hV]; decide +kernel
  have hdir : (V.ent 0).flags = tDir := by rw [hV]; decide +kernel
  rw [← hV]
  refine ⟨?_, hdir⟩
  rw [← hzero]
  refine hw.wellChained (by rw [hzero]; exact List.cons_ne_nil _ _) (by rw [hzero, hcount]; rfl) ?_
  rw [hzero, hcount]
  exact Vol.unused_of_lt hrefs

theorem remove_ref_in_entry_removes_sample : RemovesItem sampleEnv sampleSys 2 (sampleSys.disk 2) [0] 1 ↔
    (1 ∈ Vol.chainItems (sampleSys.disk 2) [0] → (Vol.ent (sampleSys.disk 2) 0).size.toNat ≤ 120) :=
  remove_ref_in_entry_removes sampleSys_ready sampleSys_dirChained

/-- A disk whose root directory has 121 files, in the entries 2 to 122. The last of them is referenced by the second entry of the
directory, which is entry 1. -/
def crowdedVol : Vol := fun n =>
  if n = 1 then Block.ofSuper { type := sfsTypeId, size := 1300, nentries := 125, bootstart := 127 }
  else if n = 2 then ((formatRoot.setRefs fun k => UInt32.ofNat (k.val + 2)).setSize 121).setNext 1
  else if n = 3 then (formatRoot.setRef 0 122).setSize 1
  else if 3 < n ∧ n < 125 then { Block.zero with flags := tFile }.setName [97 + UInt8.ofNat (n / 26), 97 + UInt8.ofNat (n % 26)]
  else Block.zero

theorem crowdedVol_dirChained : crowdedVol.DirChained [0, 1] := by
  obtain ⟨V, hV⟩ : ∃ V : Vol, V = crowdedVol := ⟨_, rfl⟩
  have hflags : (V.ent 0).flags = tDir ∧ (V.ent 1).flags = tDir := by rw [hV]; decide +kernel
  have hsizes : (V.ent 0).size.toNat = 121 ∧ (V.ent 1).size.toNat = 1 := by rw [hV]; decide +kernel
  have hlinks : V.next 0 = 1 ∧ V.next 1 = 0 ∧ V.par 1 = 0 := by rw [hV]; decide +kernel
  have hnent : V.nent = 125 := by rw [hV]; decide +kernel
  have hcount : getEntryRefcount (V.ent 0) = 121 := by rw [hV]; decide +kernel
  have hrefs : ∀ i < 240, 121 ≤ i → V.fref [0, 1] i = 0 := by rw [hV]; decide +kernel
  have hgeo : V.Geo := by rw [hV]; exact ⟨by decide +kernel, by decide +kernel, by decide +kernel⟩
  rw [← hV]
  obtain ⟨hf0, hf1⟩ := hflags
  obtain ⟨hs0, hs1⟩ := hsizes
  obtain ⟨hnext0, hnext1, hpar1⟩ := hlinks
  have hcap : (V.ent 0).capacity = 120 := if_neg fun h => Vol.Format.tDir_ne_tFile (hf0.symm.trans h)
  refine
    { geo := hgeo
      root := Block.used_of_isDir (Block.isDir_of_flags hf0).1
      chain := ⟨⟨hnext0, one_ne_zero, hpar1, hnext1⟩, by decide, by simp [hnent]⟩
      kind := Or.inl hf0
      flags := fun n hn => ?_
      sizes := fun k n hn => ?_
      length := ?_
      unused := ?_
      dir := hf0 }
  · rcases List.mem_cons.1 hn with rfl | hn
    · rfl
    · rw [List.mem_singleton.1 hn]
      exact hf1.trans hf0.symm
  · match k with
    | 0 =>
      cases hn
      rfl
    | 1 =>
      cases hn
      rw [List.headD_cons, hs0, hs1, hcap]
    | _ + 2 => cases hn
  · rw [Vol.refcount, List.headD_cons, hcount]
    rfl
  · rw [Vol.refcount, List.headD_cons, hcount]
    exact Vol.unused_of_lt hrefs

theorem smallSys_ready : Ready sampleEnv smallSys 2 :=
  ⟨by decide, by decide, List.isEmpty_iff.1 (by decide +kernel), Nat.le_refl _⟩

/-- The directory of 121 files loses its other items with the one that is removed. -/
theorem remove_ref_in_entry_crowded : Ready sampleEnv smallSys 2 ∧ crowdedVol.DirChained [0, 1] ∧
    5 ∈ crowdedVol.chainItems [0, 1] ∧ ¬RemovesItem sampleEnv smallSys 2 crowdedVol [0, 1] 5 := by
  have hitem : 5 ∈ crowdedVol.chainItems [0, 1] := by decide +kernel
  exact ⟨smallSys_ready, crowdedVol_dirChained, hitem,
    removeRefInEntry_not_removed smallSys_ready crowdedVol_dirChained (by decide +kernel) hitem⟩

end NanoS32
