import NanoS32.Inv.WellFormed
import NanoS32.Lemmas.Delete
import NanoS32.Theorems.Path

/-!
# Deletion

What `fs_delete` does to a well-formed disk whose directories need no chained entry. A path can also be resolved to a chained entry
of a file, and then only the rest of the chain is deleted.
-/

namespace NanoS32

open Prog

/-- The subtree of `n` has been zeroed and `n` taken out of the items of its parent, with nothing else changed from `V` to
`V'`. -/
structure Vol.Deleted (V V' : Vol) (C : Nat → List Nat) (n : Nat) : Prop where
  zero : ∀ m, V.Subtree C n m → V'.ent m = Block.zero
  listed : n ∈ (V.ent (V.par n)).items
  items : (V'.ent (V.par n)).items = (V.ent (V.par n)).items.erase n
  size : (V'.ent (V.par n)).size.toNat + 1 = (V.ent (V.par n)).size.toNat
  fields : (V'.ent (V.par n)).flags = (V.ent (V.par n)).flags ∧ (V'.ent (V.par n)).name = (V.ent (V.par n)).name ∧
    (V'.ent (V.par n)).time = (V.ent (V.par n)).time ∧ (V'.ent (V.par n)).parent = (V.ent (V.par n)).parent ∧
      (V'.ent (V.par n)).next = (V.ent (V.par n)).next
  rest : ∀ k, k ≠ 2 + V.par n → (∀ m, V.Subtree C n m → k ≠ 2 + m) → V' k = V k

/-- The item that is removed is the first one with its number. -/
theorem Block.items_removeItem_erase (e : SfsEntry) {n j : Nat} (hs : e.size.toNat ≤ 120) (hj : j < e.size.toNat)
    (hn : e.refAt j = n) (hfirst : ∀ i < j, e.refAt i ≠ n) : (e.removeItem j).items = e.items.erase n := by
  have hlen : e.items.length = e.size.toNat := by rw [Block.items, List.length_map, List.length_range]
  have hget : ∀ i (hi : i < e.items.length), e.items[i] = e.refAt i := by
    intro i hi
    simp only [Block.items, List.getElem_map, List.getElem_range]
  have hidx : e.items.idxOf n = j := by
    have hmem : n ∈ e.items := Block.mem_items.2 ⟨j, hj, hn⟩
    have hlt := List.idxOf_lt_length_of_mem hmem
    have hat : e.refAt (e.items.idxOf n) = n := (hget _ hlt).symm.trans (List.getElem_idxOf hlt)
    refine Nat.le_antisymm ?_ (Nat.le_of_not_lt fun h => hfirst _ h hat)
    by_contra h
    have hnot := List.not_of_lt_findIdx (p := (· == n)) (Nat.lt_of_not_le h)
    rw [hget, hn, beq_self_eq_true] at hnot
    cases hnot
  rw [Block.items_removeItem e hs hj, List.erase_eq_eraseIdx_of_idxOf hidx]

section Call

variable {env : Env} {s : Sys} {d : Nat} {V : Vol} {C : Nat → List Nat}

/-- `delete_n` on a head of the disk. -/
theorem deleteN_deleted (hr : Ready env s d) (hw : Vol.WellFormed (s.disk d) C)
    (hdirs : ∀ h, C h ≠ [] → (Vol.ent (s.disk d) h).flags = tDir → C h = [h]) {n : Nat} (hn : C n ≠ []) (hn0 : n ≠ 0) :
    ∃ V', (deleteN env env.fuel d n).run s = .ok () (s.withVol d V') ∧ Vol.Deleted (s.disk d) V' C n := by
  have hf := hw.format hdirs
  obtain ⟨j, hitem⟩ := hf.hasItem hn hn0 not_false
  have hnent := hw.geo.nent_lt
  have hsize : Vol.subtreeSize (s.disk d) C n ≤ env.fuel := by
    have hle := Vol.Format.subtreeSize_le (s.disk d) C n
    have hfuel := hr.fuel
    omega
  obtain ⟨V', hrun, hp⟩ := deleteN_head hr hf env.fuel n j (s.disk d) hn (hw.tree n hn) hn0 hsize rfl (fun _ _ => rfl)
    hitem
  rw [Sys.withVol_self] at hrun
  refine ⟨V', hrun, hp.zero, Block.mem_items.2 ⟨j, hitem.lt, hitem.ref⟩, ?_, ?_, ?_, hp.rest⟩
  · rw [hp.parent, Block.items_removeItem_erase _ hitem.small hitem.lt hitem.ref hitem.first]
  · have hlt := hitem.lt
    rw [hp.parent, Block.size_removeItem _ _ hitem.small]
    omega
  · have hnext : 0 = (Vol.ent (s.disk d) (Vol.par (s.disk d) n)).next := UInt32.toNat_inj.1 hitem.next.symm
    rw [hp.parent, Block.removeItem]
    exact ⟨rfl, rfl, rfl, rfl, hnext⟩

/-- The chain of a file from one of its entries on. -/
theorem Vol.FileChain.drop {ch : List Nat} {size : Nat} (h : V.FileChain ch size) : ∀ {k : Nat}, k < ch.length →
    V.FileChain (ch.drop k) (size - 61440 * k)
  | 0, _ => h
  | k + 1, hk => by
    have ih := h.drop (k := k) (by omega)
    obtain ⟨a, b, l, hl⟩ : ∃ a b l, ch.drop k = a :: b :: l :=
      ⟨_, _, _, by rw [List.drop_eq_getElem_cons (by omega), List.drop_eq_getElem_cons hk]⟩
    have htail : ch.drop (k + 1) = b :: l := by rw [← List.tail_drop, hl, List.tail_cons]
    have hsize : size - 61440 * (k + 1) = size - 61440 * k - 61440 := by omega
    rw [hl] at ih
    rw [htail, hsize]
    exact ih.tail

/-- `delete_n` on a chained entry leaves the entry before it as it is. -/
theorem deleteN_rest (hr : Ready env s d) (hw : Vol.WellFormed (s.disk d) C)
    (hdirs : ∀ h, C h ≠ [] → (Vol.ent (s.disk d) h).flags = tDir → C h = [h]) {h k n : Nat} (hn : (C h)[k + 1]? = some n) :
    ∃ V', (deleteN env env.fuel d n).run s = .ok () (s.withVol d V') ∧
      V'.ent (Vol.par (s.disk d) n) = Vol.ent (s.disk d) (Vol.par (s.disk d) n) := by
  have hh : C h ≠ [] := List.ne_nil_of_mem (List.mem_of_getElem? hn)
  obtain ⟨hlt, hget⟩ := List.getElem?_eq_some_iff.1 hn
  have hfile : (Vol.ent (s.disk d) h).flags = tFile := by
    refine (hw.kind h hh).resolve_left fun hdir => ?_
    rw [hdirs h hh hdir, List.length_singleton] at hlt
    omega
  have hfc := (fileChain (hw.format hdirs) hh hfile rfl fun _ _ => rfl).drop (k := k) (by omega)
  obtain ⟨a, hak⟩ : ∃ a, (C h)[k]? = some a := ⟨_, List.getElem?_eq_getElem (show k < (C h).length by omega)⟩
  obtain ⟨l, hl⟩ : ∃ l, (C h).drop k = a :: n :: l := by
    obtain ⟨hlt', hak'⟩ := List.getElem?_eq_some_iff.1 hak
    refine ⟨(C h).drop (k + 2), ?_⟩
    rw [List.drop_eq_getElem_cons hlt', hak', List.drop_eq_getElem_cons hlt, hget]
  rw [hl] at hfc
  have hpar := hw.par_chained hak hn
  have hnent := hw.geo.nent_lt
  have hnodup := hfc.chain.nodup
  have hsize := (Vol.Format.subtreeSize_le (s.disk d) C h)
  have hlen := (hw.format hdirs).length_le_subtreeSize hh
  have hdrop : ((C h).drop k).length = l.length + 2 := by rw [hl]; rfl
  rw [List.length_drop] at hdrop
  have hrun := deleteN_chained hr hw.geo l env.fuel a n _ hfc (by have := UInt32.toNat_lt (Vol.ent (s.disk d) h).size; omega)
    (by have := hr.fuel; omega)
  rw [Sys.withVol_self] at hrun
  refine ⟨_, hrun, ?_⟩
  rw [hpar, Vol.ent_updEnts, if_neg (List.nodup_cons.1 hnodup).1]

/-- The entry that a path is resolved to is part of a chain. -/
theorem mem_chain_of_get (hr : Ready env s d) (hw : Vol.WellFormed (s.disk d) C) {path : CStr} (hd : pathGetDisk env path = d)
    {n : Nat} {entry : SfsEntry} (hget : (fsGetEntry env path unknownValue unknownValue).run s = .ok (n, entry) s) :
    ∃ h, n ∈ C h := by
  obtain ⟨p, name, hlook⟩ := Vol.lookup_of_resolve (resolve_of_get hr hw.geo hd hget).1
  obtain ⟨hn, hmatch, -⟩ := Vol.lookup_eq_some.1 hlook
  rw [Block.matches, Bool.and_eq_true, Bool.and_eq_true] at hmatch
  exact hw.used n hn hmatch.1.1

/-- `fs_delete` deletes the subtree of the entry that the path is resolved to just when this entry is a head, which is not a chained
entry of a file. -/
theorem fs_delete_subtree (hr : Ready env s d) (hw : Vol.WellFormed (s.disk d) C)
    (hdirs : ∀ h, C h ≠ [] → (Vol.ent (s.disk d) h).flags = tDir → C h = [h]) {path : CStr}
    (hd : pathGetDisk env path = d) {n : Nat} {entry : SfsEntry} (hn0 : n ≠ 0)
    (hget : (fsGetEntry env path unknownValue unknownValue).run s = .ok (n, entry) s) :
    (∃ V', (fsDelete env path).run s = .ok noError (s.withVol d V') ∧ Vol.Deleted (s.disk d) V' C n) ↔ C n ≠ [] := by
  have hrun : ∀ {V' : Vol}, (deleteN env env.fuel d n).run s = .ok () (s.withVol d V') →
      (fsDelete env path).run s = .ok noError (s.withVol d V') := by
    intro V' h
    rw [fsDelete, hd, bind_ok hget, bind_ok h, run_pure]
  constructor
  · rintro ⟨V', hok, hdel⟩ hempty
    obtain ⟨h, hmem⟩ := mem_chain_of_get hr hw hd hget
    obtain ⟨k, hk⟩ := List.mem_iff_getElem?.1 hmem
    cases k with
    | zero =>
      have hh : C h ≠ [] := List.ne_nil_of_mem hmem
      obtain rfl := Option.some.inj ((hw.place_head hh).symm.trans hk)
      exact hh hempty
    | succ k =>
      obtain ⟨V'', hrun', hsame⟩ := deleteN_rest hr hw hdirs hk
      have heq : V' = V'' := by
        have hsys : s.withVol d V' = s.withVol d V'' := by
          have h := hok.symm.trans (hrun hrun')
          injection h
        rw [← Sys.withVol_disk s d V', hsys, Sys.withVol_disk]
      have hsize := hdel.size
      rw [heq, hsame] at hsize
      omega
  · intro hn
    obtain ⟨V', h, hdel⟩ := deleteN_deleted hr hw hdirs hn hn0
    exact ⟨V', hrun h, hdel⟩

end Call

theorem fs_delete_subtree_sample :
    (∃ V', (fsDelete sampleEnv [102]).run sampleSys = .ok noError (sampleSys.withVol 2 V') ∧
      Vol.Deleted (sampleSys.disk 2) V' (Vol.flatChains (sampleSys.disk 2)) 1) ↔
        Vol.flatChains (sampleSys.disk 2) 1 ≠ [] := by
  have hdisk : pathGetDisk sampleEnv [102] = 2 := by decide +kernel
  have hget : (fsGetEntry sampleEnv [102] unknownValue unknownValue).run sampleSys =
      .ok (1, Vol.ent (sampleSys.disk 2) 1) sampleSys := by
    have hres : Vol.resolve (sampleSys.disk 2) sampleEnv [102] = some 1 := by decide +kernel
    have hrun := fsGetEntry_run sampleSys_ready sampleSys_wellFormed.geo hdisk
    rwa [Sys.withVol_self, hres] at hrun
  refine fs_delete_subtree sampleSys_ready sampleSys_wellFormed (fun h hh _ => ?_) hdisk one_ne_zero hget
  unfold Vol.flatChains at hh ⊢
  split_ifs at hh ⊢ with hu
  · rfl
  · exact absurd rfl hh

/-! ## A file with a chained entry -/

/-- The small system disk with a file `f` of one byte, at offset 61440. -/
def longSys : Sys := ((fsWriteFile smallEnv [1] [102] 61440 wfCreate).run smallSys).after

/-- Its chains: the root directory and the two entries of the file. -/
def longChains : Nat → List Nat
  | 0 => [0]
  | 1 => [1, 2]
  | _ => []

theorem longSys_ready : Ready sampleEnv longSys 2 :=
  ⟨by decide, by decide, List.isEmpty_iff.1 (by decide +kernel), Nat.le_refl _⟩

theorem longChains_cases {h : Nat} (hh : longChains h ≠ []) : h = 0 ∨ h = 1 := by
  match h with
  | 0 => exact Or.inl rfl
  | 1 => exact Or.inr rfl
  | _ + 2 => exact absurd rfl hh

theorem mem_longChains {h n : Nat} (hn : n ∈ longChains h) : (h = 0 ∧ n = 0) ∨ (h = 1 ∧ (n = 1 ∨ n = 2)) := by
  rcases longChains_cases (List.ne_nil_of_mem hn) with rfl | rfl <;> simpa [longChains] using hn

theorem longSys_wellFormed : Vol.WellFormed (longSys.disk 2) longChains := by
  obtain ⟨V, hV⟩ : ∃ V : Vol, V = longSys.disk 2 := ⟨_, rfl⟩
  have hnent : V.nent = 5 := by rw [hV]; decide +kernel
  have hflags : (V.ent 0).flags = tDir ∧ (V.ent 1).flags = tFile ∧ (V.ent 2).flags = tFile := by rw [hV]; decide +kernel
  have hnames : (V.ent 0).nameStr = [46] ∧ (V.ent 1).nameStr = [102] ∧ (V.ent 2).nameStr = [102] := by
    rw [hV]
    decide +kernel
  have hlinks : V.next 0 = 0 ∧ V.par 0 = 0 ∧ V.next 1 = 2 ∧ V.par 1 = 0 ∧ V.next 2 = 0 ∧ V.par 2 = 1 := by
    rw [hV]
    decide +kernel
  have hsizes : (V.ent 0).size.toNat = 1 ∧ (V.ent 1).size.toNat = 61441 ∧ (V.ent 2).size.toNat = 1 := by
    rw [hV]
    decide +kernel
  have hfree : ∀ n < 5, (V.ent n).used = true → n = 0 ∨ n = 1 ∨ n = 2 := by rw [hV]; decide +kernel
  have hrefs : ∀ i < 240, V.fref [1, 2] i = 0 ∨ (V.firstData ≤ V.fref [1, 2] i ∧ V.fref [1, 2] i < V.dataEnd) := by
    rw [hV]
    decide +kernel
  have hitems : V.dirItems [0] 1 = [1] := by rw [hV]; decide +kernel
  have hgeo : V.Geo := by rw [hV]; exact ⟨by decide +kernel, by decide +kernel, by decide +kernel⟩
  rw [← hV]
  obtain ⟨hf0, hf1, hf2⟩ := hflags
  obtain ⟨hn0, hn1, hn2⟩ := hnames
  obtain ⟨hnext0, hpar0, hnext1, hpar1, hnext2, hpar2⟩ := hlinks
  obtain ⟨hs0, hs1, hs2⟩ := hsizes
  have hfile : ¬(V.ent 1).flags = tDir := fun h => Vol.Format.tDir_ne_tFile (h.symm.trans hf1)
  have hcap : (V.ent 0).capacity = 120 ∧ (V.ent 1).capacity = 61440 :=
    ⟨if_neg fun h => Vol.Format.tDir_ne_tFile (hf0.symm.trans h), if_pos hf1⟩
  have hlisted : ∀ m, m ∈ V.dirItems (longChains 0) (V.ent 0).size.toNat ↔ m = 1 := by
    intro m
    rw [hs0, longChains, hitems, List.mem_singleton]
  refine
    { geo := hgeo
      head := ?_
      chain := ?_
      disjoint := ?_
      used := ?_
      flags := ?_
      names := ?_
      kind := ?_
      sizes := ?_
      fits := ?_
      refs := ?_
      root := ⟨List.cons_ne_nil _ _, hf0, hpar0, hn0⟩
      parent := ?_
      tree := ?_
      name := ?_
      unique := ?_
      nodup := ?_
      items := ?_ }
  · intro h hh
    rcases longChains_cases hh with rfl | rfl <;> rfl
  · intro h hh
    rcases longChains_cases hh with rfl | rfl
    · exact ⟨hnext0, by decide, by simp [longChains, hnent]⟩
    · exact ⟨⟨hnext1, two_ne_zero, hpar2, hnext2⟩, by decide, by simp [longChains, hnent]⟩
  · intro h h' n hn hn'
    rcases mem_longChains hn with ⟨rfl, rfl⟩ | ⟨rfl, rfl | rfl⟩ <;>
      rcases mem_longChains hn' with ⟨rfl, h⟩ | ⟨rfl, h | h⟩ <;> first | rfl | cases h
  · intro n hn hu
    rcases hfree n (hnent ▸ hn) hu with rfl | rfl | rfl
    · exact ⟨0, by decide⟩
    · exact ⟨1, by decide⟩
    · exact ⟨1, by decide⟩
  · intro h n hn
    rcases mem_longChains hn with ⟨rfl, rfl⟩ | ⟨rfl, rfl | rfl⟩
    · rfl
    · rfl
    · exact hf2.trans hf1.symm
  · intro h n hn
    rcases mem_longChains hn with ⟨rfl, rfl⟩ | ⟨rfl, rfl | rfl⟩
    · rfl
    · rfl
    · exact hn2.trans hn1.symm
  · intro h hh
    rcases longChains_cases hh with rfl | rfl
    · exact Or.inl hf0
    · exact Or.inr hf1
  · intro h k n hn
    rcases longChains_cases (List.ne_nil_of_mem (List.mem_of_getElem? hn)) with rfl | rfl
    · match k with
      | 0 => cases hn; rfl
      | _ + 1 => cases hn
    · match k with
      | 0 => cases hn; rfl
      | 1 => cases hn; rw [hs1, hs2, hcap.2]
      | _ + 2 => cases hn
  · intro h hh
    rcases longChains_cases hh with rfl | rfl
    · rw [hs0, hcap.1]
      decide
    · rw [hs1, hcap.2]
      decide
  · intro h hh hk i
    rcases longChains_cases hh with rfl | rfl
    · exact absurd (hf0.symm.trans hk) Vol.Format.tDir_ne_tFile
    · by_cases hi : i < 240
      · exact hrefs i hi
      · exact Or.inl (V.fref_of_le (by simp only [longChains, List.length_cons, List.length_nil]; omega))
  · intro h hh
    rcases longChains_cases hh with rfl | rfl
    · rw [hpar0]
      exact ⟨hh, hf0⟩
    · rw [hpar1]
      exact ⟨List.cons_ne_nil _ _, hf0⟩
  · intro h hh
    rcases longChains_cases hh with rfl | rfl
    · exact ⟨0, rfl⟩
    · exact ⟨1, hpar1⟩
  · intro h hh
    rcases longChains_cases hh with rfl | rfl
    · rw [hn0]
      decide
    · rw [hn1]
      decide
  · intro h h' hh hh' _ hname
    rcases longChains_cases hh with rfl | rfl <;> rcases longChains_cases hh' with rfl | rfl
    · rfl
    · exact absurd (hn0.symm.trans (hname.trans hn1)) (by decide)
    · exact absurd (hn1.symm.trans (hname.trans hn0)) (by decide)
    · rfl
  · intro h hh hk
    rcases longChains_cases hh with rfl | rfl
    · rw [hs0, longChains, hitems]
      exact List.nodup_singleton 1
    · exact absurd hk hfile
  · intro h hh hk m
    rcases longChains_cases hh with rfl | rfl
    · rw [hlisted]
      constructor
      · rintro rfl
        exact ⟨List.cons_ne_nil _ _, one_ne_zero, hpar1⟩
      · rintro ⟨hm, hm0, -⟩
        exact (longChains_cases hm).resolve_left hm0
    · exact absurd hk hfile

/-- The path `f/f` is resolved to the chained entry, and its deletion takes nothing out of a list of items. -/
theorem fs_delete_chained : Ready sampleEnv longSys 2 ∧ Vol.WellFormed (longSys.disk 2) longChains ∧
    (∀ h, longChains h ≠ [] → (Vol.ent (longSys.disk 2) h).flags = tDir → longChains h = [h]) ∧
      pathGetDisk sampleEnv [102, 47, 102] = 2 ∧
        (∃ entry, (fsGetEntry sampleEnv [102, 47, 102] unknownValue unknownValue).run longSys = .ok (2, entry) longSys) ∧
          ¬∃ V', (fsDelete sampleEnv [102, 47, 102]).run longSys = .ok noError (longSys.withVol 2 V') ∧
            Vol.Deleted (longSys.disk 2) V' longChains 2 := by
  have hres : Vol.resolve (longSys.disk 2) sampleEnv [102, 47, 102] = some 2 := by decide +kernel
  have hdisk : pathGetDisk sampleEnv [102, 47, 102] = 2 := by decide +kernel
  have hget := fsGetEntry_run longSys_ready longSys_wellFormed.geo hdisk
  rw [Sys.withVol_self, hres] at hget
  refine ⟨longSys_ready, longSys_wellFormed, fun h hh hk => ?_, hdisk, ⟨_, hget⟩, ?_⟩
  · rcases longChains_cases hh with rfl | rfl
    · rfl
    · have hfile : (Vol.ent (longSys.disk 2) 1).flags = tFile := by decide +kernel
      exact absurd (hk.symm.trans hfile) Vol.Format.tDir_ne_tFile
  · rintro ⟨V', hok, hdel⟩
    have hpar : Vol.par (longSys.disk 2) 2 = 1 := by decide +kernel
    have hbefore : (Vol.ent (longSys.disk 2) 1).size.toNat = 61441 := by decide +kernel
    have hafter : (Vol.ent (((fsDelete sampleEnv [102, 47, 102]).run longSys).after.disk 2) 1).size.toNat = 61441 := by
      decide +kernel
    have hsize := hdel.size
    rw [hok, Outcome.after, Sys.withVol_disk] at hafter
    rw [hpar, hbefore, hafter] at hsize
    cases hsize

end NanoS32
