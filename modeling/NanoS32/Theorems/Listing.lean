import NanoS32.Inv.Runs

/-!
# Listing

`fs_list` follows the references of a directory, and a search follows the parents and names of the table. They agree in every state of
a run that starts with a fresh disk and whose calls meet their conditions. A move of the root makes it an item of itself.
-/

namespace NanoS32

open Prog

/-- Listing and searching agree on the directory with entry `h`: `fs_list` counts the heads below it and gives each of them once. -/
def ListsHeads (env : Env) (d : Nat) (s : Sys) (path : CStr) (h : Nat) : Prop :=
  ∃ l : List Nat, l.Nodup ∧ (∀ m, m ∈ l ↔ Vol.IsHead (s.disk d) m ∧ m ≠ 0 ∧ Vol.par (s.disk d) m = h) ∧
    ∀ n, ∃ e, (fsList env path n).run s = .ok (l.length, e) s ∧ ∀ m, l[n]? = some m → e = Vol.ent (s.disk d) m

section List

variable {env : Env} {d : Nat} {s s' : Sys}

/-- `fs_list` on a directory of a disk with the format. -/
theorem fsList_run (hr : Ready env s d) {V : Vol} {C : Nat → List Nat} (hf : V.Format C fun _ => False) {path : CStr}
    (hd : pathGetDisk env path = d) {h : Nat} (hres : V.resolve env path = some h) (hdir : (V.ent h).isDir = true) (n : Nat) :
    ∃ e, (fsList env path n).run (s.withVol d V) = .ok ((V.ent h).items.length, e) (s.withVol d V) ∧
      ∀ m, (V.ent h).items[n]? = some m → e = V.ent m := by
  have hnent := hf.geo.nent_lt
  obtain ⟨q, name, hlook⟩ := Vol.lookup_of_resolve hres
  obtain ⟨hlt, hused, -⟩ := Vol.Format.lookup_spec hlook
  obtain ⟨hh, hflags⟩ := hf.dir_of_isDir hlt hused hdir
  obtain ⟨hsingle, hsmall⟩ := hf.single h hh hflags
  have hchain : V.IsChain [h] := hsingle ▸ hf.chain h hh
  have hlen : (V.ent h).items.length = (V.ent h).size.toNat := by rw [Block.items, List.length_map, List.length_range]
  have hget := fsGetEntry_run hr hf.geo hd
  rw [hres] at hget
  unfold fsList
  rw [bind_ok hget]
  dsimp only
  rw [run_failIf_bind, if_neg (not_not.2 hdir)]
  by_cases hn : n < (V.ent h).size.toNat
  · have hin : (V.ent h).refAt n ∈ (V.ent h).items := Block.mem_items.2 ⟨n, hn, rfl⟩
    have hitem := hf.head_lt ((hf.items h hh hflags _).1 hin).1
    have hnref := getNrefEntryFromEntry_run hr hf.geo hchain n
    rw [show n / 120 = 0 by omega] at hnref
    refine ⟨V.ent ((V.ent h).refAt n), ?_, fun m hm => ?_⟩
    · rw [if_pos hn, hd, bind_ok hnref]
      dsimp only
      rw [Block.refOrStray, if_pos (show n < sfsEntryRefs by simp only [sfsEntryRefs]; omega),
        bind_ok (getEntryN_run hr V (by omega)), run_pure, hlen]
    · rw [Block.items, List.getElem?_map, List.getElem?_range hn] at hm
      rw [Option.some.inj hm]
  · refine ⟨Block.zero, by rw [if_neg hn, run_pure, hlen], fun m hm => ?_⟩
    rw [List.getElem?_eq_none (by omega)] at hm
    cases hm

/-- On a disk with the format, listing and searching agree. -/
theorem Intact.listsHeads {K : Kept} (h : Intact K env d s) {path : CStr} (hd : pathGetDisk env path = d) {n : Nat} {entry : SfsEntry}
    (hget : (fsGetEntry env path unknownValue unknownValue).run s = .ok (n, entry) s) (hdir : entry.isDir = true) :
    ListsHeads env d s path n := by
  obtain ⟨hr, hdead | ⟨C, hf, -⟩⟩ := h
  · have hfails := fsGetEntry_dead hr.faults (hd.symm ▸ Intact.noEntries hr hdead)
    rw [hget] at hfails
    exact hfails.elim
  · obtain ⟨hres, rfl⟩ := resolve_of_get hr hf.geo hd hget
    obtain ⟨q, name, hlook⟩ := Vol.lookup_of_resolve hres
    obtain ⟨hlt, hused, -⟩ := Vol.Format.lookup_spec hlook
    obtain ⟨hh, hflags⟩ := hf.dir_of_isDir hlt hused hdir
    refine ⟨(Vol.ent (s.disk d) n).items, hf.nodup n hh hflags, fun m => ?_, fun i => ?_⟩
    · rw [hf.items n hh hflags m, hf.isHead_iff]
      exact ⟨fun h => ⟨h.1, h.2.1, h.2.2.1⟩, fun h => ⟨h.1, h.2.1, h.2.2, not_false⟩⟩
    · have hrun := fsList_run hr hf hd hres hdir i
      rw [Sys.withVol_self] at hrun
      exact hrun

/-- Listing and searching agree on every directory. -/
theorem fs_list_items (hfresh : Fresh env d s) (hrun : FsRun Kept.format env d s s') {path : CStr}
    (hd : pathGetDisk env path = d) {n : Nat} {entry : SfsEntry}
    (hget : (fsGetEntry env path unknownValue unknownValue).run s' = .ok (n, entry) s') (hdir : entry.isDir = true) :
    ListsHeads env d s' path n :=
  (hfresh.intact.run hrun).listsHeads hd hget hdir

end List

theorem fs_list_items_sample : ListsHeads sampleEnv 2 ((writeF.prog sampleEnv).run freshSys).after [104, 100, 48] 0 := by
  obtain ⟨s, hs⟩ : ∃ s, s = ((writeF.prog sampleEnv).run freshSys).after := ⟨_, rfl⟩
  have hr : Ready sampleEnv s 2 := hs ▸ (freshSys_fresh.intact.run (writeF_run Kept.format)).1
  have hget := fsGetEntry_run hr (V := s.disk 2) (hs ▸ ⟨by decide +kernel, by decide +kernel, by decide +kernel⟩)
    (show pathGetDisk sampleEnv [104, 100, 48] = 2 by decide +kernel)
  rw [Sys.withVol_self, show Vol.resolve (s.disk 2) sampleEnv [104, 100, 48] = some 0 by rw [hs]; decide +kernel, hs] at hget
  exact fs_list_items freshSys_fresh (writeF_run _) (by decide +kernel) hget (by decide +kernel)

/-- The call that moves the root to `z`, by the path of its entry. -/
def moveRoot : FsCall := .move [104, 100, 48, 47, 46] [104, 100, 48, 47, 122]

theorem fs_list_root_moved :
    ∃ s s', Fresh sampleEnv 2 s ∧ (moveRoot.prog sampleEnv).run s = .ok () s' ∧
      Vol.resolve (s'.disk 2) sampleEnv [104, 100, 48, 47, 122] = some 0 ∧
      ¬ListsHeads sampleEnv 2 s' [104, 100, 48, 47, 122] 0 := by
  obtain ⟨s, hs⟩ : ∃ s, s = ((moveRoot.prog sampleEnv).run freshSys).after := ⟨_, rfl⟩
  refine ⟨freshSys, s, freshSys_fresh, ?_, by rw [hs]; decide +kernel, fun ⟨l, _, hmem, hrun⟩ => ?_⟩
  · rw [hs]
    exact (Outcome.eq_ok_after (by decide +kernel)).choose_spec
  · -- one item is counted, and no head but the root is there
    obtain ⟨e, hrun, -⟩ := hrun 0
    have hcount : ((fsList sampleEnv [104, 100, 48, 47, 122] 0).run s).value.map Prod.fst = some 1 := by
      rw [hs]
      decide +kernel
    rw [hrun] at hcount
    obtain ⟨m, hm⟩ := List.length_eq_one_iff.1 (Option.some.inj hcount)
    obtain ⟨hhead, hm0, -⟩ := (hmem m).1 (hm ▸ List.mem_singleton_self m)
    have hnone : ∀ k < Vol.nent (s.disk 2), Vol.IsHead (s.disk 2) k → k = 0 := by
      rw [hs]
      decide +kernel
    exact hm0 (hnone m hhead.1 hhead)

end NanoS32
