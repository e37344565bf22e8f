import NanoS32.Theorems.Apart

/-!
# The calls on a tree of files

A run of calls on one disk is one of changes of a tree of files: a call that returns makes the change that it is for, one that fails
makes none, and a write that fails may leave its file created and with other contents. The tree at the end is the one that is on the
disk.
-/

namespace NanoS32

open Prog

/-- The paths of the call are on disk `d`, and it writes through no other call. -/
def FsCall.On (env : Env) (d : Nat) : FsCall → Prop
  | .writeFile _ path _ _ => pathGetDisk env path = d
  | .createDirectory path => pathGetDisk env path = d
  | .delete path => pathGetDisk env path = d
  | .move srcpath dstpath => pathGetDisk env srcpath = d ∧ pathGetDisk env dstpath = d
  | .copy _ _ => False

/-- The changes that a call makes of a tree of files, when it returns and when it fails. Its paths are resolved on the disk. -/
inductive FsCall.Makes (env : Env) (V : Vol) : FsCall → Bool → List (FileTree.Change Nat CStr UInt8) → Prop where
  | writes {buff : List UInt8} {path : CStr} {offset : UInt32} {flags : Nat} {ok : Bool} {cs : List (FileTree.Change Nat CStr UInt8)}
      (h : WriteMakes env V path offset.toNat buff flags ok cs) : Makes env V (.writeFile buff path offset flags) ok cs
  | creates {path : CStr} {p : ParsedPath} {f : Nat} (hparse : V.parse env path = some p) :
      Makes env V (.createDirectory path) true [.create f p.parent (stringToName (path.drop p.name)) none]
  | deletes {path : CStr} {n : Nat} (hres : V.resolve env path = some n) : Makes env V (.delete path) true [.remove n]
  | moves {srcpath dstpath : CStr} {p : ParsedPath} {n : Nat} (hres : V.resolve env srcpath = some n)
      (hparse : V.parse env dstpath = some p) :
      Makes env V (.move srcpath dstpath) true [.move n p.parent (stringToName (dstpath.drop p.name))]
  | fails (c : FsCall) : Makes env V c false []

section Run

variable {K : Kept} {env : Env} {d : Nat} {s s₀ s' : Sys}

/-- The way a call ends. -/
structure FsCall.Ended (c : FsCall) (K : Kept) (env : Env) (d : Nat) (s : Sys) (C : Nat → List Nat) (s' : Sys) (C' : Nat → List Nat)
    (cs : List (FileTree.Change Nat CStr UInt8)) : Prop where
  ready : Ready env s' d
  changes : Vol.Changes K (c.Safe K env d s) (s.disk d) C cs (s'.disk d) C'
  state : ((c.prog env).run s).state = some s'
  makes : c.Makes env (s.disk d) ((c.prog env).run s).value.isSome cs

theorem FsCall.Ended.ok {c : FsCall} {s₁ : Sys} {V' : Vol} {C C' : Nat → List Nat} {cs : List (FileTree.Change Nat CStr UInt8)}
    (hr : Ready env s₁ d) (hchanges : Vol.Changes K (c.Safe K env d s) (s.disk d) C cs V' C')
    (hrun : (c.prog env).run s = .ok () (s₁.withVol d V')) (hmakes : c.Makes env (s.disk d) true cs) :
    c.Ended K env d s C (s₁.withVol d V') C' cs := by
  refine ⟨⟨hr.disk, hr.present, hr.faults, hr.fuel⟩, by rw [Sys.withVol_disk]; exact hchanges, by rw [hrun]; rfl, ?_⟩
  rw [hrun]
  exact hmakes

theorem FsCall.Ended.error {c : FsCall} {s₁ : Sys} {V' : Vol} {C C' : Nat → List Nat} {cs : List (FileTree.Change Nat CStr UInt8)}
    {code : Nat} (hr : Ready env s₁ d) (hchanges : Vol.Changes K (c.Safe K env d s) (s.disk d) C cs V' C')
    (hrun : (c.prog env).run s = .error code (s₁.withVol d V')) (hmakes : c.Makes env (s.disk d) false cs) :
    c.Ended K env d s C (s₁.withVol d V') C' cs := by
  refine ⟨⟨hr.disk, hr.present, hr.faults, hr.fuel⟩, by rw [Sys.withVol_disk]; exact hchanges, by rw [hrun]; rfl, ?_⟩
  rw [hrun]
  exact hmakes

/-- A call that fails and leaves the disk. -/
theorem FsCall.Ended.fails {c : FsCall} {C : Nat → List Nat} {code : Nat} (hr : Ready env s d)
    (hf : Vol.Format (s.disk d) C fun _ => False) (hrun : (c.prog env).run s = .error code s) : c.Ended K env d s C s C [] := by
  refine ⟨hr, .refl hf, by rw [hrun]; rfl, ?_⟩
  rw [hrun]
  exact .fails c

theorem Vol.Changes.always {safe : Prop} {V V' : Vol} {C C' : Nat → List Nat} {cs : List (FileTree.Change Nat CStr UInt8)}
    (h : V.Changes K True C cs V' C') : V.Changes K safe C cs V' C' := ⟨h.format, h.kept, h.steps, fun _ => h.apart trivial⟩

/-- Every call on the disk changes its tree of files by what it makes. -/
theorem FsCall.ended (hr : Ready env s d) {C : Nat → List Nat} (hf : Vol.Format (s.disk d) C fun _ => False) {c : FsCall}
    (hon : c.On env d) (hmeets : c.Meets K env d s) : ∃ s' C' cs, c.Ended K env d s C s' C' cs := by
  cases c with
  | writeFile buff path offset flags =>
    obtain ⟨s₁, V', C', cs, hr', -, hchanges, hend⟩ := fsWriteFile_changes hr hf hon (hmeets hon) offset.toNat_lt buff
    have hsafe : Vol.Changes K ((FsCall.writeFile buff path offset flags).Safe K env d s) (s.disk d) C cs V' C' :=
      ⟨hchanges.format, hchanges.kept, hchanges.steps, fun h => hchanges.apart (h hon)⟩
    rw [Sys.withVol_self] at hend
    rcases hend with ⟨hmakes, hrun⟩ | ⟨hmakes, code, hrun⟩
    · exact ⟨_, C', cs, .ok hr' hsafe (bind_ok hrun) (.writes hmakes)⟩
    · exact ⟨_, C', cs, .error hr' hsafe (bind_error hrun) (.writes hmakes)⟩
  | createDirectory path =>
    have hend := fsCreateDirectory_changes (K := K) hr hf hon (hmeets hon)
    rw [Sys.withVol_self] at hend
    rcases hend with ⟨p, f, s₁, V', C', hparse, hr', -, hchanges, hrun⟩ | ⟨code, hrun⟩
    · exact ⟨_, C', _, .ok hr' hchanges.always (bind_ok hrun) (.creates hparse)⟩
    · exact ⟨s, C, [], .fails hr hf (bind_error hrun)⟩
  | delete path =>
    have hget := fsGetEntry_run hr hf.geo hon
    rw [Sys.withVol_self] at hget
    have hdelete : (FsCall.delete path).prog env = fsGetEntry env path unknownValue unknownValue >>= fun p =>
        deleteN env env.fuel (pathGetDisk env path) p.1 >>= fun _ => pure () := by
      simp only [FsCall.prog, fsDelete, Prog.bind_assoc]
      rfl
    cases hres : Vol.resolve (s.disk d) env path with
    | none =>
      rw [hres] at hget
      exact ⟨s, C, [], .fails hr hf (by rw [hdelete]; exact bind_error hget)⟩
    | some n =>
      rw [hres] at hget
      obtain ⟨hhead, hn0⟩ := hmeets hon n hres
      obtain ⟨V', C', hchanges, hrun⟩ := deleteN_changes (K := K) hr hf (hf.isHead_iff.1 hhead) hn0 (hf.resolve_under hres)
      rw [Sys.withVol_self] at hrun
      have hdone : ((FsCall.delete path).prog env).run s = .ok () (s.withVol d V') := by
        rw [hdelete, bind_ok hget, hon, bind_ok hrun, run_pure]
      exact ⟨_, C', _, .ok hr hchanges.always hdone (.deletes hres)⟩
  | move srcpath dstpath =>
    obtain ⟨hsrc, hdst⟩ := hon
    rw [FsCall.Meets, if_pos (hsrc.trans hdst.symm)] at hmeets
    have hend := fsMove_changes hr hf hsrc hdst (hmeets hsrc)
    rw [Sys.withVol_self] at hend
    rcases hend with ⟨p, n, V', hparse, hres, hchanges, hrun⟩ | ⟨code, hrun⟩
    · exact ⟨_, C, _, .ok hr hchanges.always (bind_ok hrun) (.moves hres hparse)⟩
    · exact ⟨s, C, [], .fails hr hf (bind_error hrun)⟩
  | copy srcpath dstpath => exact hon.elim

end Run

end NanoS32
