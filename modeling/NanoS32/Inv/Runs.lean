import NanoS32.Fs.Small
import NanoS32.Inv.Calls
import NanoS32.Inv.WellFormed
import NanoS32.Lemmas.Copying
import NanoS32.Lemmas.Fresh
import NanoS32.Lemmas.OtherDisk

/-!
# Runs of calls

A run makes calls of the file system one after the other, with any paths and on any disks. When the calls meet their conditions in
the states that they are made from, each leaves the disk with the format, and its tree as it is to be kept. `fs_copy` writes through
other calls, and these have to meet their conditions as well.
-/

namespace NanoS32

open Prog

/-- A call of the file system. -/
inductive FsCall where
  | writeFile (buff : List UInt8) (path : CStr) (offset : UInt32) (flags : Nat)
  | createDirectory (path : CStr)
  | delete (path : CStr)
  | move (srcpath dstpath : CStr)
  | copy (srcpath dstpath : CStr)

/-- What a call does, but for the value it returns. -/
def FsCall.prog (env : Env) : FsCall → FsM Unit
  | .writeFile buff path offset flags => fsWriteFile env buff path offset.toNat flags >>= fun _ => pure ()
  | .createDirectory path => fsCreateDirectory env path >>= fun _ => pure ()
  | .delete path => fsDelete env path >>= fun _ => pure ()
  | .move srcpath dstpath => fsMove env srcpath dstpath >>= fun _ => pure ()
  | .copy srcpath dstpath => fsCopy env srcpath dstpath

/-- A state that some calls lead to, each of which returns. -/
inductive FsReaches (env : Env) : Sys → Sys → Prop where
  | refl (s : Sys) : FsReaches env s s
  | step {s s₁ s₂ : Sys} (h : FsReaches env s s₁) (c : FsCall) (hrun : ((c.prog env).run s₁).state = some s₂) : FsReaches env s s₂

/-! ## Conditions -/

section Conditions

variable (K : Kept) (env : Env) (d : Nat)

/-- The calls by which `fs_copy` writes, made only when they meet their conditions on disk `d`. -/
noncomputable def copyGuards : CopyCalls where
  writeFile buff path offset flags :=
    guarded (fun s => pathGetDisk env path = d → WritesFile K env (s.disk d) path flags) (fsWriteFile env buff path offset flags)
  createDirectory path :=
    guarded (fun s => pathGetDisk env path = d → CreatesDirectory env (s.disk d) path) (fsCreateDirectory env path)

/-- The calls that a copy makes meet their conditions. -/
def CopyMeets (srcpath dstpath : CStr) (s : Sys) : Prop :=
  ∀ s', (fsCopyWith env (copyGuards K env d) env.fuel srcpath dstpath).run s ≠ .stuck s'

/-- A head that can be deleted or moved: any but the root. -/
def Vol.Movable (V : Vol) (n : Nat) : Prop := V.IsHead n ∧ n ≠ 0

/-- What a move on one disk needs: room in the directory where the head is moved to, unless it stays in its directory. Moving a
directory below itself takes it out of the tree. -/
def MovesHead (V : Vol) (srcpath dstpath : CStr) : Prop :=
  ∀ p n, V.parse env dstpath = some p → V.lookup p.parent (stringToName (dstpath.drop p.name)) = none →
    V.resolve env srcpath = some n → V.Movable n ∧ (V.ent p.parent).isDir = true ∧
      ((V.ent p.parent).size.toNat < 120 ∨ V.par n = p.parent) ∧ (K.rooted → ¬Forest.Under V.par n p.parent)

/-- The conditions that a call has to meet on disk `d`. -/
def FsCall.Meets : FsCall → Sys → Prop
  | .writeFile _ path _ flags, s => pathGetDisk env path = d → WritesFile K env (s.disk d) path flags
  | .createDirectory path, s => pathGetDisk env path = d → CreatesDirectory env (s.disk d) path
  | .delete path, s => pathGetDisk env path = d → ∀ n, Vol.resolve (s.disk d) env path = some n → Vol.Movable (s.disk d) n
  | .move srcpath dstpath, s =>
    if pathGetDisk env srcpath = pathGetDisk env dstpath then pathGetDisk env srcpath = d → MovesHead K env (s.disk d) srcpath dstpath
    else ∀ p name srcdisk n e s₁, (checkSrcDst env srcpath dstpath).run s = .ok (p, name, srcdisk, n, e) s₁ →
      CopyMeets K env d srcpath (renamedPath dstpath p.name) s ∧
        (pathGetDisk env srcpath = d → ∀ s', (fsCopy env srcpath (renamedPath dstpath p.name)).run s = .ok () s' →
          Vol.Movable (s'.disk d) n ∧ Forest.Under (Vol.par (s'.disk d)) 0 n)
  | .copy srcpath dstpath, s => CopyMeets K env d srcpath dstpath s

/-- A state that a run leads to whose calls meet their conditions on disk `d`. -/
inductive FsRun : Sys → Sys → Prop where
  | refl (s : Sys) : FsRun s s
  | step {s s₁ s₂ : Sys} (h : FsRun s s₁) (c : FsCall) (hmeets : c.Meets K env d s₁)
      (hrun : ((c.prog env).run s₁).state = some s₂) : FsRun s s₂

/-- The calls by which `fs_copy` writes, made only when they meet their conditions on disk `d`, and their writes are safe. -/
noncomputable def safeGuards : CopyCalls where
  writeFile buff path offset flags :=
    guarded (fun s => pathGetDisk env path = d → WritesFile K env (s.disk d) path flags ∧
      SafeWrite (Vol.sizeAt (s.disk d) env path) offset buff.length flags) (fsWriteFile env buff path offset flags)
  createDirectory path :=
    guarded (fun s => pathGetDisk env path = d → CreatesDirectory env (s.disk d) path) (fsCreateDirectory env path)

/-- The calls that a copy makes meet their conditions, and their writes are safe. -/
def CopySafe (srcpath dstpath : CStr) (s : Sys) : Prop :=
  ∀ s', (fsCopyWith env (safeGuards K env d) env.fuel srcpath dstpath).run s ≠ .stuck s'

/-- The writes that a call makes on disk `d` are safe. -/
def FsCall.Safe : FsCall → Sys → Prop
  | .writeFile buff path offset flags, s =>
    pathGetDisk env path = d → SafeWrite (Vol.sizeAt (s.disk d) env path) offset.toNat buff.length flags
  | .createDirectory _, _ => True
  | .delete _, _ => True
  | .move srcpath dstpath, s =>
    pathGetDisk env srcpath ≠ pathGetDisk env dstpath → ∀ p name srcdisk n e s₁,
      (checkSrcDst env srcpath dstpath).run s = .ok (p, name, srcdisk, n, e) s₁ →
        CopySafe K env d srcpath (renamedPath dstpath p.name) s
  | .copy srcpath dstpath, s => CopySafe K env d srcpath dstpath s

/-- A state that a run leads to whose calls meet their conditions on disk `d`, and whose writes are safe. -/
inductive SafeRun : Sys → Sys → Prop where
  | refl (s : Sys) : SafeRun s s
  | step {s s₁ s₂ : Sys} (h : SafeRun s s₁) (c : FsCall) (hmeets : c.Meets K env d s₁) (hsafe : c.Safe K env d s₁)
      (hrun : ((c.prog env).run s₁).state = some s₂) : SafeRun s s₂

end Conditions

/-- Runs that meet the conditions are runs. -/
theorem FsRun.reaches {K : Kept} {env : Env} {d : Nat} {s s' : Sys} (h : FsRun K env d s s') : FsReaches env s s' := by
  induction h with
  | refl => exact .refl s
  | step _ c _ hrun ih => exact .step ih c hrun

/-! ## What they keep -/

/-- A table with no entries: the block that is the root entry otherwise is there, but not in the table. -/
structure Vol.NoTable (V : Vol) : Prop where
  nent : V.nent = 0
  root : (V.ent 0).flags = tDir ∧ V.par 0 = 0 ∧ (V.ent 0).nameStr = rootDirName

/-- The machine is ready for calls on disk `d`, and the disk has the format and its tree is as it is to be kept. -/
def Intact (K : Kept) (env : Env) (d : Nat) (s : Sys) : Prop :=
  Ready env s d ∧
    (Vol.NoTable (s.disk d) ∨ ∃ C, (Vol.Format (s.disk d) C fun _ => False) ∧ K.Holds (Vol.tree (s.disk d) C))

/-- The same, and when `A` is to be kept as well, no block of the disk is a reference twice. -/
def Stays (K : Kept) (A : Prop) (env : Env) (d : Nat) (s : Sys) : Prop :=
  Ready env s d ∧ (Vol.NoTable (s.disk d) ∨ ∃ C, (Vol.Format (s.disk d) C fun _ => False) ∧ K.Holds (Vol.tree (s.disk d) C) ∧
    (A → Vol.Apart (s.disk d) C))

section Stays

variable {K : Kept} {A : Prop} {env : Env} {d : Nat} {s : Sys}

theorem intact_iff : Intact K env d s ↔ Stays K False env d s := by
  refine and_congr_right fun _ => or_congr_right (exists_congr fun C => and_congr_right fun _ => ?_)
  exact (and_iff_left False.elim).symm

theorem Stays.onDisk (K : Kept) (A : Prop) (env : Env) (d : Nat) : OnDisk (Stays K A env d) d where
  quiet s hs := hs.1.faults
  same s s' hs hfaults hdisk := by
    obtain ⟨hr, hdisk'⟩ := hs
    refine ⟨⟨hr.disk, hr.present, hfaults.trans hr.faults, hr.fuel⟩, ?_⟩
    rw [hdisk]
    exact hdisk'

theorem Stays.noEntries (hr : Ready env s d) (h : Vol.NoTable (s.disk d)) : NoEntries env s d := Or.inr ⟨hr, h.nent⟩

/-- A change of the disk. -/
theorem Vol.Changes.stays {safe : Prop} {C C' : Nat → List Nat} {cs : List (FileTree.Change Nat CStr UInt8)} {V' : Vol} {s' : Sys}
    (h : Vol.Changes K safe (s.disk d) C cs V' C') (hr' : Ready env s' d) (hk : K.Holds (Vol.tree (s.disk d) C))
    (ha : A → Vol.Apart (s.disk d) C) (hsafe : A → safe) : Stays K A env d (s'.withVol d V') := by
  refine ⟨⟨hr'.disk, hr'.present, hr'.faults, hr'.fuel⟩, Or.inr ⟨C', ?_⟩⟩
  rw [Sys.withVol_disk]
  exact ⟨h.format, h.kept hk, fun h' => h.apart (hsafe h') (ha h')⟩

theorem fsWriteFile_stays (hs : Stays K A env d s) {path : CStr} {flags offset : Nat} (ho : offset < 4294967296) {buff : List UInt8}
    (hw : pathGetDisk env path = d → WritesFile K env (s.disk d) path flags)
    (hsafe : A → pathGetDisk env path = d → SafeWrite (Vol.sizeAt (s.disk d) env path) offset buff.length flags) :
    ((fsWriteFile env buff path offset flags).run s).Ends (Stays K A env d) := by
  by_cases hd : pathGetDisk env path = d
  · obtain ⟨hr, hdead | ⟨C, hf, hk, ha⟩⟩ := id hs
    · exact (fsWriteFile_dead hr.faults (hd ▸ Stays.noEntries hr hdead) buff offset flags).ends hs
    · obtain ⟨s', V', C', cs, hr', -, hchanges, hend⟩ := fsWriteFile_changes hr hf hd (hw hd) ho buff
      have hstays := hchanges.stays hr' hk ha fun h => hsafe h hd
      rw [Sys.withVol_self] at hend
      rcases hend with ⟨-, hrun⟩ | ⟨-, code, hrun⟩
      all_goals
        rw [hrun]
        exact hstays
  · exact fsWriteFile_keeps (Stays.onDisk K A env d) env hd buff offset flags s hs

theorem fsCreateDirectory_stays (hs : Stays K A env d s) {path : CStr}
    (hc : pathGetDisk env path = d → CreatesDirectory env (s.disk d) path) :
    ((fsCreateDirectory env path).run s).Ends (Stays K A env d) := by
  by_cases hd : pathGetDisk env path = d
  · obtain ⟨hr, hdead | ⟨C, hf, hk, ha⟩⟩ := id hs
    · exact (fsCreateDirectory_dead hr.faults (hd ▸ Stays.noEntries hr hdead)).ends hs
    · have hend := fsCreateDirectory_changes (K := K) hr hf hd (hc hd)
      rw [Sys.withVol_self] at hend
      rcases hend with ⟨p, f, s', V', C', -, hr', -, hchanges, hrun⟩ | ⟨code, hrun⟩
      · rw [hrun]
        exact hchanges.stays hr' hk ha fun _ => trivial
      · rw [hrun]
        exact hs
  · exact fsCreateDirectory_keeps (Stays.onDisk K A env d) env hd s hs

/-- `delete_n` on any disk. -/
theorem deleteN_stays (hs : Stays K A env d s) {d' n : Nat}
    (hn : d' = d → Vol.Movable (s.disk d) n ∧ Forest.Under (Vol.par (s.disk d)) 0 n) :
    ((deleteN env env.fuel d' n).run s).Ends (Stays K A env d) := by
  by_cases hd : d' = d
  · obtain ⟨hr, hdead | ⟨C, hf, hk, ha⟩⟩ := hs
    · have hlt := (hn hd).1.1.1
      rw [hdead.nent] at hlt
      exact absurd hlt (Nat.not_lt_zero n)
    · obtain ⟨⟨hhead, hn0⟩, hunder⟩ := hn hd
      obtain ⟨V', C', hchanges, hrun⟩ := deleteN_changes (K := K) hr hf (hf.isHead_iff.1 hhead) hn0 hunder
      rw [Sys.withVol_self] at hrun
      rw [hd, hrun]
      exact hchanges.stays hr hk ha fun _ => trivial
  · exact deleteN_keeps (Stays.onDisk K A env d) hd env env.fuel n s hs

theorem fsDelete_stays (hs : Stays K A env d s) {path : CStr}
    (hdel : pathGetDisk env path = d → ∀ n, Vol.resolve (s.disk d) env path = some n → Vol.Movable (s.disk d) n) :
    ((fsDelete env path).run s).Ends (Stays K A env d) := by
  by_cases hd : pathGetDisk env path = d
  · obtain ⟨hr, hdead | ⟨C, hf, hk, -⟩⟩ := id hs
    · exact (fsDelete_dead hr.faults (hd ▸ Stays.noEntries hr hdead)).ends hs
    · have hget := fsGetEntry_run hr hf.geo hd
      rw [Sys.withVol_self] at hget
      unfold fsDelete
      cases hres : Vol.resolve (s.disk d) env path with
      | none =>
        rw [hres] at hget
        rw [bind_error hget]
        exact hs
      | some n =>
        rw [hres] at hget
        rw [bind_ok hget]
        exact (deleteN_stays hs fun _ => ⟨hdel hd n hres, hf.resolve_under hres⟩).map _
  · exact fsDelete_keeps (Stays.onDisk K A env d) env hd s hs

/-- A copy whose calls meet their conditions. -/
theorem fsCopy_stays (hs : Stays K A env d s) {srcpath dstpath : CStr} (hmeets : CopyMeets K env d srcpath dstpath s)
    (hsafe : A → CopySafe K env d srcpath dstpath s) : ((fsCopy env srcpath dstpath).run s).Ends (Stays K A env d) := by
  have hquiet := (Stays.onDisk K A env d).quiet
  by_cases hA : A
  · have hguards : (fsCopyWith env (safeGuards K env d) env.fuel srcpath dstpath).Keeps (Stays K A env d) :=
      fsCopyWith_keeps hquiet env (fun _ _ _ _ ho => keeps_guarded fun _ hs hw => fsWriteFile_stays hs ho (fun h => (hw h).1) fun _ h => (hw h).2)
        (fun _ => keeps_guarded fun _ hs hc => fsCreateDirectory_stays hs hc) env.fuel srcpath dstpath
    exact (fsCopyWith_below env (fun _ _ _ _ => Below.guarded _ _) (fun _ => Below.guarded _ _) env.fuel srcpath dstpath).ends
      (hguards s hs) (hsafe hA)
  · have hguards : (fsCopyWith env (copyGuards K env d) env.fuel srcpath dstpath).Keeps (Stays K A env d) :=
      fsCopyWith_keeps hquiet env (fun _ _ _ _ ho => keeps_guarded fun _ hs hw => fsWriteFile_stays hs ho hw fun h => absurd h hA)
        (fun _ => keeps_guarded fun _ hs hc => fsCreateDirectory_stays hs hc) env.fuel srcpath dstpath
    exact (fsCopyWith_below env (fun _ _ _ _ => Below.guarded _ _) (fun _ => Below.guarded _ _) env.fuel srcpath dstpath).ends
      (hguards s hs) hmeets

/-- A move on disk `d`. -/
theorem fsMove_changes (hr : Ready env s d) {V : Vol} {C : Nat → List Nat} (hf : V.Format C fun _ => False) {srcpath dstpath : CStr}
    (hsrc : pathGetDisk env srcpath = d) (hdst : pathGetDisk env dstpath = d) (hm : MovesHead K env V srcpath dstpath) :
    (∃ p n V', V.parse env dstpath = some p ∧ V.resolve env srcpath = some n ∧
      V.Changes K True C [.move n p.parent (stringToName (dstpath.drop p.name))] V' C ∧
        (fsMove env srcpath dstpath).run (s.withVol d V) = .ok n (s.withVol d V')) ∨
      ∃ code, (fsMove env srcpath dstpath).run (s.withVol d V) = .error code (s.withVol d V) := by
  have hnent := hf.geo.nent_lt
  have hparse := pathParse_run hr hf.geo hdst
  have hget := fsGetEntry_run hr hf.geo hsrc
  unfold fsMove fsMoveWith
  cases hp : V.parse env dstpath with
  | none =>
    rw [hp] at hparse
    exact Or.inr ⟨errorNotFound, bind_error (bind_error hparse)⟩
  | some p =>
    rw [hp] at hparse
    obtain ⟨hplt, hpu, -⟩ := hf.parse_parent hp
    have hpd : p.disk = d := Vol.parse_disk hr hf.geo hdst hp
    obtain ⟨name, hname⟩ : ∃ name, name = stringToName (dstpath.drop p.name) := ⟨_, rfl⟩
    obtain ⟨hlen, -⟩ := stringToName_spec (dstpath.drop p.name)
    obtain ⟨hsep, hzero⟩ := stringToName_not_mem (dstpath.drop p.name)
    have hcheck := checkNotExists_run hr hf.geo (show p.parent < 8388608 by omega) hsep
    have hmove := hm p
    rw [← hname] at hlen hsep hzero hcheck hmove
    cases hlook : V.lookup p.parent name with
    | some m =>
      rw [hlook] at hcheck
      refine Or.inr ⟨errorExists, bind_error ?_⟩
      unfold checkSrcDst
      rw [bind_ok hparse]
      dsimp only
      rw [← hname, hpd]
      exact bind_error hcheck
    | none =>
      rw [hlook] at hcheck
      cases hres : V.resolve env srcpath with
      | none =>
        rw [hres] at hget
        refine Or.inr ⟨errorNotFound, bind_error ?_⟩
        unfold checkSrcDst
        rw [bind_ok hparse]
        dsimp only
        rw [← hname, hpd, bind_ok hcheck]
        exact bind_error hget
      | some n =>
        rw [hres] at hget
        obtain ⟨⟨hhead, hn0⟩, hisDir, hroom, hout⟩ := hmove n hp hlook hres
        obtain ⟨hq, hqdir⟩ := hf.dir_of_isDir hplt hpu hisDir
        obtain ⟨V', hchanges, hrun⟩ := moveEntry_changes hr hf (hf.isHead_iff.1 hhead) hn0 (hf.resolve_under hres) hq hqdir hroom
          hlen hzero hout fun _ => hf.free_of_lookup hlook
        refine Or.inl ⟨p, n, V', rfl, rfl, hname ▸ hchanges, ?_⟩
        have hfound : (checkSrcDst env srcpath dstpath).run (s.withVol d V) = .ok (p, name, d, n, V.ent n) (s.withVol d V) := by
          unfold checkSrcDst
          rw [bind_ok hparse]
          dsimp only
          rw [← hname, hpd, bind_ok hcheck, bind_ok hget, hsrc, run_pure]
        rw [bind_ok hfound]
        dsimp only
        rw [if_neg (not_not.2 hpd.symm), hpd]
        obtain ⟨_, s₁, hremove, hrun⟩ := bind_eq_ok hrun
        obtain ⟨_, s₂, hwrite, hadd⟩ := bind_eq_ok hrun
        rw [bind_ok hremove, bind_ok hwrite, bind_ok hadd, run_pure]

theorem fsMove_stays (hs : Stays K A env d s) {srcpath dstpath : CStr} (hm : (FsCall.move srcpath dstpath).Meets K env d s)
    (hsafe : A → (FsCall.move srcpath dstpath).Safe K env d s) : ((fsMove env srcpath dstpath).run s).Ends (Stays K A env d) := by
  have hI := Stays.onDisk K A env d
  by_cases hsame : pathGetDisk env srcpath = pathGetDisk env dstpath
  · rw [FsCall.Meets, if_pos hsame] at hm
    by_cases hd : pathGetDisk env srcpath = d
    · obtain ⟨hr, hdead | ⟨C, hf, hk, ha⟩⟩ := id hs
      · exact (fsMove_dead hr.faults (hd ▸ Stays.noEntries hr hdead)).ends hs
      · have hend := fsMove_changes hr hf hd (hsame ▸ hd) (hm hd)
        rw [Sys.withVol_self] at hend
        rcases hend with ⟨p, n, V', -, -, hchanges, hrun⟩ | ⟨code, hrun⟩
        · rw [hrun]
          exact hchanges.stays hr hk ha fun _ => trivial
        · rw [hrun]
          exact hs
    · exact fsMove_keeps hI env hsame hd s hs
  · rw [FsCall.Meets, if_neg hsame] at hm
    -- what is read does not change the state, so that the copy starts in the state of the call
    have hread := checkSrcDst_keeps (I := fun t => t = s) (fun t ht => ht ▸ hs.1.faults) env srcpath dstpath s rfl
    refine (hread.mono fun t ht => ht ▸ hs).bind (fun _ h => h) fun ⟨p, name, srcdisk, n, e⟩ s₁ hrun => ?_
    rw [hrun] at hread
    obtain rfl : s₁ = s := hread
    obtain ⟨hsrc, hdst⟩ := checkSrcDst_eq_ok env hrun
    obtain ⟨hcopy, hdel⟩ := hm p name srcdisk n e s₁ hrun
    dsimp only
    rw [if_pos (by rw [hsrc, hdst]; exact hsame)]
    have hcopied := fsCopy_stays hs hcopy fun h => hsafe h hsame p name srcdisk n e s₁ hrun
    refine hcopied.bind (fun _ h => h) fun _ s' hdone => ?_
    rw [hdone] at hcopied
    exact (deleteN_stays hcopied fun hd => hdel (hsrc ▸ hd) s' hdone).map _

/-- A call that meets its condition. -/
theorem Stays.call (hs : Stays K A env d s) (c : FsCall) (hm : c.Meets K env d s) (hsafe : A → c.Safe K env d s) :
    ((c.prog env).run s).Ends (Stays K A env d) := by
  cases c with
  | writeFile buff path offset flags => exact (fsWriteFile_stays hs offset.toNat_lt hm hsafe).map _
  | createDirectory path => exact (fsCreateDirectory_stays hs hm).map _
  | delete path => exact (fsDelete_stays hs hm).map _
  | move srcpath dstpath => exact (fsMove_stays hs hm hsafe).map _
  | copy srcpath dstpath => exact fsCopy_stays hs hm hsafe

theorem Intact.noEntries (hr : Ready env s d) (h : Vol.NoTable (s.disk d)) : NoEntries env s d := Stays.noEntries hr h

/-- A program that keeps the format and the tree. -/
theorem Grows.ends {α : Type} {C : Nat → List Nat} {x : FsM α} (h : Grows K env s d (s.disk d) C x)
    (hk : K.Holds (Vol.tree (s.disk d) C)) : (x.run s).Ends (Intact K env d) := by
  obtain ⟨s', V', C', hr', -, hf', hkeep, hrun⟩ := h
  have hintact : Intact K env d (s'.withVol d V') := by
    refine ⟨⟨hr'.disk, hr'.present, hr'.faults, hr'.fuel⟩, Or.inr ⟨C', ?_⟩⟩
    rw [Sys.withVol_disk]
    exact ⟨hf', hkeep hk⟩
  rw [Sys.withVol_self] at hrun
  rcases hrun with ⟨a, hrun⟩ | ⟨code, hrun⟩
  · rw [hrun]
    exact hintact
  · rw [hrun]
    exact hintact

/-- A run whose calls meet their conditions. -/
theorem Intact.run (hs : Intact K env d s) {s' : Sys} (h : FsRun K env d s s') : Intact K env d s' := by
  rw [intact_iff] at hs ⊢
  induction h with
  | refl => exact hs
  | step _ c hmeets hrun ih => exact (ih.call c hmeets False.elim).of_state hrun

/-- A run whose calls meet their conditions, and whose writes are safe. -/
theorem Stays.run (hs : Stays K True env d s) {s' : Sys} (h : SafeRun K env d s s') : Stays K True env d s' := by
  induction h with
  | refl => exact hs
  | step _ c hmeets hsafe hrun ih => exact (ih.call c hmeets fun _ => hsafe).of_state hrun

end Stays

/-! ## Fresh disks -/

/-- The disk has been formatted. The copy of the boot program that `fs_format` makes then is a call of the run. -/
def Fresh (env : Env) (d : Nat) (s : Sys) : Prop := ∃ s₀, Ready env s₀ d ∧ (formatEmpty env d).run s₀ = .ok () s

/-- The geometry of a disk as its superblock has it. -/
theorem formatSuper_bounds (info : DiskInfo) :
    (formatSuper info).size < 4294967296 ∧ (formatSuper info).nentries ≤ 1024 ∧
      ((formatSuper info).nentries ≠ 0 → 2 + (formatSuper info).nentries ≤ (formatSuper info).size) := by
  simp only [formatSuper, wrap32, blockSize, diskSectorSize]
  omega

/-- The table of a disk that has been formatted holds the root only. -/
theorem Fresh.stays {K : Kept} {A : Prop} {env : Env} {d : Nat} {s : Sys} (h : Fresh env d s) : Stays K A env d s := by
  obtain ⟨s₀, hr, hrun⟩ := h
  have hquiet : OnDisk (fun s => s.faults = []) (d + 1) := ⟨fun _ h => h, fun _ _ h hfaults _ => hfaults.trans h⟩
  have hfaults : s.faults = [] := by
    have hends := formatEmpty_keeps hquiet (Nat.ne_of_lt (Nat.lt_succ_self d)) env s₀ hr.faults
    rw [hrun] at hends
    exact hends
  refine ⟨⟨hr.disk, hr.present, hfaults, hr.fuel⟩, ?_⟩
  obtain ⟨hsuper, ⟨t, hroot⟩, hfree⟩ := formatEmpty_eq_ok hrun
  obtain ⟨hsize, hnentries, hfits⟩ := formatSuper_bounds (env.diskInfo d)
  have hread : (s.disk d 1).super = formatSuper (env.diskInfo d) := by
    rw [hsuper]
    exact super_ofSuper (show sfsTypeId < 4294967296 by decide) hsize (by omega) (by simp only [formatSuper, blockSize]; omega)
  have hnent : Vol.nent (s.disk d) = (formatSuper (env.diskInfo d)).nentries := by rw [Vol.nent, hread]
  have hnblk : Vol.nblk (s.disk d) = (formatSuper (env.diskInfo d)).size := by rw [Vol.nblk, hread]
  have hdir : (Vol.ent (s.disk d) 0).flags = tDir ∧ Vol.par (s.disk d) 0 = 0 ∧ (Vol.ent (s.disk d) 0).nameStr = rootDirName := by
    rw [Vol.par, hroot]
    exact ⟨rfl, rfl, show formatRoot.nameStr = rootDirName by decide +kernel⟩
  by_cases h0 : (formatSuper (env.diskInfo d)).nentries = 0
  · exact Or.inl ⟨hnent.trans h0, hdir⟩
  · right
    have hused : ∀ n < Vol.nent (s.disk d), (Vol.ent (s.disk d) n).used = true → n = 0 := by
      intro n hn hu
      by_contra hn0
      rw [hfree n (Nat.pos_of_ne_zero hn0) (hnent ▸ hn)] at hu
      cases hu
    have hempty : (Vol.ent (s.disk d) 0).size.toNat = 0 := by
      rw [hroot]
      rfl
    have hused0 : (Vol.ent (s.disk d) 0).used = true := Block.used_of_isDir (Block.isDir_of_flags hdir.1).1
    have hgeo : Vol.Geo (s.disk d) := by
      refine ⟨by rw [hnent]; omega, ?_, ?_⟩
      · rw [Vol.firstData, hnent, hnblk]
        exact hfits h0
      · rw [Vol.firstData, hnent]
        omega
    have hw := Vol.WellFormed.of_root hgeo hdir hempty (by rw [Vol.next, hroot]; rfl) hused
    have hnode : ∀ {m}, (Vol.tree (s.disk d) (Vol.flatChains (s.disk d))).node m → m = 0 := by
      intro m hm
      have hin := hw.mem_head hm
      exact hused m (hw.lt hin) (hw.used_of_mem hin)
    have hnofile : ∀ {h}, Vol.flatChains (s.disk d) h ≠ [] → (Vol.ent (s.disk d) h).flags ≠ tFile := by
      intro h hh hfile
      obtain rfl : h = 0 := hnode hh
      exact absurd (hdir.1.symm.trans hfile) (by decide)
    refine ⟨_, hw.format fun h hh _ => ?_, ⟨fun _ m hm => ?_, fun _ m m' hm hm' _ _ => ?_⟩, fun _ =>
      ⟨fun h _ hh _ hfile => absurd hfile (hnofile hh), fun h hh hfile => absurd hfile (hnofile hh)⟩⟩
    · obtain rfl : h = 0 := hnode hh
      exact if_pos ⟨hw.head_lt hh, hused0⟩
    · rw [hnode hm]
      exact Forest.Under.refl _ _
    · rw [hnode hm, hnode hm']

theorem Fresh.intact {K : Kept} {env : Env} {d : Nat} {s : Sys} (h : Fresh env d s) : Intact K env d s := intact_iff.2 h.stays

/-- A disk that `fs_format` has formatted is a fresh disk after one call, which copies the boot program. -/
theorem Fresh.of_format {env : Env} {d : Nat} {s₀ s' : Sys} (hr : Ready env s₀ d) (h : (fsFormat env d).run s₀ = .ok () s') :
    ∃ s srcpath dstpath, Fresh env d s ∧ ((FsCall.copy srcpath dstpath).prog env).run s = .ok () s' := by
  obtain ⟨_, s, hempty, h⟩ := bind_eq_ok h
  obtain ⟨e, s₁, hentry, hcopy⟩ := bind_eq_ok h
  have hfresh : Fresh env d s := ⟨s₀, hr, hempty⟩
  have hfaults := hfresh.intact (K := ⟨False, False⟩).1.faults
  have hread := (reads_keep (I := fun t => t = s) (fun t ht => ht ▸ hfaults) env).entry env.systemDisk 1 s rfl
  rw [hentry] at hread
  obtain rfl : s₁ = s := hread
  exact ⟨s₁, _, _, hfresh, hcopy⟩

/-! ## The small machine -/

/-- The system disk after a format. -/
def freshSys : Sys := ((formatEmpty sampleEnv 2).run { disk := fun _ _ => Block.zero, faults := [], clock := fun _ => 7 }).after

theorem freshSys_fresh : Fresh sampleEnv 2 freshSys := by
  refine ⟨{ disk := fun _ _ => Block.zero, faults := [], clock := fun _ => 7 }, ⟨by decide, by decide, rfl, Nat.le_refl _⟩, ?_⟩
  exact (Outcome.eq_ok_after (by decide +kernel)).choose_spec

/-- The call that makes a file `f` of one byte on the system disk. -/
def writeF : FsCall := .writeFile [5] [102] 0 wfCreate

theorem writeF_meets (K : Kept) : writeF.Meets K sampleEnv 2 freshSys := by
  intro _
  have hres : Vol.resolve (freshSys.disk 2) sampleEnv [102] = none := by decide +kernel
  refine ⟨fun n hn => absurd (hn.symm.trans hres) (by simp), fun _ _ p f hp _ => ?_⟩
  have hparse : Vol.parse (freshSys.disk 2) sampleEnv [102] = some { disk := 2, parent := 0, name := 0 } := by decide +kernel
  obtain rfl := Option.some.inj (hp.symm.trans hparse)
  exact ⟨⟨by decide +kernel, by decide +kernel⟩, fun _ => by decide +kernel⟩

/-- A run of one call. -/
theorem writeF_run (K : Kept) : FsRun K sampleEnv 2 freshSys ((writeF.prog sampleEnv).run freshSys).after :=
  .step (.refl _) writeF (writeF_meets K) (Outcome.state_eq_after (by decide +kernel))

/-- The run of one safe call. -/
theorem writeF_safe (K : Kept) : SafeRun K sampleEnv 2 freshSys ((writeF.prog sampleEnv).run freshSys).after := by
  refine .step (.refl _) writeF (writeF_meets K) (fun _ => ?_) (Outcome.state_eq_after (by decide +kernel))
  decide +kernel

end NanoS32
