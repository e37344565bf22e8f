import NanoS32.Lemmas.Reading

/-!
# Calls on another disk

A call reads and writes the disk of its path only. When no transfer fails, it leaves what is on any other disk as it is.
-/

namespace NanoS32

open Prog

/-- `I` says that no transfer fails, and something about what is on disk `d`. -/
structure OnDisk (I : Sys → Prop) (d : Nat) : Prop where
  quiet : ∀ s, I s → s.faults = []
  same : ∀ s s', I s → s'.faults = s.faults → s'.disk d = s.disk d → I s'

section Other

variable {I : Sys → Prop} {d d' : Nat} (hI : OnDisk I d) (hd : d' ≠ d)

include hI hd

theorem writeSector_keeps (k : Nat) (b : Block) : (writeSector d' k b).Keeps I := by
  intro s hs
  have hrun : (writeSector d' k b).run s = .ok noError (s.setBlock d' k b) := by
    rw [writeSector]
    simp only [hI.quiet s hs]
  rw [hrun]
  exact hI.same s _ hs rfl (Function.update_of_ne (Ne.symm hd) _ _)

theorem ioDiskWriteBlock_keeps (env : Env) (k : Nat) (b : Block) : (ioDiskWriteBlock env d' k b).Keeps I :=
  (keepRules I).ite (fun _ => (keepRules I).pure _) fun _ => writeSector_keeps hI hd k b

omit hd in
theorem getDatetime_keeps : getDatetime.Keeps I := fun s hs => hI.same s _ hs rfl rfl

/-- The table of another disk. -/
theorem writes_keep (env : Env) : Writes (keepRules I) env d' := by
  refine ⟨reads_keep hI.quiet env, fun n e => ?_, getDatetime_keeps hI⟩
  exact (keepRules I).bind (ioDiskWriteBlock_keeps hI hd env _ _) fun _ => (keepRules I).failIf fun _ => trivial

theorem diskWriteSector_keeps_other : ∀ n k buff, (diskWriteSector d' k n buff).Keeps I
  | 0, _, _ => (keepRules I).pure _
  | n + 1, k, _ =>
    (keepRules I).bind (writeSector_keeps hI hd k _) fun _ =>
      (keepRules I).ite (fun _ => (keepRules I).pure _) fun _ => diskWriteSector_keeps_other n _ _

theorem writeDisk_keeps (env : Env) (block offset : Nat) (buff : List UInt8) : (writeDisk env d' block offset buff).Keeps I := by
  refine (keepRules I).ite (fun _ => (keepRules I).pure _) fun _ => (keepRules I).ite (fun _ => ?_) fun _ => ?_
  · refine (keepRules I).bind ((keepRules I).pure _) fun result => ?_
    refine (keepRules I).ite (fun _ => (keepRules I).bind (diskWriteSector_keeps_other hI hd _ _ _) ?_) fun _ =>
      (keepRules I).bind ((keepRules I).pure _) ?_
    all_goals
      intro result
      exact (keepRules I).ite (fun _ => (keepRules I).bind (readSector_keeps hI.quiet d' _) fun _ =>
        (keepRules I).bind (writeSector_keeps hI hd _ _) fun _ => (keepRules I).pure _) fun _ => (keepRules I).pure _
  · refine (keepRules I).bind (readSector_keeps hI.quiet d' _) fun _ => (keepRules I).bind (writeSector_keeps hI hd _ _) fun _ => ?_
    refine (keepRules I).bind ((keepRules I).pure _) fun result => ?_
    refine (keepRules I).ite (fun _ => (keepRules I).bind (diskWriteSector_keeps_other hI hd _ _ _) ?_) fun _ =>
      (keepRules I).bind ((keepRules I).pure _) ?_
    all_goals
      intro result
      exact (keepRules I).ite (fun _ => (keepRules I).bind (readSector_keeps hI.quiet d' _) fun _ =>
        (keepRules I).bind (writeSector_keeps hI hd _ _) fun _ => (keepRules I).pure _) fun _ => (keepRules I).pure _

theorem writeLoop_keeps (env : Env) : ∀ fuel e offset buff, (writeLoop env d' fuel e offset buff).Keeps I
  | 0, _, _, _ => (keepRules I).pure _
  | fuel + 1, e, offset, buff => by
    refine (keepRules I).ite (fun _ => (keepRules I).pure _) fun _ => ?_
    refine (keepRules I).bind (writeSkip_holds (writes_keep hI hd env) _ _ _ _) fun p => ?_
    refine (keepRules I).bind ((keepRules I).failIf fun _ => trivial) fun _ => ?_
    refine (keepRules I).bind (writeDisk_keeps hI hd env _ _ _) fun result => ?_
    exact (keepRules I).ite (fun _ => (keepRules I).pure _) fun _ => writeLoop_keeps env fuel _ _ _

theorem writeFileAt_keeps (env : Env) (buff : List UInt8) (n : Nat) (e : SfsEntry) (offset flags : Nat) :
    (writeFileAt env buff d' n e offset flags).Keeps I := by
  have hW := writes_keep hI hd env
  refine (keepRules I).bind (resizeFile_holds hW n e _ flags) fun e => ?_
  refine (keepRules I).bind (writeLoop_keeps hI hd env _ _ _ _) fun status => ?_
  cases status with
  | some result => exact (keepRules I).pure _
  | none => exact (keepRules I).bind (setEntryTime_holds hW n) fun _ => (keepRules I).pure _

theorem deleteN_keeps (env : Env) : ∀ fuel n, (deleteN env fuel d' n).Keeps I
  | 0, _ => (keepRules I).noReturn
  | fuel + 1, n => by
    have hW := writes_keep hI hd env
    refine (keepRules I).bind (hW.reads.entry d' n) fun e => (keepRules I).bind (removeRefInEntry_holds hW _ _) fun _ => ?_
    have hrest : (keepRules I).Holds (if e.next.toNat ≠ 0 then deleteN env fuel d' e.next.toNat >>= fun _ => writeEntry env d' n Block.zero
        else writeEntry env d' n Block.zero) :=
      (keepRules I).ite (fun _ => (keepRules I).bind (deleteN_keeps env fuel _) fun _ => hW.write _ _) fun _ => hW.write _ _
    exact (keepRules I).ite (fun _ => (keepRules I).bind ((keepRules I).each fun m _ => deleteN_keeps env fuel m) fun _ => hrest)
      fun _ => hrest

/-- The format of another disk. -/
theorem formatEmpty_keeps (env : Env) : (formatEmpty env d').Keeps I := by
  have hW := writes_keep hI hd env
  have hcheck : ∀ {result : Nat} {x : FsM Unit}, x.Keeps I → (failIf (result ≠ noError) errorIo >>= fun _ => x).Keeps I := fun hx =>
    (keepRules I).bind ((keepRules I).failIf fun _ => trivial) fun _ => hx
  refine (keepRules I).bind (ioDiskReadBlock_keeps hI.quiet env _ _) fun _ => ?_
  refine hcheck ((keepRules I).bind (ioDiskWriteBlock_keeps hI hd env _ _) fun _ => ?_)
  refine hcheck ((keepRules I).bind (ioDiskWriteBlock_keeps hI hd env _ _) fun _ => ?_)
  exact hcheck ((keepRules I).bind (hW.write _ _) fun _ => (keepRules I).bind (setEntryTime_holds hW _) fun _ =>
    (keepRules I).each fun _ _ => hW.write _ _)

end Other

/-! ## Calls -/

section Calls

variable {I : Sys → Prop} {d : Nat} (hI : OnDisk I d) (env : Env)

include hI

/-- Going on after the disk of a path has been found. -/
theorem pathParse_bind_keeps {α : Type} {path : CStr} (hd : pathGetDisk env path ≠ d) {f : ParsedPath → FsM α}
    (hf : ∀ p, p.disk ≠ d → (f p).Keeps I) : (pathParseDiskParentName env path >>= f).Keeps I := by
  intro s hs
  have hparse : (pathParseDiskParentName env path).Keeps I := pathParse_holds (reads_keep hI.quiet env) path
  refine (hparse s hs).bind (fun _ h => h) fun p s' hrun => hf p ?_ s' ?_
  · rw [pathParse_disk env hrun]
    exact hd
  · have h := hparse s hs
    rw [hrun] at h
    exact h

theorem createFile_keeps {path : CStr} (hd : pathGetDisk env path ≠ d) : (createFile env path).Keeps I :=
  pathParse_bind_keeps hI env hd fun p hp =>
    (keepRules I).bind (findFreeEntry_holds (reads_keep hI.quiet env) p.disk) fun _ =>
      (keepRules I).bind ((writes_keep hI hp env).write _ _) fun _ =>
        (keepRules I).bind (addRefInEntry_holds (writes_keep hI hp env) _ _) fun _ => (keepRules I).pure _

theorem fsCreateDirectory_keeps {path : CStr} (hd : pathGetDisk env path ≠ d) : (fsCreateDirectory env path).Keeps I :=
  pathParse_bind_keeps hI env hd fun p hp =>
    (keepRules I).bind (checkNotExists_keeps hI.quiet env _ _ _) fun _ =>
      (keepRules I).bind (findFreeEntry_holds (reads_keep hI.quiet env) p.disk) fun _ =>
        (keepRules I).bind ((writes_keep hI hp env).write _ _) fun _ =>
          (keepRules I).bind (setEntryTime_holds (writes_keep hI hp env) _) fun _ =>
            (keepRules I).ite (fun _ => (keepRules I).bind (addRefInEntry_holds (writes_keep hI hp env) _ _) fun _ => (keepRules I).pure _)
              fun _ => (keepRules I).bind ((keepRules I).pure _) fun _ => (keepRules I).pure _

theorem fsDelete_keeps {path : CStr} (hd : pathGetDisk env path ≠ d) : (fsDelete env path).Keeps I :=
  (keepRules I).bind (fsGetEntry_holds (reads_keep hI.quiet env) _ _ _) fun _ =>
    (keepRules I).bind (deleteN_keeps hI hd env _ _) fun _ => (keepRules I).pure _

omit hI in
/-- What `checkSrcDst` finds is the entry of the source and the disk of the destination. -/
theorem checkSrcDst_eq_ok {srcpath dstpath : CStr} {p : ParsedPath} {name : CStr} {srcdisk n : Nat} {e : SfsEntry} {s' : Sys}
    (h : (checkSrcDst env srcpath dstpath).run s = .ok (p, name, srcdisk, n, e) s') :
    srcdisk = pathGetDisk env srcpath ∧ p.disk = pathGetDisk env dstpath := by
  obtain ⟨q, s₁, hparse, h⟩ := bind_eq_ok h
  obtain ⟨_, s₂, -, h⟩ := bind_eq_ok h
  obtain ⟨_, s₃, -, h⟩ := bind_eq_ok h
  cases h
  exact ⟨rfl, pathParse_disk env hparse⟩

/-- A move on another disk. -/
theorem fsMove_keeps {srcpath dstpath : CStr} (hsame : pathGetDisk env srcpath = pathGetDisk env dstpath)
    (hd : pathGetDisk env srcpath ≠ d) : (fsMove env srcpath dstpath).Keeps I := by
  intro s hs
  have hcheck := checkSrcDst_keeps hI.quiet env srcpath dstpath s hs
  refine hcheck.bind (fun _ h => h) fun ⟨p, name, srcdisk, n, e⟩ s' hrun => ?_
  rw [hrun] at hcheck
  obtain ⟨hsrc, hdst⟩ := checkSrcDst_eq_ok env hrun
  dsimp only
  rw [if_neg (not_not.2 (by rw [hsrc, hdst, hsame]))]
  have hsrcdisk : srcdisk ≠ d := hsrc ▸ hd
  have hdstdisk : p.disk ≠ d := by
    rw [hdst, ← hsame]
    exact hd
  exact (keepRules I).bind (removeRefInEntry_holds (writes_keep hI hsrcdisk env) _ _) (fun _ =>
    (keepRules I).bind ((writes_keep hI hdstdisk env).write _ _) fun _ =>
      (keepRules I).bind (addRefInEntry_holds (writes_keep hI hdstdisk env) _ _) fun _ => (keepRules I).pure _) s' hcheck

omit hI in
/-- The file that is opened is on the disk of the path. -/
theorem openFile_disk {path : CStr} {flags : Nat} {s s' : Sys} {a : Nat × Nat × SfsEntry × CStr}
    (h : (openFile env path flags).run s = .ok a s') : a.1 = pathGetDisk env path := by
  unfold openFile at h
  obtain ⟨found, s₁, -, h⟩ := bind_eq_ok h
  cases found with
  | ok p =>
    obtain ⟨_, s₂, -, h⟩ := bind_eq_ok h
    cases h
    rfl
  | error code =>
    obtain ⟨_, s₂, -, h⟩ := bind_eq_ok h
    obtain ⟨p, s₃, hparse, h⟩ := bind_eq_ok h
    obtain ⟨_, s₄, -, h⟩ := bind_eq_ok h
    obtain ⟨_, s₅, -, h⟩ := bind_eq_ok h
    obtain ⟨_, s₆, -, h⟩ := bind_eq_ok h
    cases h
    exact pathParse_disk env hparse

theorem openFile_keeps {path : CStr} (hd : pathGetDisk env path ≠ d) (flags : Nat) : (openFile env path flags).Keeps I := by
  refine (keepRules I).attempt (fsGetEntry_holds (reads_keep hI.quiet env) _ _ _) (fun p => ?_) (fun code _ => ?_) fun code hcode => ?_
  · exact (keepRules I).bind ((keepRules I).failIf fun _ => trivial) fun _ => (keepRules I).pure _
  · exact (keepRules I).bind ((keepRules I).failIf fun _ => trivial) fun _ => createFile_keeps hI env hd
  · have hne : code ≠ errorNotFound := hcode
    exact failIf_bind_of (Or.inl hne) _ _

theorem fsWriteFile_keeps {path : CStr} (hd : pathGetDisk env path ≠ d) (buff : List UInt8) (offset flags : Nat) :
    (fsWriteFile env buff path offset flags).Keeps I := by
  intro s hs
  have hopen := openFile_keeps hI env hd flags s hs
  refine hopen.bind (fun _ h => h) fun a s' hrun => ?_
  have hdisk : a.1 ≠ d := openFile_disk env hrun ▸ hd
  rw [hrun] at hopen
  exact (keepRules I).bind (writeFileAt_keeps hI hdisk env _ _ _ _ _) (fun _ => (keepRules I).pure _) s' hopen

end Calls

end NanoS32
