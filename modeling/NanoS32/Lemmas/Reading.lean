import NanoS32.Fs.Dir
import NanoS32.Lemmas.Path
import NanoS32.Lemmas.Rules
import NanoS32.Lemmas.Sector

/-!
# Calls that only read

When no transfer fails, the calls that only read leave the machine as it is. A disk on which nothing is found, and which has no
free entry, is one that no call changes.
-/

namespace NanoS32

open Prog

section Keep

variable {I : Sys → Prop}

/-- The rules for programs that keep `I`. -/
def keepRules (I : Sys → Prop) : Rules Sys := Rules.keeps I errorNotFound

theorem readSector_keeps (hI : ∀ s, I s → s.faults = []) (d k : Nat) : (readSector d k).Keeps I := by
  intro s hs
  rw [readSector_quiet (hI s hs)]
  exact hs

theorem ioDiskReadBlock_keeps (hI : ∀ s, I s → s.faults = []) (env : Env) (d k : Nat) : (ioDiskReadBlock env d k).Keeps I :=
  (keepRules I).ite (fun _ => (keepRules I).pure _) fun _ => readSector_keeps hI d k

/-- Reading the table keeps what says that no transfer fails. -/
theorem reads_keep (hI : ∀ s, I s → s.faults = []) (env : Env) : Reads (keepRules I) env := by
  refine ⟨fun _ _ => trivial, fun _ => Iff.rfl, fun d => ?_, fun d n => ?_⟩
  · exact (keepRules I).bind (ioDiskReadBlock_keeps hI env d _) fun _ =>
      (keepRules I).bind ((keepRules I).failIf fun _ => trivial) fun _ => (keepRules I).pure _
  · exact (keepRules I).bind (ioDiskReadBlock_keeps hI env d _) fun _ =>
      (keepRules I).bind ((keepRules I).failIf fun _ => trivial) fun _ =>
        (keepRules I).bind ((keepRules I).failIf fun _ => trivial) fun _ => (keepRules I).pure _

theorem diskReadSector_keeps (hI : ∀ s, I s → s.faults = []) (d : Nat) : ∀ n k, (diskReadSector d k n).Keeps I
  | 0, _ => (keepRules I).pure _
  | n + 1, k =>
    (keepRules I).bind (readSector_keeps hI d k) fun _ =>
      (keepRules I).ite (fun _ => (keepRules I).pure _) fun _ =>
        (keepRules I).bind (diskReadSector_keeps hI d n (wrap32 (k + 1))) fun _ => (keepRules I).pure _

theorem readDisk_keeps (hI : ∀ s, I s → s.faults = []) (env : Env) (d block offset size : Nat) :
    (readDisk env d block offset size).Keeps I := by
  refine (keepRules I).ite (fun _ => (keepRules I).pure _) fun _ => ?_
  have hread : ∀ k n, (keepRules I).Holds (diskReadSector d k n) := fun k n => diskReadSector_keeps hI d n k
  refine (keepRules I).ite (fun _ => (keepRules I).bind ((keepRules I).pure _) ?_) fun _ => (keepRules I).bind (hread _ _) ?_
  · rintro ⟨result, head⟩
    refine (keepRules I).ite (fun _ => (keepRules I).bind (hread _ _) ?_) fun _ => (keepRules I).bind ((keepRules I).pure _) ?_
    all_goals
      rintro ⟨result, body⟩
      exact (keepRules I).ite (fun _ => (keepRules I).bind (hread _ _) fun _ => (keepRules I).pure _) fun _ => (keepRules I).pure _
  · rintro ⟨result, buff⟩
    refine (keepRules I).bind ((keepRules I).pure _) ?_
    rintro ⟨result, head⟩
    refine (keepRules I).ite (fun _ => (keepRules I).bind (hread _ _) ?_) fun _ => (keepRules I).bind ((keepRules I).pure _) ?_
    all_goals
      rintro ⟨result, body⟩
      exact (keepRules I).ite (fun _ => (keepRules I).bind (hread _ _) fun _ => (keepRules I).pure _) fun _ => (keepRules I).pure _

theorem readLoop_keeps (hI : ∀ s, I s → s.faults = []) (env : Env) (d n : Nat) (e : SfsEntry) :
    ∀ fuel block offset count, (readLoop env d n e fuel block offset count).Keeps I
  | 0, _, _, _ => (keepRules I).pure _
  | fuel + 1, block, offset, count => by
    refine (keepRules I).ite (fun _ => (keepRules I).pure _) fun _ => ?_
    refine (keepRules I).bind (advanceEntry_holds (reads_keep hI env) d _ _ _) fun _ => ?_
    refine (keepRules I).bind (readDisk_keeps hI env d _ _ _) ?_
    rintro ⟨result, bytes⟩
    refine (keepRules I).bind ((keepRules I).failIf fun _ => trivial) fun _ => ?_
    exact (keepRules I).bind (readLoop_keeps hI env d n e fuel _ _ _) fun _ => (keepRules I).pure _

/-- `fs_read_file` keeps what says that no transfer fails. -/
theorem fsReadFile_keeps (hI : ∀ s, I s → s.faults = []) (env : Env) (path : CStr) (offset count : Nat) :
    (fsReadFile env path offset count).Keeps I := by
  refine (keepRules I).bind (fsGetEntry_holds (reads_keep hI env) _ _ _) ?_
  rintro ⟨n, e⟩
  exact (keepRules I).bind ((keepRules I).failIf fun _ => trivial) fun _ => readLoop_keeps hI env _ _ _ _ _ _ _

theorem checkNotExists_keeps (hI : ∀ s, I s → s.faults = []) (env : Env) (d parent : Nat) (name : CStr) :
    (checkNotExists env d parent name).Keeps I := by
  refine (keepRules I).attempt (fsGetEntry_holds (reads_keep hI env) _ _ _) (fun _ => (keepRules I).fail trivial)
    (fun code _ => (keepRules I).failIf fun _ => trivial) fun code hcode => ?_
  have hne : code ≠ errorNotFound := hcode
  refine Prog.ext fun s => ?_
  rw [run_failIf, if_pos hne, run_fail]

theorem checkSrcDst_keeps (hI : ∀ s, I s → s.faults = []) (env : Env) (srcpath dstpath : CStr) :
    (checkSrcDst env srcpath dstpath).Keeps I :=
  (keepRules I).bind (pathParse_holds (reads_keep hI env) _) fun _ =>
    (keepRules I).bind (checkNotExists_keeps hI env _ _ _) fun _ =>
      (keepRules I).bind (fsGetEntry_holds (reads_keep hI env) _ _ _) fun _ => (keepRules I).pure _

end Keep

/-! ## Disks on which nothing is found -/

/-- The disk is not there, or its table has no entries. -/
def NoEntries (env : Env) (s : Sys) (d : Nat) : Prop :=
  (env.diskInfo d).size = 0 ∨ Ready env s d ∧ Vol.nent (s.disk d) = 0

section Dead

variable {env : Env} {s : Sys} {d : Nat}

theorem readSuper_dead {α : Type} (h : NoEntries env s d) {f : SfsSuperblock → FsM α}
    (hf : ∀ sb, sb.nentries = 0 → ((f sb).run s).FailsAt s) : ((readSuper env d >>= f).run s).FailsAt s := by
  rcases h with h0 | ⟨hr, hn⟩
  · have hrun : (readSuper env d).run s = .error errorIo s := by
      unfold readSuper ioDiskReadBlock
      rw [if_pos h0, bind_ok (run_pure _ _), run_failIf_bind, if_pos (by decide)]
    rw [bind_error hrun]
    rfl
  · have hrun := readSuper_run hr (s.disk d)
    rw [Sys.withVol_self] at hrun
    rw [bind_ok hrun]
    exact hf _ hn

theorem findEntry_dead (h : NoEntries env s d) (parent : Nat) (name : CStr) :
    ((findEntry env d parent name).run s).FailsAt s := by
  refine readSuper_dead h fun sb hsb => ?_
  rw [hsb]
  rfl

theorem findFreeEntry_dead (h : NoEntries env s d) : ((findFreeEntry env d).run s).FailsAt s := by
  refine readSuper_dead h fun sb hsb => ?_
  rw [hsb]
  rfl

theorem fsGetEntry_dead (hs : s.faults = []) {path : CStr} (h : NoEntries env s (pathGetDisk env path)) :
    ((fsGetEntry env path unknownValue unknownValue).run s).FailsAt s := by
  have hI : ∀ t, t = s → t.faults = [] := fun t ht => ht ▸ hs
  unfold fsGetEntry
  cases hdisk : stringIsDisk path with
  | true =>
    have hlt := stringToDisk_lt hdisk
    have hne : stringToDisk path ≠ unknownValue := by
      simp only [maxDisk] at hlt
      simp only [unknownValue]
      omega
    have hsep : pathSeparator ∉ rootDirName := by decide
    rw [pathGetDisk_of_isDisk env hdisk] at h
    simp only [and_self, if_true, hne, if_false, hsep, and_false]
    exact findEntry_dead h 0 rootDirName
  | false =>
    simp only [Bool.false_eq_true, and_false, if_false, if_true, true_and]
    by_cases hsep : pathSeparator ∈ path
    · rw [if_pos hsep]
      refine Outcome.FailsAt.bind_keeps (pathParse_holds (reads_keep hI env) _) fun p hp => ?_
      rw [pathParse_disk env hp]
      exact findEntry_dead h _ _
    · rw [if_neg hsep]
      rw [pathGetDisk_of_not_mem env hdisk hsep] at h
      exact findEntry_dead h 0 path

theorem openFile_dead (hs : s.faults = []) {path : CStr} (h : NoEntries env s (pathGetDisk env path)) (flags : Nat) :
    ((openFile env path flags).run s).FailsAt s := by
  have hI : ∀ t, t = s → t.faults = [] := fun t ht => ht ▸ hs
  have hget := fsGetEntry_dead hs h
  unfold openFile
  cases hr : (fsGetEntry env path unknownValue unknownValue).run s with
  | ok a s' =>
    rw [hr] at hget
    exact hget.elim
  | error code s' =>
    rw [hr] at hget
    obtain rfl : s' = s := hget
    rw [bind_ok (attempt_error hr)]
    dsimp only
    rw [run_failIf_bind]
    split_ifs
    · rfl
    · refine Outcome.FailsAt.bind_keeps (pathParse_holds (reads_keep hI env) _) fun p hp => ?_
      rw [pathParse_disk env hp]
      exact Outcome.FailsAt.bind (findFreeEntry_dead h)
  | stuck s' =>
    simp only [run_bind, Prog.attempt, hr]
    trivial

theorem fsWriteFile_dead (hs : s.faults = []) {path : CStr} (h : NoEntries env s (pathGetDisk env path))
    (buff : List UInt8) (offset flags : Nat) :
    ((fsWriteFile env buff path offset flags).run s).FailsAt s :=
  Outcome.FailsAt.bind (openFile_dead hs h flags)

theorem fsDelete_dead (hs : s.faults = []) {path : CStr} (h : NoEntries env s (pathGetDisk env path)) :
    ((fsDelete env path).run s).FailsAt s :=
  Outcome.FailsAt.bind (fsGetEntry_dead hs h)

theorem fsCreateDirectory_dead (hs : s.faults = []) {path : CStr} (h : NoEntries env s (pathGetDisk env path)) :
    ((fsCreateDirectory env path).run s).FailsAt s := by
  have hI : ∀ t, t = s → t.faults = [] := fun t ht => ht ▸ hs
  refine Outcome.FailsAt.bind_keeps (pathParse_holds (reads_keep hI env) _) fun p hp => ?_
  refine Outcome.FailsAt.bind_keeps (checkNotExists_keeps hI env _ _ _) fun _ _ => ?_
  rw [pathParse_disk env hp]
  exact Outcome.FailsAt.bind (findFreeEntry_dead h)

theorem fsMove_dead (hs : s.faults = []) {srcpath dstpath : CStr} (h : NoEntries env s (pathGetDisk env srcpath)) :
    ((fsMove env srcpath dstpath).run s).FailsAt s := by
  have hI : ∀ t, t = s → t.faults = [] := fun t ht => ht ▸ hs
  refine Outcome.FailsAt.bind ?_
  refine Outcome.FailsAt.bind_keeps (pathParse_holds (reads_keep hI env) _) fun p _ => ?_
  refine Outcome.FailsAt.bind_keeps (checkNotExists_keeps hI env _ _ _) fun _ _ => ?_
  exact Outcome.FailsAt.bind (fsGetEntry_dead hs h)

end Dead

end NanoS32
