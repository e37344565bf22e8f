import NanoS32.Fs.Dir

/-!
# What holds of every function that only touches the table

A property of programs that holds of the accesses to one entry, and that the constructions of a program keep, holds of the
functions of the file system that work on the table. There is one lemma for each function, about any such property.
-/

namespace NanoS32

open Prog

/-- The property holds of the reads of the table, and any special error code may be failed with. -/
structure Reads (R : Rules Sys) (env : Env) : Prop where
  high : ∀ code, errorAny ≤ code → R.Fails code
  quiet : ∀ code, R.Quiet code ↔ code = errorNotFound
  super : ∀ d, R.Holds (readSuper env d)
  entry : ∀ d n, R.Holds (getEntryN env d n)

/-- It holds of the writes to the table of disk `d`, and of readings of the clock. -/
structure Writes (R : Rules Sys) (env : Env) (d : Nat) : Prop where
  reads : Reads R env
  write : ∀ n e, R.Holds (writeEntry env d n e)
  clock : R.Holds getDatetime

section Read

variable {R : Rules Sys} {env : Env} (hF : Reads R env) (d : Nat)

include hF

theorem findEntryFrom_holds (parent : Nat) (name : CStr) : ∀ k n, R.Holds (findEntryFrom env d parent name k n)
  | 0, _ => R.fail (hF.high _ (by decide))
  | k + 1, n =>
    R.bind (hF.entry d n) fun _ =>
      R.ite (fun _ => R.pure _) fun _ => findEntryFrom_holds parent name k (n + 1)

theorem findEntry_holds (parent : Nat) (name : CStr) : R.Holds (findEntry env d parent name) :=
  R.bind (hF.super d) fun _ => findEntryFrom_holds hF d parent name _ _

theorem findFreeEntryFrom_holds : ∀ k n, R.Holds (findFreeEntryFrom env d k n)
  | 0, _ => R.fail (hF.high _ (by decide))
  | k + 1, n =>
    R.bind (hF.entry d n) fun _ =>
      R.ite (fun _ => findFreeEntryFrom_holds k (n + 1)) fun _ => R.pure _

theorem findFreeEntry_holds : R.Holds (findFreeEntry env d) :=
  R.bind (hF.super d) fun _ => findFreeEntryFrom_holds hF d _ _

theorem blockFoundFrom_holds (block : Nat) : ∀ k n, R.Holds (blockFoundFrom env d block k n)
  | 0, _ => R.pure _
  | k + 1, n =>
    R.bind (hF.entry d n) fun _ =>
      R.ite (fun _ => R.pure _) fun _ => blockFoundFrom_holds block k (n + 1)

theorem findFreeBlockFrom_holds (nentries : Nat) : ∀ k block, R.Holds (findFreeBlockFrom env d nentries k block)
  | 0, _ => R.fail (hF.high _ (by decide))
  | k + 1, block =>
    R.bind (blockFoundFrom_holds hF d block _ _) fun _ =>
      R.ite (fun _ => findFreeBlockFrom_holds nentries k (block + 1)) fun _ => R.pure _

theorem findFreeBlock_holds : R.Holds (findFreeBlock env d) :=
  R.bind (hF.super d) fun _ => findFreeBlockFrom_holds hF d _ _ _

theorem pathParseLoop_holds : ∀ fuel n pos rest p, R.Holds (pathParseLoop env fuel n pos rest p)
  | 0, _, _, _, _ => R.pure _
  | fuel + 1, n, pos, rest, p => by
    rw [pathParseLoop]
    refine R.ite (fun _ => R.pure _) fun _ => ?_
    refine R.ite (fun _ => pathParseLoop_holds fuel _ _ _ _) fun _ => ?_
    refine R.ite (fun _ => ?_) fun _ => R.pure _
    exact R.bind (findEntry_holds hF _ _ _) fun _ => pathParseLoop_holds fuel _ _ _ _

theorem pathParse_holds (path : CStr) : R.Holds (pathParseDiskParentName env path) :=
  pathParseLoop_holds hF _ _ _ _ _

theorem fsGetEntry_holds (path : CStr) (parent disk : Nat) : R.Holds (fsGetEntry env path parent disk) := by
  unfold fsGetEntry
  refine R.ite (fun _ => ?_) fun _ => ?_
  · exact R.bind (pathParse_holds hF _) fun _ => findEntry_holds hF _ _ _
  · exact findEntry_holds hF _ _ _

theorem advanceEntry_holds : ∀ k n e, R.Holds (advanceEntry env d k n e)
  | 0, _, _ => R.pure _
  | k + 1, _, _ =>
    R.ite (fun _ => R.bind (hF.entry d _) fun _ => advanceEntry_holds k _ _) fun _ => R.fail (hF.high _ (by decide))

end Read

section Write

variable {R : Rules Sys} {env : Env} {d : Nat} (hF : Writes R env d)

include hF

theorem setTimeLoop_holds (t : Nat) : ∀ fuel n, R.Holds (setTimeLoop env d t fuel n)
  | 0, _ => R.noReturn
  | fuel + 1, n =>
    R.bind (hF.reads.entry d n) fun _ =>
      R.bind (hF.write _ _) fun _ =>
        R.bind (R.failIf fun _ => hF.reads.high _ (by decide)) fun _ =>
          R.ite (fun _ => setTimeLoop_holds t fuel _) fun _ => R.pure _

theorem setEntryTime_holds (n : Nat) : R.Holds (setEntryTimeToCurrent env d n) :=
  R.bind hF.clock fun _ => setTimeLoop_holds hF _ _ _

theorem extendChain_holds : ∀ k n e, R.Holds (extendChain env d k n e)
  | 0, _, _ => R.pure _
  | k + 1, _, _ =>
    R.ite
      (fun _ => R.bind (hF.reads.entry d _) fun _ => extendChain_holds k _ _)
      fun _ =>
        R.bind (findFreeEntry_holds hF.reads d) fun _ =>
          R.bind (hF.write _ _) fun _ =>
            R.bind (hF.write _ _) fun _ => extendChain_holds k _ _

theorem deleteChain_holds : ∀ fuel n, R.Holds (deleteChain env d fuel n)
  | 0, _ => R.noReturn
  | fuel + 1, n =>
    R.bind (hF.reads.entry d n) fun _ =>
      R.bind (hF.write _ _) fun _ =>
        R.ite (fun _ => deleteChain_holds fuel _) fun _ => R.pure _

theorem setEntryRefcount_holds (n r : Nat) : R.Holds (setEntryRefcount env d n r) :=
  R.bind (hF.reads.entry d n) fun _ =>
    R.bind (extendChain_holds hF _ _ _) fun _ =>
      R.bind (hF.write _ _) fun _ =>
        R.ite
          (fun _ => R.bind (hF.write _ _) fun _ => deleteChain_holds hF _ _)
          fun _ => R.pure _

theorem setSizeLoop_holds : ∀ fuel n size, R.Holds (setSizeLoop env d fuel n size)
  | 0, _, _ => R.noReturn
  | fuel + 1, n, _ =>
    R.bind (hF.reads.entry d n) fun _ =>
      R.bind (hF.write _ _) fun _ =>
        R.bind (R.failIf fun _ => hF.reads.high _ (by decide)) fun _ =>
          R.ite (fun _ => setSizeLoop_holds fuel _ _) fun _ => R.pure _

theorem addRefInEntry_holds (n ref : Nat) : R.Holds (addRefInEntry env d n ref) := by
  refine R.bind (hF.reads.entry d n) fun _ => R.attempt (advanceEntry_holds hF.reads d _ _ _) (fun p => ?_) (fun code hq => ?_)
    fun code hq => ?_
  · refine R.bind (R.pure _) fun _ => R.bind (hF.write _ _) fun _ => ?_
    exact R.ite (fun _ => setSizeLoop_holds hF _ _ _) fun _ => R.pure _
  · refine R.bind (R.failIf fun h => absurd ((hF.reads.quiet code).1 hq) h) fun _ => ?_
    refine R.bind (setEntryRefcount_holds hF _ _) fun _ => R.bind (hF.reads.entry d _) fun _ => R.bind (R.pure _) fun _ => ?_
    refine R.bind (hF.write _ _) fun _ => ?_
    exact R.ite (fun _ => setSizeLoop_holds hF _ _ _) fun _ => R.pure _
  · have hne : code ≠ errorNotFound := fun h => hq ((hF.reads.quiet code).2 h)
    exact failIf_bind_of hne _ _

theorem removeRefLoop_holds (ref : Nat) : ∀ fuel r st, R.Holds (removeRefLoop env d ref fuel r st)
  | 0, _, _ => R.noReturn
  | fuel + 1, r, st => by
    have hrest := fun r st => removeRefLoop_holds ref fuel r st
    rw [removeRefLoop]
    repeat' first
      | exact R.pure _
      | exact hrest _ _
      | exact hF.write _ _
      | exact hF.reads.entry d _
      | refine R.ite (fun _ => ?_) fun _ => ?_
      | refine R.bind ?_ fun _ => ?_

theorem removeRefInEntry_holds (n ref : Nat) : R.Holds (removeRefInEntry env d n ref) :=
  R.bind (hF.reads.entry d n) fun _ =>
    R.bind (removeRefLoop_holds hF ref _ _ _) fun _ =>
      R.ite
        (fun _ => R.bind (hF.write _ _) fun _ =>
          R.bind (setEntryRefcount_holds hF _ _) fun _ =>
            R.ite (fun _ => setSizeLoop_holds hF _ _ _) fun _ => R.pure _)
        fun _ => R.pure _

theorem growSkip_holds : ∀ k n e, R.Holds (growSkip env d k n e)
  | 0, _, _ => R.pure _
  | k + 1, _, _ =>
    R.bind (hF.write _ _) fun _ =>
      R.bind (hF.reads.entry d _) fun _ => growSkip_holds k _ _

theorem growLoop_holds : ∀ n current k e, R.Holds (growLoop env d n current k e)
  | 0, _, _, _ => R.pure _
  | n + 1, _, _, _ =>
    R.bind (growSkip_holds hF _ _ _) fun _ =>
      R.bind (findFreeBlock_holds hF.reads d) fun _ =>
        R.bind (R.failIf (hF.reads.high _)) fun _ => growLoop_holds n _ _ _

theorem growFile_holds (n : Nat) (e : SfsEntry) (size : Nat) : R.Holds (growFile env d n e size) :=
  R.bind (setEntryRefcount_holds hF _ _) fun _ =>
    R.bind (setSizeLoop_holds hF _ _ _) fun _ =>
      R.bind (hF.reads.entry d _) fun _ =>
        R.bind (growLoop_holds hF _ _ _ _) fun _ =>
          R.bind (hF.write _ _) fun _ => hF.reads.entry d _

theorem shrinkFile_holds (n size : Nat) : R.Holds (shrinkFile env d n size) :=
  R.bind (setEntryRefcount_holds hF _ _) fun _ =>
    R.bind (setSizeLoop_holds hF _ _ _) fun _ => hF.reads.entry d _

theorem writeSkip_holds : ∀ k e offset block, R.Holds (writeSkip env d k e offset block)
  | 0, _, _, _ => R.pure _
  | k + 1, _, _, _ =>
    R.ite (fun _ => R.fail (hF.reads.high _ (by decide))) fun _ =>
      R.bind (hF.reads.entry d _) fun _ => writeSkip_holds k _ _ _

theorem resizeFile_holds (n : Nat) (e : SfsEntry) (last flags : Nat) : R.Holds (resizeFile env d n e last flags) := by
  unfold resizeFile
  refine R.ite (fun _ => ?_) fun _ => ?_
  · exact R.bind (growFile_holds hF _ _ _) fun _ => R.ite (fun _ => shrinkFile_holds hF _ _) fun _ => R.pure _
  · exact R.bind (R.pure _) fun _ => R.ite (fun _ => shrinkFile_holds hF _ _) fun _ => R.pure _

end Write

section Open

variable {R : Rules Sys} {env : Env} (hF : ∀ d, Writes R env d)

include hF

theorem createFile_holds (path : CStr) : R.Holds (createFile env path) :=
  R.bind (pathParse_holds (hF 0).reads path) fun p =>
    R.bind (findFreeEntry_holds (hF 0).reads p.disk) fun _ =>
      R.bind ((hF p.disk).write _ _) fun _ =>
        R.bind (addRefInEntry_holds (hF p.disk) _ _) fun _ => R.pure _

theorem openFile_holds (path : CStr) (flags : Nat) : R.Holds (openFile env path flags) := by
  refine R.attempt (fsGetEntry_holds (hF 0).reads _ _ _) (fun p => ?_) (fun code hq => ?_) fun code hq => ?_
  · exact R.bind (R.failIf fun _ => (hF 0).reads.high _ (by decide)) fun _ => R.pure _
  · refine R.bind (R.failIf fun _ => ?_) fun _ => createFile_holds hF path
    rw [((hF 0).reads.quiet code).1 hq]
    exact (hF 0).reads.high _ (by decide)
  · have hne : code ≠ errorNotFound := fun h => hq (((hF 0).reads.quiet code).2 h)
    exact failIf_bind_of (Or.inl hne) _ _

end Open

end NanoS32
