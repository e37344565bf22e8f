import NanoS32.Lemmas.Script
import NanoS32.Theorems.Read

/-!
# Executing a script

`cli_exec_file` reads a window of 72 bytes at the start of each line, and executes the line when it ends in the window. A last line
that the file ends in, without a newline, is taken for one that is too long.
-/

namespace NanoS32

open Prog

/-- The lines of a file: what its newlines end, and what follows the last of them. -/
def fileLines : List UInt8 → List CStr
  | [] => []
  | ch :: rest =>
    if ch = 10 then [] :: fileLines rest
    else
      match fileLines rest with
      | [] => [[ch]]
      | line :: lines => (ch :: line) :: lines

/-- A behaviour of `execute` that leaves the file at this path as it is. -/
def LeavesFile (env : Env) (path : CStr) (contents : List UInt8) (exec : CStr → CliM Unit) : Prop :=
  ∀ line c c', HasContents env path contents c.sys → (exec line).run c = .ok () c' → HasContents env path contents c'.sys

/-- For every behaviour of `execute` that leaves the file as it is, executing the file is executing its lines in order. -/
def ExecutesLines (env : Env) (path : CStr) (contents : List UInt8) (c : Cli) : Prop :=
  ∀ exec, LeavesFile env path contents exec → (cliExecScript env exec path).run c = (each exec (fileLines contents)).run c

/-! ## The lines of a file -/

/-- The text of lines that are ended. -/
def endedText (lines : List CStr) : List UInt8 := lines.flatMap fun line => line ++ [10]

theorem fileLines_cons {line : CStr} (h10 : (10 : UInt8) ∉ line) (rest : List UInt8) :
    fileLines (line ++ 10 :: rest) = line :: fileLines rest := by
  induction line with
  | nil => rfl
  | cons ch line ih =>
    obtain ⟨hch, hline⟩ := List.ne_and_not_mem_of_not_mem_cons h10
    rw [List.cons_append, fileLines, if_neg hch.symm, ih hline]

theorem fileLines_last {line : CStr} (hne : line ≠ []) (h10 : (10 : UInt8) ∉ line) : fileLines line = [line] := by
  induction line with
  | nil => exact absurd rfl hne
  | cons ch line ih =>
    obtain ⟨hch, hline⟩ := List.ne_and_not_mem_of_not_mem_cons h10
    rw [fileLines, if_neg hch.symm]
    cases line with
    | nil => rfl
    | cons ch' line => rw [ih (List.cons_ne_nil _ _) hline]

theorem fileLines_ended {lines : List CStr} (h10 : ∀ line ∈ lines, (10 : UInt8) ∉ line) (tail : List UInt8) :
    fileLines (endedText lines ++ tail) = lines ++ fileLines tail := by
  induction lines with
  | nil => rfl
  | cons line lines ih =>
    obtain ⟨hline, hlines⟩ := List.forall_mem_cons.1 h10
    have htext : endedText (line :: lines) ++ tail = line ++ 10 :: (endedText lines ++ tail) := by
      rw [endedText, List.flatMap_cons, List.append_assoc, List.append_assoc]
      rfl
    rw [htext, fileLines_cons hline, ih hlines]
    rfl

/-- Every file is lines that are ended, and a tail without a newline. -/
theorem exists_ended (contents : List UInt8) : ∃ lines tail, contents = endedText lines ++ tail ∧
    (∀ line ∈ lines, (10 : UInt8) ∉ line) ∧ (10 : UInt8) ∉ tail := by
  induction contents with
  | nil => exact ⟨[], [], rfl, by simp, by simp⟩
  | cons ch rest ih =>
    obtain ⟨lines, tail, rfl, hlines, htail⟩ := ih
    by_cases hch : ch = 10
    · refine ⟨[] :: lines, tail, by rw [hch]; rfl, ?_, htail⟩
      exact List.forall_mem_cons.2 ⟨List.not_mem_nil, hlines⟩
    · cases lines with
      | nil =>
        refine ⟨[], ch :: tail, rfl, hlines, ?_⟩
        exact List.not_mem_cons_of_ne_of_not_mem (Ne.symm hch) htail
      | cons line lines =>
        obtain ⟨hline, hlines⟩ := List.forall_mem_cons.1 hlines
        refine ⟨(ch :: line) :: lines, tail, rfl, List.forall_mem_cons.2 ⟨?_, hlines⟩, htail⟩
        exact List.not_mem_cons_of_ne_of_not_mem (Ne.symm hch) hline

/-! ## The turns of the loop -/

section Run

variable {env : Env} {path : CStr} {contents : List UInt8} {exec : CStr → CliM Unit}

theorem each_cons {σ α : Type} (f : α → Prog σ Unit) (a : α) (l : List α) : each f (a :: l) = f a >>= fun _ => each f l := rfl

/-- The loop executes the lines that are ended, each up to its first 0. -/
theorem scriptLoop_run (hexec : LeavesFile env path contents exec) (hsize : contents.length < 2 ^ 32) {tail : List UInt8}
    (htail : (10 : UInt8) ∉ tail) : ∀ (lines : List CStr) (c : Cli) (offset fuel : Nat), HasContents env path contents c.sys →
    contents.drop offset = endedText lines ++ tail → (∀ line ∈ lines, (10 : UInt8) ∉ line ∧ line.length ≤ 71) →
    lines.length < fuel →
    (scriptLoop env exec path fuel offset).run c = (each exec (lines.map fun line => line.takeWhile (· ≠ 0))).run c := by
  intro lines
  induction lines with
  | nil =>
    intro c offset fuel hc hdrop _ hfuel
    obtain ⟨fuel, rfl⟩ : ∃ f, fuel = f + 1 := ⟨fuel - 1, by omega⟩
    rw [scriptLoop_stop hc (by rw [hdrop]; exact htail)]
    rfl
  | cons line lines ih =>
    intro c offset fuel hc hdrop hlines hfuel
    obtain ⟨⟨h10, hlen⟩, hlines⟩ := List.forall_mem_cons.1 hlines
    rw [List.length_cons] at hfuel
    obtain ⟨fuel, rfl⟩ : ∃ f, fuel = f + 1 := ⟨fuel - 1, by omega⟩
    have hline : contents.drop offset = line ++ 10 :: (endedText lines ++ tail) := by
      rw [hdrop, endedText, List.flatMap_cons, List.append_assoc, List.append_assoc]
      rfl
    have hrest : contents.drop (offset + (line.length + 1)) = endedText lines ++ tail := by
      rw [← List.drop_drop, hline, ← List.singleton_append, ← List.append_assoc, ← List.length_singleton (a := (10 : UInt8)),
        ← List.length_append, List.drop_left]
    rw [scriptLoop_line hc hline h10 hlen hsize, List.map_cons, each_cons, run_bind, run_bind]
    cases hrun : (exec (line.takeWhile (· ≠ 0))).run c with
    | ok u c' => exact ih c' _ fuel (hexec _ c c' hc hrun) hrest hlines (by omega)
    | error code c' => rfl
    | stuck c' => rfl

/-! ## Telling the lines apart -/

/-- Counts the lines in a byte of the configuration. -/
def countLine (_ : CStr) : CliM Unit := Prog.update fun c => { c with localIp := fun i => c.localIp i + 1 }

/-- Does not return from a line with a 0 in it. -/
def stopAtZero (line : CStr) : CliM Unit := if (0 : UInt8) ∈ line then Prog.noReturn else pure ()

theorem countLine_leaves (env : Env) (path : CStr) (contents : List UInt8) : LeavesFile env path contents countLine := by
  intro line c c' hc hrun
  obtain ⟨-, rfl⟩ := Outcome.ok.inj hrun
  exact hc

theorem stopAtZero_leaves (env : Env) (path : CStr) (contents : List UInt8) : LeavesFile env path contents stopAtZero := by
  intro line c c' hc hrun
  unfold stopAtZero at hrun
  split_ifs at hrun
  · cases hrun
  · obtain ⟨-, rfl⟩ := Outcome.ok.inj hrun
    exact hc

theorem each_countLine (lines : List CStr) (c : Cli) :
    (each countLine lines).run c = .ok () { c with localIp := fun i => c.localIp i + UInt8.ofNat lines.length } := by
  induction lines generalizing c with
  | nil =>
    have hsame : (fun i => c.localIp i + UInt8.ofNat 0) = c.localIp := funext fun i => UInt8.add_zero _
    exact congrArg (fun ip => Outcome.ok () { c with localIp := ip }) hsame.symm
  | cons line lines ih =>
    have hsum : ∀ b : UInt8, b + 1 + UInt8.ofNat lines.length = b + UInt8.ofNat (lines.length + 1) := fun b => by
      rw [UInt8.ofNat_add, UInt8.add_assoc, UInt8.add_comm 1]
      rfl
    rw [each_cons, countLine, bind_ok (run_update _ _), ih]
    simp only [hsum, List.length_cons]

theorem each_stopAtZero (lines : List CStr) (c : Cli) :
    (each stopAtZero lines).run c = .ok () c ↔ ∀ line ∈ lines, (0 : UInt8) ∉ line := by
  induction lines with
  | nil => exact iff_of_true rfl (by simp)
  | cons line lines ih =>
    rw [List.forall_mem_cons, ← ih, each_cons, stopAtZero]
    split_ifs with h
    · refine iff_of_false (fun hrun => ?_) fun hline => hline.1 h
      cases hrun
    · exact (and_iff_right h).symm

/-! ## The script -/

/-- A file whose last line is not ended is not executed to its end. -/
theorem not_executesLines_tail {c : Cli} (hc : HasContents env path contents c.sys) (hsize : contents.length < 2 ^ 32)
    {lines : List CStr} {tail : List UInt8} (htext : contents = endedText lines ++ tail)
    (hlines : ∀ line ∈ lines, (10 : UInt8) ∉ line ∧ line.length ≤ 71) (htail : (10 : UInt8) ∉ tail) (hne : tail ≠ [])
    (hfuel : lines.length < env.fuel) : ¬ExecutesLines env path contents c := by
  intro h
  have hall := h countLine (countLine_leaves env path contents)
  have hrun := scriptLoop_run (countLine_leaves env path contents) hsize htail lines c 0 env.fuel hc htext hlines hfuel
  rw [cliExecScript, hrun, each_countLine, each_countLine, List.length_map, htext,
    fileLines_ended (fun line hline => (hlines line hline).1), fileLines_last hne htail, List.length_append,
    List.length_singleton] at hall
  have hip := congrFun (congrArg Cli.localIp (Outcome.ok.inj hall).2) 0
  have hbyte := congrArg UInt8.toNat (UInt8.add_right_inj (c.localIp 0) |>.1 hip)
  rw [UInt8.toNat_ofNat', UInt8.toNat_ofNat'] at hbyte
  omega

theorem endedText_getLast? {lines : List CStr} : endedText lines = [] ∨ (endedText lines).getLast? = some 10 := by
  rcases List.eq_nil_or_concat lines with rfl | ⟨l, line, rfl⟩
  · exact Or.inl rfl
  · right
    rw [endedText, List.concat_eq_append, List.flatMap_append, List.flatMap_singleton, ← List.append_assoc]
    exact List.getLast?_concat

/-- The file is executed line by line, to its end, just when its last line is ended and there is no 0 in it. -/
theorem cli_exec_file_lines {c : Cli} (hc : HasContents env path contents c.sys) (hsize : contents.length < 2 ^ 32)
    (hlines : ∀ line ∈ fileLines contents, line.length ≤ 71) (hfuel : (fileLines contents).length < env.fuel) :
    ExecutesLines env path contents c ↔ (contents = [] ∨ contents.getLast? = some 10) ∧ (0 : UInt8) ∉ contents := by
  obtain ⟨lines, tail, htext, h10, htail⟩ := exists_ended contents
  have hsplit : fileLines contents = lines ++ fileLines tail := by rw [htext, fileLines_ended h10]
  rw [hsplit, List.length_append] at hfuel
  rw [hsplit] at hlines
  have hended : ∀ line ∈ lines, (10 : UInt8) ∉ line ∧ line.length ≤ 71 := fun line hline =>
    ⟨h10 line hline, hlines line (List.mem_append_left _ hline)⟩
  by_cases hne : tail = []
  · subst hne
    rw [List.append_nil] at htext
    rw [show fileLines [] = [] from rfl, List.append_nil] at hsplit
    have hzero : (0 : UInt8) ∉ contents ↔ ∀ line ∈ lines, (0 : UInt8) ∉ line := by
      rw [htext, endedText]
      simp
    have hlast : contents = [] ∨ contents.getLast? = some 10 := by
      rw [htext]
      exact endedText_getLast?
    have hrun : ∀ exec, LeavesFile env path contents exec → (cliExecScript env exec path).run c =
        (each exec (lines.map fun line => line.takeWhile (· ≠ 0))).run c := fun exec hexec =>
      scriptLoop_run hexec hsize List.not_mem_nil lines c 0 env.fuel hc (by rw [htext, List.drop_zero, List.append_nil]) hended (by omega)
    rw [and_iff_right hlast, hzero]
    constructor
    · intro h
      have hall := h stopAtZero (stopAtZero_leaves env path contents)
      have hgo : (each stopAtZero (lines.map fun line => line.takeWhile (· ≠ 0))).run c = .ok () c := by
        rw [each_stopAtZero]
        intro line hline
        obtain ⟨l, -, rfl⟩ := List.mem_map.1 hline
        intro h0
        have hne := List.mem_takeWhile_imp (p := fun x : UInt8 => decide (x ≠ 0)) h0
        exact absurd hne (by decide)
      rw [hrun _ (stopAtZero_leaves env path contents), hgo, hsplit] at hall
      exact (each_stopAtZero lines c).1 hall.symm
    · intro h0 exec hexec
      have hsame : (lines.map fun line => line.takeWhile (· ≠ 0)) = lines := by
        refine (List.map_congr_left fun line hline => ?_).trans (List.map_id lines)
        exact List.takeWhile_eq_self_iff.2 fun x hx => decide_eq_true fun hx0 => h0 line hline (hx0 ▸ hx)
      rw [hrun exec hexec, hsame, hsplit]
  · refine iff_of_false (not_executesLines_tail hc hsize htext hended htail hne (by omega)) fun h => ?_
    rcases h.1 with hnil | hlast
    · rw [htext] at hnil
      exact hne (List.append_eq_nil_iff.1 hnil).2
    · rw [htext, List.getLast?_append_of_ne_nil _ hne] at hlast
      exact htail (List.mem_of_getLast? hlast)

end Run

/-! ## Files -/

/-- A regular file of a well-formed disk has its contents. -/
theorem hasContents_file {env : Env} {s : Sys} {d : Nat} {C : Nat → List Nat} (hr : Ready env s d)
    (hw : Vol.WellFormed (s.disk d) C) {path : CStr} (hd : pathGetDisk env path = d) {h : Nat} {entry : SfsEntry}
    (hfind : (fsGetEntry env path unknownValue unknownValue).run s = .ok (h, entry) s) (hh : C h ≠ [])
    (hfile : entry.flags = tFile) : HasContents env path (Vol.contents (s.disk d) (C h) entry.size.toNat) s := by
  have hlen : (Vol.contents (s.disk d) (C h) entry.size.toNat).length = entry.size.toNat := by
    obtain ⟨bytes, -, hn, hbytes⟩ := fs_read_file_contents hr hw hd hfind hh hfile 0 entry.size.toNat
    have hle : (Vol.contents (s.disk d) (C h) entry.size.toNat).length ≤ entry.size.toNat := List.length_take_le _ _
    rw [Nat.zero_min, Nat.sub_zero, Nat.min_self] at hn
    rw [Nat.zero_min, List.drop_zero, hn] at hbytes
    rw [hbytes, List.length_take] at hn
    omega
  intro offset count
  obtain ⟨bytes, hrun, hn, hbytes⟩ := fs_read_file_contents hr hw hd hfind hh hfile offset count
  rw [hrun, hbytes, hn]
  congr 1
  generalize Vol.contents (s.disk d) (C h) entry.size.toNat = l at hlen ⊢
  rw [← hlen]
  rcases Nat.le_total offset l.length with hle | hge
  · rw [Nat.min_eq_left hle]
    rcases Nat.le_total count (l.length - offset) with hc | hc
    · rw [Nat.min_eq_left hc]
    · rw [Nat.min_eq_right hc, List.take_of_length_le (by rw [List.length_drop]),
        List.take_of_length_le (by rw [List.length_drop]; exact hc)]
  · rw [Nat.min_eq_right hge, List.drop_length, List.drop_eq_nil_of_le hge, List.take_nil, List.take_nil]

theorem sampleSys_contents : HasContents sampleEnv [102] [10, 20, 30] sampleSys := by
  have hdisk : pathGetDisk sampleEnv [102] = 2 := by decide
  have hfind : (fsGetEntry sampleEnv [102] unknownValue unknownValue).run sampleSys =
      .ok (1, Vol.ent (sampleSys.disk 2) 1) sampleSys := by
    have hrun := fsGetEntry_run sampleSys_ready sampleSys_wellFormed.geo hdisk
    have hres : Vol.resolve (sampleSys.disk 2) sampleEnv [102] = some 1 := by decide +kernel
    rwa [hres, Sys.withVol_self] at hrun
  have hcontents : Vol.contents (sampleSys.disk 2) (Vol.flatChains (sampleSys.disk 2) 1)
      (Vol.ent (sampleSys.disk 2) 1).size.toNat = [10, 20, 30] := by
    decide +kernel
  have hfile := hasContents_file sampleSys_ready sampleSys_wellFormed hdisk hfind (by decide +kernel) (by decide +kernel)
  rwa [hcontents] at hfile

theorem cli_exec_file_lines_sample : ExecutesLines sampleEnv [102] [10, 20, 30] ⟨sampleSys, fun _ => 10, fun _ => 10⟩ ↔
    (([10, 20, 30] : List UInt8) = [] ∨ ([10, 20, 30] : List UInt8).getLast? = some 10) ∧ (0 : UInt8) ∉ [10, 20, 30] :=
  cli_exec_file_lines sampleSys_contents (by decide) (by decide) (by decide)

/-- The file of the small machine ends in a line without a newline, which is not executed. -/
theorem cli_exec_file_last_line : HasContents sampleEnv [102] [10, 20, 30] sampleSys ∧
    (∀ line ∈ fileLines [10, 20, 30], line.length ≤ 71) ∧
    ¬ExecutesLines sampleEnv [102] [10, 20, 30] ⟨sampleSys, fun _ => 10, fun _ => 10⟩ :=
  ⟨sampleSys_contents, by decide,
    not_executesLines_tail sampleSys_contents (by decide) (show [10, 20, 30] = endedText [[]] ++ [20, 30] from rfl) (by decide)
      (by decide) (by decide) (by decide)⟩

end NanoS32
