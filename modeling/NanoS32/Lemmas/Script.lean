import Mathlib.Data.List.TakeWhile
import NanoS32.Cli.Config

/-!
# The loop of a script

The turns of the loop of `cli_exec_file`, for any behaviour of `execute`: one with a line that ends in the window, and the last.
-/

namespace NanoS32

open Prog

/-- The file at this path has these contents. -/
def HasContents (env : Env) (path : CStr) (contents : List UInt8) (s : Sys) : Prop :=
  ∀ offset count, (fsReadFile env path offset count).run s = .ok ((contents.drop offset).take count) s

section Loop

variable {env : Env} {path : CStr} {contents : List UInt8} {exec : CStr → CliM Unit}

theorem CliM.fs_ok {α : Type} {x : FsM α} {a : α} {s s' : Sys} (ip gate : Ip) (h : x.run s = .ok a s') :
    (CliM.fs x).run ⟨s, ip, gate⟩ = .ok a ⟨s', ip, gate⟩ := by
  simp only [CliM.fs, h]

theorem CliM.run_fs {α : Type} {x : FsM α} {a : α} {c : Cli} (h : x.run c.sys = .ok a c.sys) : (CliM.fs x).run c = .ok a c :=
  CliM.fs_ok c.localIp c.localGate h

/-- A turn whose line ends in the window. -/
theorem scriptLoop_line {c : Cli} (hc : HasContents env path contents c.sys) {offset : Nat} {line : CStr} {rest : List UInt8}
    (hline : contents.drop offset = line ++ 10 :: rest) (h10 : (10 : UInt8) ∉ line) (hlen : line.length ≤ 71)
    (hsize : contents.length < 2 ^ 32) (fuel : Nat) :
    (scriptLoop env exec path (fuel + 1) offset).run c =
      (exec (line.takeWhile (· ≠ 0)) >>= fun _ => scriptLoop env exec path fuel (offset + (line.length + 1))).run c := by
  have hall : ∀ x ∈ line, decide (x ≠ 10) = true := fun x hx => decide_eq_true fun hx10 => h10 (hx10 ▸ hx)
  have htake : (contents.drop offset).take 72 = line ++ 10 :: rest.take (71 - line.length) := by
    have hroom : 72 - line.length = 71 - line.length + 1 := by omega
    rw [hline, List.take_append, List.take_of_length_le (by omega), hroom, List.take_succ_cons]
  have hstop : ((line ++ 10 :: rest.take (71 - line.length)).takeWhile (· ≠ 10)) = line := by
    rw [List.takeWhile_append_of_pos hall]
    simp
  have hmore : ¬(line ++ 10 :: rest.take (71 - line.length) = [] ∨
      line.length = (line ++ 10 :: rest.take (71 - line.length)).length) := by
    rw [List.length_append, List.length_cons]
    rintro (hnil | hend)
    · exact absurd hnil (List.append_ne_nil_of_right_ne_nil _ (List.cons_ne_nil _ _))
    · omega
  have hoffset : wrap32 (offset + (1 + line.length)) = offset + (line.length + 1) := by
    have hrest := congrArg List.length hline
    rw [List.length_drop, List.length_append, List.length_cons] at hrest
    rw [Nat.add_comm 1]
    exact Nat.mod_eq_of_lt (by omega)
  rw [scriptLoop, bind_ok (CliM.run_fs (attempt_ok (hc offset 72)))]
  simp only [htake, hstop]
  rw [if_neg hmore, List.take_left, hoffset]

/-- The last turn, where no newline is left. -/
theorem scriptLoop_stop {c : Cli} (hc : HasContents env path contents c.sys) {offset : Nat}
    (h10 : (10 : UInt8) ∉ contents.drop offset) (fuel : Nat) : (scriptLoop env exec path (fuel + 1) offset).run c = .ok () c := by
  have hnone : ((contents.drop offset).take 72).takeWhile (· ≠ 10) = (contents.drop offset).take 72 :=
    List.takeWhile_eq_self_iff.2 fun x hx => decide_eq_true fun hx10 => h10 (hx10 ▸ List.mem_of_mem_take hx)
  rw [scriptLoop, bind_ok (CliM.run_fs (attempt_ok (hc offset 72)))]
  simp only [hnone]
  rw [if_pos (Or.inr trivial)]
  rfl

end Loop

/-- `cli_exec_file`, with its own `execute`. -/
theorem cliExecFile_eq (env : Env) (other : List CStr → CliM Unit) (path : CStr) :
    cliExecFile env other path = cliExecScript env (execute env other) path := by
  have hloop : ∀ fuel offset, execLoop env other path fuel offset = scriptLoop env (execute env other) path fuel offset := by
    intro fuel
    induction fuel with
    | zero => exact fun offset => rfl
    | succ fuel ih =>
      intro offset
      simp only [execLoop, scriptLoop, ih]
  exact hloop env.fuel 0

end NanoS32
