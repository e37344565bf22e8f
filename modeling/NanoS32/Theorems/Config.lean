import Mathlib.Data.Fin.VecNotation
import NanoS32.Lemmas.IpText
import NanoS32.Lemmas.OneBlock
import NanoS32.Lemmas.Script

/-!
# The configuration file

The text that `config save` writes is two `config` lines, and `cli_exec_file` executes them one after the other: each is cut into
three words, and the last word is read back as the address.
-/

namespace NanoS32

open Prog

/-! ## Lines of three words -/

/-- One turn of the loop of `execute`. -/
theorem executeLoop_word {fuel : Nat} {tok rest : CStr} {argv : List CStr} (h0 : tok ≠ []) (hsp : (32 : UInt8) ∉ tok)
    (hrest : rest = [] ∨ rest.head? = some 32) (hargc : argv.length < 5) :
    executeLoop (fuel + 1) (tok ++ rest) argv = executeLoop fuel (rest.drop 1) (argv ++ [tok]) := by
  rw [executeLoop, if_pos ⟨List.append_ne_nil_of_left_ne_nil h0 _, hargc⟩, strtok_word h0 hsp hrest]
  simp only [ne_eq, h0, not_false_eq_true, if_true]

theorem executeLoop_nil (fuel : Nat) (argv : List CStr) : executeLoop fuel [] argv = argv := by
  cases fuel with
  | zero => rfl
  | succ fuel => exact if_neg fun h => h.1 rfl

/-- A line of the configuration file. -/
def configLine (arg : CStr) (ip : Ip) : CStr := configCommand ++ 32 :: (arg ++ 32 :: ipToStr ip)

/-- The words of a line. -/
theorem executeLoop_configLine {arg : CStr} (h0 : arg ≠ []) (hsp : (32 : UInt8) ∉ arg) (ip : Ip) :
    executeLoop (configLine arg ip).length (configLine arg ip) [] = [configCommand, arg, ipToStr ip] := by
  obtain ⟨fuel, hfuel⟩ : ∃ fuel, (configLine arg ip).length = fuel + 1 + 1 + 1 := by
    refine ⟨(configLine arg ip).length - 3, ?_⟩
    unfold configLine configCommand
    simp only [List.length_append, List.length_cons]
    omega
  have hip : (32 : UInt8) ∉ ipToStr ip := not_mem_ipToStr (Or.inl (by decide)) (by decide)
  rw [hfuel, configLine, executeLoop_word (by decide) (by decide) (Or.inr rfl) (by decide), List.drop_one, List.tail_cons,
    executeLoop_word h0 hsp (Or.inr rfl) (by simp), List.drop_one, List.tail_cons, ← List.append_nil (ipToStr ip),
    executeLoop_word (ipToStr_ne_nil ip) hip (Or.inl rfl) (by simp), List.append_nil, List.drop_nil, executeLoop_nil]
  rfl

theorem not_mem_configLine {arg : CStr} {ch : UInt8} (harg : ch ∉ arg) (hch : ch = 0 ∨ ch = 10) (ip : Ip) :
    ch ∉ configLine arg ip := by
  have hcommand : ch ∉ configCommand := by rcases hch with rfl | rfl <;> decide
  have hspace : ch ≠ 32 := by rcases hch with rfl | rfl <;> decide
  have hip : ch ∉ ipToStr ip := by
    rcases hch with rfl | rfl
    · exact not_mem_ipToStr (Or.inl (by decide)) (by decide)
    · exact not_mem_ipToStr (Or.inl (by decide)) (by decide)
  unfold configLine
  simp only [List.mem_append, List.mem_cons, hcommand, hspace, harg, hip, or_self, not_false_eq_true]

/-- Strings put together in a buffer are cut where the buffer ends. -/
theorem strncat_take (dst src : CStr) (n : Nat) : strncat (dst.take (n - 1)) src n = (dst ++ src).take (n - 1) := by
  have hleft : n - 1 - min (n - 1) dst.length = n - 1 - dst.length := by omega
  rw [strncat, List.length_take, hleft, List.take_append]

/-- `config_str` is long enough for the text, which is two lines. -/
theorem configStr_eq (ip gate : Ip) :
    configStr ip gate = configLine netIpArg ip ++ 10 :: (configLine netGateArg gate ++ [10]) := by
  have h1 := length_ipToStr_le ip
  have h2 := length_ipToStr_le gate
  have hnil : ([] : CStr) = List.take (512 - 1) [] := rfl
  unfold configStr configLine configCommand netIpArg netGateArg
  rw [hnil]
  simp only [strncat_take]
  rw [List.take_of_length_le]
  · simp only [List.nil_append, List.cons_append, List.append_assoc, List.take_nil]
  · simp only [List.take_nil, List.length_append, List.length_cons, List.length_nil]
    omega

theorem length_configLine (arg : CStr) (ip : Ip) : (configLine arg ip).length = arg.length + (ipToStr ip).length + 8 := by
  unfold configLine configCommand
  simp only [List.length_append, List.length_cons, List.length_nil]
  omega

/-! ## Executing the file -/

section Run

variable {env : Env} {s : Sys} {other : List CStr → CliM Unit}

/-- `execute` of a configuration line. -/
theorem execute_configLine {arg : CStr} (h0 : arg ≠ []) (hsp : (32 : UInt8) ∉ arg) (ip : Ip) :
    execute env other (configLine arg ip) = cliConfig env [configCommand, arg, ipToStr ip] := by
  unfold execute
  rw [executeLoop_configLine h0 hsp ip]
  rfl

/-- `cli_exec_file` of a file that holds what `config save` writes. -/
theorem cliExecFile_configStr (hfuel : 3 ≤ env.fuel) {path : CStr} {ip gate : Ip}
    (hread : ∀ offset count, (fsReadFile env path offset count).run s =
      .ok (((configStr ip gate ++ [0]).drop offset).take count) s) (ip₀ gate₀ : Ip) :
    (cliExecFile env other path).run ⟨s, ip₀, gate₀⟩ = .ok () ⟨s, ip, gate⟩ := by
  have hip := length_ipToStr_le ip
  have hgate := length_ipToStr_le gate
  have htext : configStr ip gate ++ [0] =
      configLine netIpArg ip ++ 10 :: (configLine netGateArg gate ++ 10 :: [0]) := by
    rw [configStr_eq]
    simp only [List.append_assoc, List.cons_append, List.nil_append]
  have hlen : (configStr ip gate ++ [0]).length ≤ 72 := by
    have h1 : netIpArg.length = 6 := rfl
    have h2 : netGateArg.length = 8 := rfl
    rw [htext]
    simp only [List.length_append, List.length_cons, List.length_nil, length_configLine, h1, h2]
    omega
  have hdrop₀ : (configStr ip gate ++ [0]).drop 0 =
      configLine netIpArg ip ++ 10 :: (configLine netGateArg gate ++ 10 :: [0]) := htext
  have hdrop : (configStr ip gate ++ [0]).drop (0 + ((configLine netIpArg ip).length + 1)) =
      configLine netGateArg gate ++ 10 :: [0] := by
    rw [htext, Nat.zero_add, ← List.drop_drop, List.drop_left, List.drop_succ_cons, List.drop_zero]
  have hdrop' : (configStr ip gate ++ [0]).drop
      (0 + ((configLine netIpArg ip).length + 1) + ((configLine netGateArg gate).length + 1)) = [0] := by
    rw [← List.drop_drop, hdrop, ← List.drop_drop, List.drop_left, List.drop_succ_cons, List.drop_zero]
  have hset : ∀ i g : Ip, (cliConfig env [configCommand, netIpArg, ipToStr ip]).run ⟨s, i, g⟩ = .ok () ⟨s, ip, g⟩ := by
    intro i g
    have hval := strToIp_ipToStr ip i
    have hrun : (cliConfig env [configCommand, netIpArg, ipToStr ip]).run ⟨s, i, g⟩ =
        .ok () ⟨s, strToIp i (ipToStr ip), g⟩ := rfl
    rw [hrun, hval]
  have hset' : ∀ i g : Ip, (cliConfig env [configCommand, netGateArg, ipToStr gate]).run ⟨s, i, g⟩ = .ok () ⟨s, i, gate⟩ := by
    intro i g
    have hval := strToIp_ipToStr gate g
    have hrun : (cliConfig env [configCommand, netGateArg, ipToStr gate]).run ⟨s, i, g⟩ =
        .ok () ⟨s, i, strToIp g (ipToStr gate)⟩ := rfl
    rw [hrun, hval]
  obtain ⟨fuel, hf⟩ : ∃ fuel, env.fuel = fuel + 1 + 1 + 1 := ⟨env.fuel - 3, by omega⟩
  -- the two lines end in the window, and have no 0
  have hsize : (configStr ip gate ++ [0]).length < 2 ^ 32 := by omega
  have hfirst : (configLine netIpArg ip).length ≤ 71 := by
    have h1 : netIpArg.length = 6 := rfl
    rw [length_configLine]
    omega
  have hsecond : (configLine netGateArg gate).length ≤ 71 := by
    have h2 : netGateArg.length = 8 := rfl
    rw [length_configLine]
    omega
  have hzero : ∀ arg a, (0 : UInt8) ∉ configLine arg a → (configLine arg a).takeWhile (· ≠ 0) = configLine arg a := fun arg a h0 =>
    List.takeWhile_eq_self_iff.2 fun x hx => decide_eq_true fun hx0 => h0 (hx0 ▸ hx)
  rw [cliExecFile_eq, cliExecScript, hf]
  rw [scriptLoop_line (c := ⟨s, ip₀, gate₀⟩) hread hdrop₀ (not_mem_configLine (by decide) (Or.inr rfl) ip) hfirst hsize,
    hzero _ _ (not_mem_configLine (by decide) (Or.inl rfl) ip), execute_configLine (by decide) (by decide), bind_ok (hset ip₀ gate₀)]
  rw [scriptLoop_line (c := ⟨s, ip, gate₀⟩) hread hdrop (not_mem_configLine (by decide) (Or.inr rfl) gate) hsecond hsize,
    hzero _ _ (not_mem_configLine (by decide) (Or.inl rfl) gate), execute_configLine (by decide) (by decide), bind_ok (hset' ip gate₀)]
  exact scriptLoop_stop (c := ⟨s, ip, gate⟩) hread (by rw [hdrop']; decide) fuel

end Run

/-! ## The round trip -/

theorem configIni_isName : IsName configIni := ⟨by decide, by decide, by decide, by decide⟩

/-- `config save` on a well-formed system disk, when it has written the file, and then `cli_exec_file` of the file from any other
configuration: the saved addresses are back. This holds for any behaviour of the other commands, so none of them is run. -/
theorem config_round_trip {env : Env} {s s' : Sys} {C : Nat → List Nat} (hr : Ready env s env.systemDisk)
    (hw : Vol.WellFormed (s.disk env.systemDisk) C) (ip gate : Ip)
    (hsave : (saveConfig env ip gate).run s = .ok ((configStr ip gate).length + 1) s') :
    (cliConfig env [configCommand, saveArg]).run ⟨s, ip, gate⟩ = .ok () ⟨s', ip, gate⟩ ∧
      ∀ (other : List CStr → CliM Unit) (ip₀ gate₀ : Ip),
        (cliExecFile env other configIni).run ⟨s', ip₀, gate₀⟩ = .ok () ⟨s', ip, gate⟩ := by
  constructor
  · have hgo := CliM.fs_ok ip gate (attempt_ok hsave)
    have hconfig : cliConfig env [configCommand, saveArg] = Prog.get >>= fun config =>
        CliM.fs (saveConfig env config.localIp config.localGate).attempt >>= fun _ => pure () := rfl
    have hget : (Prog.get : CliM Cli).run ⟨s, ip, gate⟩ = .ok ⟨s, ip, gate⟩ ⟨s, ip, gate⟩ := rfl
    rw [hconfig, bind_ok hget, bind_ok hgo, run_pure]
  · intro other ip₀ gate₀
    unfold saveConfig at hsave
    obtain ⟨r, s₁, h₁, h₂⟩ := bind_eq_ok hsave
    rw [run_pure] at h₂
    obtain ⟨-, rfl⟩ := Outcome.ok.inj h₂
    have hip := length_ipToStr_le ip
    have hgate := length_ipToStr_le gate
    have hlen : (configStr ip gate ++ [0]).length ≤ 512 := by
      have h3 : netIpArg.length = 6 := rfl
      have h4 : netGateArg.length = 8 := rfl
      rw [configStr_eq]
      simp only [List.length_append, List.length_cons, List.length_nil, length_configLine, h3, h4]
      omega
    have hne : configStr ip gate ++ [0] ≠ [] := List.append_ne_nil_of_right_ne_nil _ (List.cons_ne_nil _ _)
    rw [← Sys.withVol_self s env.systemDisk] at h₁
    obtain ⟨s₂, V, n, ch, rfl, hr₂, hlook, hholds⟩ := fsWriteFile_one hr hw configIni_isName hne hlen h₁
    have hfuel := hr.fuel
    exact cliExecFile_configStr (by omega) (fun offset count => fsReadFile_holds hr₂ hholds configIni_isName.notDisk
      configIni_isName.not_mem.1 hlook hlen offset count) ip₀ gate₀

/-- The addresses 10.0.2.15 and 255.255.255.255, saved on the small machine. -/
theorem config_round_trip_sample :
    ∃ s', (cliConfig sampleEnv [configCommand, saveArg]).run ⟨sampleSys, ![10, 0, 2, 15], ![255, 255, 255, 255]⟩ =
        .ok () ⟨s', ![10, 0, 2, 15], ![255, 255, 255, 255]⟩ ∧
      ∀ (other : List CStr → CliM Unit) (ip₀ gate₀ : Ip), (cliExecFile sampleEnv other configIni).run ⟨s', ip₀, gate₀⟩ =
        .ok () ⟨s', ![10, 0, 2, 15], ![255, 255, 255, 255]⟩ := by
  obtain ⟨r, hr⟩ : ∃ r, r = (saveConfig sampleEnv ![10, 0, 2, 15] ![255, 255, 255, 255]).run sampleSys := ⟨_, rfl⟩
  have hval : r.value = some ((configStr ![10, 0, 2, 15] ![255, 255, 255, 255]).length + 1) := by
    rw [hr]
    decide +kernel
  cases r with
  | ok n s' =>
    obtain rfl := Option.some.inj hval
    exact ⟨s', config_round_trip sampleSys_ready sampleSys_wellFormed _ _ hr.symm⟩
  | error _ _ => cases hval
  | stuck _ => cases hval

end NanoS32
