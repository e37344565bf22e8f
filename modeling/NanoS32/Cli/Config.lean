import NanoS32.Fs.File
import NanoS32.Ulib.Ip

/-!
# Commands and scripts

The parts of `cli.c` that set, save and restore the configuration: `cli_config`, `execute` and `cli_exec_file`. The other
commands are a parameter.
-/

namespace NanoS32

/-- The state the command line works on: the machine and the configuration. -/
structure Cli where
  sys : Sys
  localIp : Ip
  localGate : Ip

/-- A program of the command line. -/
abbrev CliM : Type → Type := Prog Cli

/-- A call of the file system. -/
def CliM.fs {α : Type} (x : FsM α) : CliM α := ⟨fun c =>
  match x.run c.sys with
  | .ok a s => .ok a { c with sys := s }
  | .error code s => .error code { c with sys := s }
  | .stuck s => .stuck { c with sys := s }⟩

/-- `"config"`, `"save"`, `"net_IP"`, `"net_gate"`, `"config.ini"`. -/
def configCommand : CStr := [99, 111, 110, 102, 105, 103]
def saveArg : CStr := [115, 97, 118, 101]
def netIpArg : CStr := [110, 101, 116, 95, 73, 80]
def netGateArg : CStr := [110, 101, 116, 95, 103, 97, 116, 101]
def configIni : CStr := [99, 111, 110, 102, 105, 103, 46, 105, 110, 105]

/-- `config_str`: the text that `config save` writes, built in a buffer of 512 bytes. -/
def configStr (localIp localGate : Ip) : CStr :=
  let str := strncat [] (configCommand ++ [32] ++ netIpArg ++ [32]) 512
  let str := strncat str (ipToStr localIp) 512
  let str := strncat str [10] 512
  let str := strncat str (configCommand ++ [32] ++ netGateArg ++ [32]) 512
  let str := strncat str (ipToStr localGate) 512
  strncat str [10] 512

section Commands

variable (env : Env)

/-- The write of `config.ini` by `config save`: what `fs_write_file` returns. The final 0 is written too. -/
def saveConfig (localIp localGate : Ip) : FsM Nat := do
  let (written, _) ← fsWriteFile env (configStr localIp localGate ++ [0]) configIni 0 (wfCreate ||| wfTruncate)
  pure written

/-- `cli_config`, without what it prints. The result of the write is not looked at. -/
def cliConfig (argv : List CStr) : CliM Unit :=
  match argv with
  | [_, arg] =>
    if arg = saveArg then do
      let c ← Prog.get
      let _ ← CliM.fs (saveConfig env c.localIp c.localGate).attempt
      pure ()
    else pure ()
  | [_, arg, value] =>
    if arg = netIpArg then Prog.update fun c => { c with localIp := strToIp c.localIp value }
    else if arg = netGateArg then Prog.update fun c => { c with localGate := strToIp c.localGate value }
    else pure ()
  | _ => pure ()

/-- The loop of `execute` that cuts a line into at most `CLI_MAX_ARG` words. Every turn takes at least one character. -/
def executeLoop : Nat → CStr → List CStr → List CStr
  | 0, _, argv => argv
  | fuel + 1, tok, argv =>
    if tok ≠ [] ∧ argv.length < 5 then
      let (_, tok, nexttok) := strtok tok 32
      executeLoop fuel nexttok (if tok ≠ [] then argv ++ [tok] else argv)
    else argv

/-- `execute`, with the commands other than `config` given. -/
def execute (other : List CStr → CliM Unit) (str : CStr) : CliM Unit :=
  let argv := executeLoop str.length str []
  if argv = [] then pure ()
  else if argv.head? = some configCommand then cliConfig env argv
  else other argv

/-- The loop of `cli_exec_file`. -/
def execLoop (other : List CStr → CliM Unit) (path : CStr) : Nat → Nat → CliM Unit
  | 0, _ => Prog.noReturn
  | fuel + 1, offset => do
    let result ← CliM.fs (fsReadFile env path offset 72).attempt
    match result with
    | .error _ => pure ()
    | .ok line =>
      let i := (line.takeWhile (· ≠ 10)).length
      if line = [] ∨ i = line.length then pure ()
      else do
        execute env other ((line.take i).takeWhile (· ≠ 0))
        execLoop other path fuel (wrap32 (offset + (1 + i)))

/-- The loop of `cli_exec_file` again, for any behaviour of `execute`. -/
def scriptLoop (exec : CStr → CliM Unit) (path : CStr) : Nat → Nat → CliM Unit
  | 0, _ => Prog.noReturn
  | fuel + 1, offset => do
    let result ← CliM.fs (fsReadFile env path offset 72).attempt
    match result with
    | .error _ => pure ()
    | .ok line =>
      let i := (line.takeWhile (· ≠ 10)).length
      if line = [] ∨ i = line.length then pure ()
      else do
        exec ((line.take i).takeWhile (· ≠ 0))
        scriptLoop exec path fuel (wrap32 (offset + (1 + i)))

/-- `cli_exec_file`, for any behaviour of `execute`. -/
def cliExecScript (exec : CStr → CliM Unit) (path : CStr) : CliM Unit := scriptLoop env exec path env.fuel 0

/-- `cli_exec_file`. -/
def cliExecFile (other : List CStr → CliM Unit) (path : CStr) : CliM Unit := execLoop env other path env.fuel 0

end Commands

end NanoS32
