/-
The agent's program (`cmd/agent/main.go`), as far as its arguments say what it is
to be.

It is started by its own service and by the service manager, with command lines
that it has written itself. `started_as_meant`: each start runs what it was written
for.
-/
import ScrewLogger.Agent.CommandLine
import ScrewLogger.Lib.Flags

namespace ScrewLogger
open Lib Lib.Json Lib.Flags

/-- What `main` calls. -/
inductive Mode
  | install (serverURL token dataDir : Bytes)
  | uninstall
  | upgrade (newExe : Bytes)
  | watcher (idleSeconds : Int64)
  | service
  | console (cfgPath : Bytes)
  deriving DecidableEq

/-- The flags that are defined. -/
def agentFlags (name : Bytes) : Option Kind :=
  if [str "service", str "userwatch", str "install", str "uninstall", str "upgrade"].contains name then some .bool
  else if name = str "idle" then some .int
  else if [str "config", str "server", str "token", str "data-dir", str "new"].contains name then some .string
  else none

def boolFlag (given : List (Bytes × Value)) (name : Bytes) : Bool :=
  match valueOf given name with
  | some (.bool b) => b
  | _ => false

def intFlag (given : List (Bytes × Value)) (name : Bytes) (default : Int64) : Int64 :=
  match valueOf given name with
  | some (.int i) => i
  | _ => default

def stringFlag (given : List (Bytes × Value)) (name default : Bytes) : Bytes :=
  match valueOf given name with
  | some (.string s) => s
  | _ => default

/-- `main`, of `os.Args`. With an error of `flag.Parse` the program ends. -/
def agentMain (argv : List Bytes) : Except FlagError Mode := do
  let (given, _) ← parse agentFlags argv.tail []
  if boolFlag given (str "install") then
    pure (.install (stringFlag given (str "server") []) (stringFlag given (str "token") [])
      (stringFlag given (str "data-dir") []))
  else if boolFlag given (str "uninstall") then pure .uninstall
  else if boolFlag given (str "upgrade") then pure (.upgrade (stringFlag given (str "new") []))
  else if boolFlag given (str "userwatch") then pure (.watcher (intFlag given (str "idle") 180))
  else if boolFlag given (str "service") then pure .service
  else pure (.console (stringFlag given (str "config") (str "agent.yaml")))

theorem isName_userwatch : IsName (str "userwatch") := ⟨by decide, by decide, by decide⟩

theorem isName_idle : IsName (str "idle") := ⟨by decide, by decide, by decide⟩

theorem isName_service : IsName (str "service") := ⟨by decide, by decide, by decide⟩

/-- What a spawner's watcher takes itself to be. -/
theorem agentMain_watchArgs (exe : Bytes) (s : Spawner) {idle : Int64} (hidle : s.idleSeconds = idle.toInt) :
    agentMain (exe :: s.watchArgs) = .ok (.watcher idle) := by
  have huserwatch : str "-userwatch" = dash :: str "userwatch" := by decide
  have hname : str "-idle" = dash :: str "idle" := by decide
  have hbool : agentFlags (str "userwatch") = some .bool := by decide
  have hint : agentFlags (str "idle") = some .int := by decide
  have hread : Kind.int.read (formatInt s.idleSeconds) = some (.int idle) := by
    rw [Kind.read, hidle, parseIntAny_formatInt]
    rfl
  have hparse : parse agentFlags s.watchArgs [] =
      .ok ([(str "idle", .int idle), (str "userwatch", .bool true)], []) := by
    rw [Spawner.watchArgs, huserwatch, hname, parse_name isName_userwatch, hbool]
    dsimp only
    rw [parse_name isName_idle, hint]
    dsimp only
    rw [hread]
    rfl
  rw [agentMain, List.tail_cons, hparse]
  rfl

/-- **Both starts**: the arguments read back are those that were written, and
`main` runs what they are for. -/
theorem started_as_meant (m : ServiceManager) (s : Spawner) (tok : UInt64) (idle : Int64)
    (hidle : s.idleSeconds = idle.toInt) (hquote : doubleQuote ∉ s.exePath)
    (hslash : s.exePath.getLast? ≠ some backslash) :
    (∀ args, commandLineToArgv (Launch.Request.line ⟨tok, s.exePath, args⟩) = s.exePath :: args) ∧
      agentMain (commandLineToArgv (Launch.Request.line ⟨tok, s.exePath, s.watchArgs⟩)) = .ok (.watcher idle) ∧
      commandLineToArgv (installService m s.exePath) = [s.exePath, str "-service"] ∧
      agentMain (commandLineToArgv (installService m s.exePath)) = .ok .service := by
  refine ⟨fun args => argv_line ⟨tok, s.exePath, args⟩ hquote hslash, ?_, argv_registered m s.exePath, ?_⟩
  · rw [argv_line ⟨tok, s.exePath, s.watchArgs⟩ hquote hslash]
    exact agentMain_watchArgs s.exePath s hidle
  · have hname : str "-service" = dash :: str "service" := by decide
    have hbool : agentFlags (str "service") = some .bool := by decide
    have hparse : parse agentFlags [str "-service"] [] = .ok ([(str "service", .bool true)], []) := by
      rw [hname, parse_name isName_service, hbool]
      rfl
    rw [argv_registered, agentMain, List.tail_cons, hparse]
    rfl

/-- A path with spaces in it. -/
theorem started_as_meant_spaces :
    agentMain (commandLineToArgv (Launch.Request.line ⟨7, str "C:\\Program Files\\monsvc.exe",
      (Spawner.newSpawner (str "C:\\Program Files\\monsvc.exe") 180).watchArgs⟩)) = .ok (.watcher 180) ∧
    commandLineToArgv (installService someManager (str "C:\\Program Files\\monsvc.exe")) =
      [str "C:\\Program Files\\monsvc.exe", str "-service"] := by
  obtain ⟨-, hwatcher, hservice, -⟩ := started_as_meant someManager
    (Spawner.newSpawner (str "C:\\Program Files\\monsvc.exe") 180) 7 180 rfl (by decide) (by decide)
  exact ⟨hwatcher, hservice⟩

end ScrewLogger
