import Std.Async.Signal
import Std.Async.System
import VertexEngine.Application
import VertexEngine.Files
import VertexEngine.Log.Filter

/-!
# The command

The outer layer of the shortest-path program: it reads files and the environment, writes results to
standard output and log lines to standard error, and listens for Ctrl-C.  Everything else is decided
in `Application`.
-/

namespace VertexEngine

namespace Command

open Application

/-- The environment variable that holds the log filter. -/
def filterVariable : String := "VERTEXFLOW_LOG"

/-- How many steps are made between two looks at the outside world. -/
def stride : Nat := 4096

/-- The error for a file that cannot be read. -/
def fileError : IO.Error → EngineError
  | .noFileOrDirectory _ code _ | .permissionDenied _ code _ | .inappropriateType _ code _
  | .invalidArgument _ code _ =>
    match FileFault.ofCode? code.toNat with
    | some fault => fault.error
    | none => .io s!"(os error {code})"
  | e => .io (toString e)

/-- The bytes of a file. -/
def readBytes (path : String) : IO (Except EngineError (List UInt8)) := do
  try
    return .ok (← IO.FS.readBinFile path).toList
  catch e =>
    return .error (fileError e)

/-- What the program is given for a command line: the files that it names, and the number of
processors. -/
def surroundings (c : CommandLine) : IO Surroundings := do
  let files ← (c.graph :: c.config.toList).mapM fun path => return (path, ← readBytes path)
  let processors ← try pure (← Std.Async.System.getCPUInfo).size catch _ => pure 1
  return {
    bytesOf := fun path => (files.lookup path).getD (.error FileFault.missing.error)
    hardwareThreads := max 1 processors }

/-- Writes log lines that the filter lets through. -/
def writeLog (filter : Log.Filter) (lines : List Log.Line) : IO Unit :=
  (lines.filter filter.shows).forM fun l =>
    IO.eprintln s!"{(Choice.name l.level).toUpper} {l.target}: {l.message}"

/-- Carries out a part of the program, and writes what it says. -/
def perform {α : Type} (filter : Log.Filter) (act : Act α) : IO (Except Failure α) := do
  let (result, t) := act.run.run {}
  writeLog filter t.logged
  t.printed.forM fun line => IO.println line
  return result

/-- Advances a run to its end.  The first `written` of its log lines were written before.  Once
`interrupted` says so, an abort is requested. -/
partial def carryOut (filter : Log.Filter) (options : EngineOptions) (interrupted : IO Bool)
    (written : Nat) (m : PathMachine) : IO PathMachine := do
  let m := m.advanceBy behaviour stride
  let lines := runLines options m
  writeLog filter (lines.drop written)
  if !m.isRunning then return m
  if !m.board.abort && (← interrupted) then
    writeLog filter [abortLine]
    carryOut filter options interrupted lines.length m.requestAbort
  else
    carryOut filter options interrupted lines.length m

/-- Carries out a run that is ready to go, and what comes after it. -/
def carryOutAll (filter : Log.Filter) (c : CommandLine) (p : Prepared) :
    IO (Except Failure Unit) := do
  let listener ← Std.Async.Signal.Waiter.mk .sigint false
  let signal ← listener.wait
  let m ← carryOut filter p.core.options (IO.hasFinished signal) 0 p.machine
  listener.stop
  match finish? c p.core m with
  | some act => perform filter act
  | none => return .ok ()

/-- Carries out a command line and gives the exit code. -/
def execute (c : CommandLine) : IO UInt32 := do
  let filter ← match c.logLevel with
    | some level => pure (Log.Filter.upTo level)
    | none => Log.Filter.ofSetting <$> IO.getEnv filterVariable
  let result ← match ← perform filter (prepare c (← surroundings c)) with
    | .ok (some p) => carryOutAll filter c p
    | .ok none => pure (.ok ())
    | .error f => pure (.error f)
  match result with
  | .ok () => return 0
  | .error f =>
    f.lines.forM fun line => IO.eprintln line
    return f.exitCode

/-- Answers a command line that asks for no run. -/
def refuse (r : CommandLine.Refusal) : IO UInt32 := do
  match r with
  | .displayHelp => IO.println CommandLine.helpText
  | .displayVersion => IO.println CommandLine.versionText
  | r => IO.eprintln s!"error: {r.message}"
  return r.exitCode

end Command

end VertexEngine

open VertexEngine in
def main (args : List String) : IO UInt32 :=
  match CommandLine.parse args with
  | .ok c => Command.execute c
  | .error r => Command.refuse r
