import VertexEngine.Decimal.Reader
import VertexEngine.Identifier
import VertexEngine.Log.Line

/-!
# The command line

What the words of a command line ask for.  Options are long names with their values, in the next
word or behind an equals sign; one word stands alone, for the graph.  Behind `--` every word stands
alone.

A value is checked when the next word that takes part is met, so an unknown word right behind a bad
value is the error that is reported.
-/

namespace VertexEngine

/-- What was asked for. -/
structure CommandLine where
  /-- The edge list. -/
  graph : String
  /-- The settings file. -/
  config : Option String := none
  engine : Option EngineKind := none
  ncpus : Option Nat := none
  scheduler : Option SchedulerKind := none
  policy : Option SchedulePolicy := none
  root : VertexId := 0
  /-- The vertices whose distance is printed. -/
  targets : List VertexId := [7]
  logLevel : Option Log.Level := none
  /-- Load the graph, but do not run. -/
  dryRun : Bool := false
  deriving DecidableEq, Repr

namespace CommandLine

/-- Why nothing is run. -/
inductive Refusal where
  | missingRequiredArgument
  | unknownArgument
  /-- A value is missing, empty, or not in the list. -/
  | invalidValue
  /-- A value cannot be read. -/
  | valueValidation
  /-- Something is given twice. -/
  | argumentConflict
  /-- A value is given to something that takes none. -/
  | tooManyValues
  | displayHelp
  | displayVersion
  deriving DecidableEq, Repr

/-- What takes a value. -/
inductive Parameter where
  | graph
  | config
  | engine
  | ncpus
  | scheduler
  | policy
  | root
  | target
  | logLevel
  deriving DecidableEq, Repr

/-- What the long name of an option means. -/
inductive LongOption where
  | valued (p : Parameter)
  | dryRun
  | help
  | version
  deriving DecidableEq, Repr

/-- The long names of the options. -/
def longOptions : List (String × LongOption) :=
  [("config", .valued .config), ("engine", .valued .engine), ("ncpus", .valued .ncpus),
    ("scheduler", .valued .scheduler), ("policy", .valued .policy), ("root", .valued .root),
    ("target", .valued .target), ("log-level", .valued .logLevel), ("dry-run", .dryRun),
    ("help", .help), ("version", .version)]

/-- What was gathered from the words so far. -/
structure Gathered where
  graph : Option String := none
  config : Option String := none
  engine : Option EngineKind := none
  ncpus : Option Nat := none
  scheduler : Option SchedulerKind := none
  policy : Option SchedulePolicy := none
  root : Option VertexId := none
  targets : List VertexId := []
  logLevel : Option Log.Level := none
  dryRun : Bool := false
  /-- Whether a word that stands alone was met. -/
  standsAlone : Bool := false
  /-- A parameter whose value is still to be checked, or still to come. -/
  pending : Option (Parameter × Option String) := none

namespace Gathered

/-- Fills a place that must be empty. -/
def once {α : Type} (place : Option α) (value : Except Refusal α) : Except Refusal (Option α) :=
  match place with
  | some _ => .error .argumentConflict
  | none => some <$> value

/-- A file name: any text but the empty one. -/
def readPath (s : String) : Except Refusal String :=
  if s.isEmpty then .error .invalidValue else .ok s

/-- A natural number below the bound. -/
def readNumber (bound : Nat) (s : String) : Except Refusal Nat :=
  (Decimal.readNat bound s.toList).mapError fun _ => .valueValidation

/-- A vertex number.  It may have a sign, so zero can be written with a minus. -/
def readVertex (s : String) : Except Refusal VertexId :=
  match s.toList with
  | '-' :: '0' :: rest => if rest.all (· = '0') then .ok 0 else .error .valueValidation
  | _ => UInt32.ofNat <$> readNumber UInt32.size s

/-- The name of a kind. -/
def readKind {α : Type} [Choice α] (s : String) : Except Refusal α :=
  (Choice.parse s).mapError fun _ => .valueValidation

/-- The exact name of a log level. -/
def readLogLevel (s : String) : Except Refusal Log.Level :=
  match Choice.ofName? s with
  | some level => .ok level
  | none => .error .invalidValue

/-- Takes the value of a parameter. -/
def take (g : Gathered) (p : Parameter) (s : String) : Except Refusal Gathered :=
  match p with
  | .graph => return { g with graph := ← once g.graph (readPath s) }
  | .config => return { g with config := ← once g.config (readPath s) }
  | .engine => return { g with engine := ← once g.engine (readKind s) }
  | .ncpus => return { g with ncpus := ← once g.ncpus (readNumber UInt64.size s) }
  | .scheduler => return { g with scheduler := ← once g.scheduler (readKind s) }
  | .policy => return { g with policy := ← once g.policy (readKind s) }
  | .root => return { g with root := ← once g.root (readVertex s) }
  | .target => return { g with targets := g.targets ++ [← readVertex s] }
  | .logLevel => return { g with logLevel := ← once g.logLevel (readLogLevel s) }

/-- Checks the value that is pending. -/
def settle (g : Gathered) : Except Refusal Gathered :=
  match g.pending with
  | none => .ok g
  | some (_, none) => .error .invalidValue
  | some (p, some s) => { g with pending := none }.take p s

/-- Takes the long name of an option and the text behind its equals sign. -/
def long (g : Gathered) (name : String) (attached : Option String) : Except Refusal Gathered :=
  match longOptions.lookup name, attached with
  | none, _ => .error .unknownArgument
  | some (.valued p), some s => do (← g.settle).take p s
  | some (.valued p), none => return { (← g.settle) with pending := some (p, none) }
  | _, some _ => .error .tooManyValues
  | some .dryRun, none => do
    let g ← g.settle
    if g.dryRun then throw .argumentConflict
    return { g with dryRun := true }
  | some .help, none => do
    let _ ← g.settle
    throw .displayHelp
  | some .version, none => do
    let _ ← g.settle
    throw .displayVersion

/-- Takes a word that begins with one dash and goes on with this character. -/
def short (g : Gathered) (c : Char) : Except Refusal Gathered := do
  if c = 'h' then
    let _ ← g.settle
    throw .displayHelp
  if c = 'V' then
    let _ ← g.settle
    throw .displayVersion
  throw .unknownArgument

/-- Takes a word that stands alone. -/
def alone (g : Gathered) (s : String) : Except Refusal Gathered :=
  if g.standsAlone then .error .unknownArgument
  else return { (← g.settle) with standsAlone := true, pending := some (.graph, some s) }

/-- Takes a word before any `--`. -/
def word (g : Gathered) (s : String) : Except Refusal Gathered :=
  match s.toList with
  | '-' :: '-' :: rest =>
    let name := String.ofList (rest.takeWhile (· != '='))
    match rest.dropWhile (· != '=') with
    | [] => g.long name none
    | _ :: attached => g.long name (some (String.ofList attached))
  | '-' :: c :: _ => g.short c
  | _ =>
    match g.pending with
    | some (p, none) => .ok { g with pending := some (p, some s) }
    | _ => g.alone s

/-- Takes all words; `plain` once a `--` was met. -/
def words (g : Gathered) (plain : Bool) : List String → Except Refusal Gathered
  | [] => g.settle
  | s :: rest =>
    if plain then do (← g.alone s).words true rest
    else if s = "--" then g.words true rest
    else do (← g.word s).words false rest

/-- What was asked for, with what is left out filled in. -/
def finish (g : Gathered) : Except Refusal CommandLine :=
  match g.graph with
  | none => .error .missingRequiredArgument
  | some graph =>
    .ok
      { graph
        config := g.config
        engine := g.engine
        ncpus := g.ncpus
        scheduler := g.scheduler
        policy := g.policy
        root := g.root.getD 0
        targets := if g.targets.isEmpty then [7] else g.targets
        logLevel := g.logLevel
        dryRun := g.dryRun }

end Gathered

/-- Reads the words of a command line, the name of the program left out. -/
def parse (args : List String) : Except Refusal CommandLine := do
  (← Gathered.words {} false args).finish

/-- What is said about a command line that asks for no run. -/
def Refusal.message : Refusal → String
  | missingRequiredArgument => "a graph is required"
  | unknownArgument => "unexpected argument"
  | invalidValue => "invalid value for an option"
  | valueValidation => "an option has a value that cannot be read"
  | argumentConflict => "an option cannot be used several times"
  | tooManyValues => "a value for an option that takes none"
  | displayHelp => "help was asked for"
  | displayVersion => "the version was asked for"

/-- The exit code for a command line that asks for no run. -/
def Refusal.exitCode : Refusal → UInt32
  | displayHelp | displayVersion => 0
  | _ => 2

/-- The version that is shown. -/
def versionText : String := "vertexflow 0.1.0"

/-- The help that is shown. -/
def helpText : String :=
  "\n".intercalate
    ["Run single-source shortest paths over an edge list with the vertexflow engine.",
      "",
      "Usage: vertexflow [OPTIONS] <GRAPH>",
      "",
      "Arguments:",
      "  <GRAPH>  Edge list: one source, target and weight a line",
      "",
      "Options:",
      "      --config <PATH>      Engine configuration file; the options below override it",
      "      --engine <KIND>      Engine kind (sequential, threaded)",
      "      --ncpus <N>          Worker threads for the threaded engine",
      "      --scheduler <KIND>   Task ordering (fifo, priority)",
      "      --policy <POLICY>    Repeat-schedule policy (coalesce, replace, multiset)",
      "      --root <ROOT>        Source vertex [default: 0]",
      "      --target <ID>        Vertices whose distance is printed after the run [default: 7]",
      "      --log-level <LEVEL>  Logging level (error, warn, info, debug, trace)",
      "      --dry-run            Load the graph and print the resolved options, but do not run",
      "  -h, --help               Print help",
      "  -V, --version            Print version"]

end CommandLine

end VertexEngine
