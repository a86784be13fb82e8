import VertexEngine.CommandLine
import VertexEngine.Core.Basic
import VertexEngine.Graph.EdgeList
import VertexEngine.Programs.ShortestPath
import VertexEngine.Settings

/-!
# The shortest-path program

What is done for a command line: the options are resolved, the graph is loaded, shortest paths are
computed from the root, and the distances of the targets are printed.

A run can be long, and need not end.  So the work is cut in three: `prepare` is everything before
the run, the run is a `Machine` that the caller advances, and `finish?` is everything after it.
What is printed and what is logged is kept apart, each in its order.
-/

namespace VertexEngine.Application

/-- What the program is given from outside. -/
structure Surroundings where
  /-- The bytes of a file, or why it cannot be read. -/
  bytesOf : String → Except EngineError (List UInt8)
  hardwareThreads : Nat

/-- What was said so far. -/
structure Transcript where
  printed : List String := []
  logged : List Log.Line := []
  deriving Repr

/-- Why the program stops early. -/
structure Failure where
  /-- What was being done. -/
  context : Option String := none
  error : EngineError

/-- A part of the program: it says something, and it can stop early. -/
abbrev Act (α : Type) := ExceptT Failure (StateM Transcript) α

/-- A core on which nothing but shortest-path updates is scheduled. -/
abbrev PathCore := Core Unit Float Float Empty

abbrev PathMachine := Machine Unit Float Float Empty Empty

/-- What a shortest-path run executes. -/
def behaviour : Behaviour Unit Float Float Empty Empty :=
  ShortestPath.relax

/-- A run that is ready to go. -/
structure Prepared where
  core : PathCore
  machine : PathMachine

def print (line : String) : Act Unit :=
  modify fun t => { t with printed := t.printed ++ [line] }

def log (lines : List Log.Line) : Act Unit :=
  modify fun t => { t with logged := t.logged ++ lines }

/-- Goes on with a result, or stops with its error. -/
def attempt {α : Type} (context : Option String) : Except EngineError α → Act α
  | .ok a => return a
  | .error error => throw { context, error }

/-- The core after a call. -/
def call {α : Type} (core : PathCore) (c : Core.Call Unit Float Float Empty α) : Act PathCore :=
  match c.run core with
  | (.ok _, core) => return core
  | (.error error, _) => throw { error }

/-! ## Log lines -/

def programTarget : String := "vertexflow"

def loaderTarget : String := "vertexflow::graph::loader"

def coreTarget : String := "vertexflow::engine::core"

/-- The line for a request from outside to abort the run. -/
def abortLine : Log.Line := ⟨.warn, programTarget, "Ctrl+C received; aborting run", []⟩

/-- The lines for what happened in a run so far. -/
def runLines (options : EngineOptions) (m : PathMachine) : List Log.Line :=
  m.board.history.reverse.flatMap (Event.lines options.engine)

/-! ## Before the run -/

/-- The settings from a file. -/
def loadSettings (s : Surroundings) (path : String) : Act Settings := do
  let settings ←
    attempt (some s!"failed to load config {path}") (s.bytesOf path >>= Settings.load)
  log settings.remarks
  return settings

/-- The options of the run: what the command line gives, then what the settings give, then the
defaults. -/
def resolveOptions (c : CommandLine) (s : Surroundings) : Act EngineOptions := do
  let settings ← match c.config with
    | none => pure {}
    | some path => loadSettings s path
  let o := settings.options s.hardwareThreads
  log [⟨.debug, programTarget, "resolved engine options", ["options"]⟩]
  return {
    engine := c.engine.getD o.engine
    ncpus := c.ncpus.getD o.ncpus
    scheduler := c.scheduler.getD o.scheduler
    policy := c.policy.getD o.policy }

/-- The graph in a file, every vertex being infinitely far away. -/
def loadGraph (s : Surroundings) (path : String) : Act (Graph Float Float) := do
  let g ← attempt (some s!"failed to load graph from {path}")
    (s.bytesOf path >>= EdgeList.read Distance.infinity EdgeList.defaultLimit)
  log [⟨.debug, loaderTarget, "parsed edge list", ["vertex_count", "edge_count"]⟩,
    ⟨.info, loaderTarget, "loaded graph", ["path", "vertices", "edges"]⟩]
  return g

/-- Prints the options and the shape of the graph. -/
def describe (c : CommandLine) (o : EngineOptions) (g : Graph Float Float) : Act Unit := do
  print "vertexflow dry-run"
  print s!"  engine    = {Choice.name o.engine}"
  print s!"  ncpus     = {o.ncpus}"
  print s!"  scheduler = {Choice.label o.scheduler}"
  print s!"  policy    = {Choice.label o.policy}"
  print ""
  print s!"graph: {c.graph}"
  print s!"  vertices = {g.vertexCount}"
  print s!"  edges    = {g.edgeCount}"
  print s!"  memory   ~ {g.memoryUsage} bytes"
  print s!"  root     = {c.root.toNat}"
  unless g.contains c.root do
    print "  (root is not a vertex of this graph)"
  log [⟨.debug, programTarget, "dry-run complete (no execution)", []⟩]

/-- A run from the root, ready to go. -/
def launch (root : VertexId) (o : EngineOptions) (g : Graph Float Float) : Act Prepared := do
  let (initialised, g) := (ShortestPath.initDistances root).run g
  attempt none initialised
  let core ← attempt none (Core.withOptions o)
  log [⟨.debug, coreTarget, "core initialized", ["engine", "ncpus", "scheduler", "policy"]⟩]
  let core ← call core (Core.setGraph g)
  log [⟨.info, coreTarget, "graph bound to engine", ["vertices", "edges"]⟩]
  let core ← call core (Core.schedule root () Priority.default)
  log (Event.placementLines Priority.default .enqueued)
  log [⟨.debug, coreTarget, "task scheduled", ["vertex", "priority", "added"]⟩,
    ⟨.info, coreTarget, "engine run starting", ["run_id", "engine", "pending"]⟩]
  return { core, machine := ← attempt none core.launch }

/-- Everything before the run; nothing is to be run after a dry run. -/
def prepare (c : CommandLine) (s : Surroundings) : Act (Option Prepared) := do
  let o ← resolveOptions c s
  let g ← loadGraph s c.graph
  if c.dryRun then
    describe c o g
    return none
  else
    return some (← launch c.root o g)

/-! ## After the run -/

/-- Prints the distance of a target that is a vertex. -/
def reportTarget (root : VertexId) (g : Graph Float Float) (target : VertexId) : Act Unit :=
  match g.value target with
  | .ok distance =>
    print (s!"Shortest path from {root.toNat} to {target.toNat} was: "
      ++ Decimal.plain.text distance)
  | .error _ => log [⟨.warn, programTarget, "cannot report distance", ["target", "error"]⟩]

/-- What is logged about tasks that are dropped after an error. -/
def droppedLines (m : PathMachine) : List Log.Line :=
  if 0 < m.board.scheduler.pending then
    [⟨.debug, "vertexflow::scheduler", "scheduler reset; pending tasks discarded", ["dropped"]⟩]
  else []

/-- Ends the program after a run that came to its end well. -/
def finish (c : CommandLine) (core : PathCore) : Act Unit := do
  log [⟨.info, coreTarget, "engine run converged", ["run_id", "updates", "elapsed_ms"]⟩,
    ⟨.info, programTarget, "shortest path run complete", ["updates", "elapsed_ms", "engine"]⟩,
    ⟨.info, "vertexflow::engine", "engine metrics",
      ["runs", "failed_runs", "updates", "syncs", "elapsed_ms"]⟩]
  let g ← attempt none (core.heldGraph?.elim (.error .graphNotBound) .ok)
  let _ ← call core Core.destroy
  log [⟨.debug, coreTarget, "core destroyed", ["dropped", "runs"]⟩]
  c.targets.forM (reportTarget c.root g)

/-- Everything after the run of a core; `none` while the run goes on. -/
def finish? (c : CommandLine) (core : PathCore) (m : PathMachine) : Option (Act Unit) :=
  (core.conclude? m).map fun (conclusion, core) =>
    match conclusion with
    | .converged _ => finish c core
    | .stopped error => do
      log (droppedLines m)
      log [⟨.warn, coreTarget, "engine run stopped before convergence",
        ["run_id", "updates", "dropped", "error"]⟩]
      throw { error }
    | .crashed => throw { error := .workerPanicked }

/-! ## The end of the program -/

/-- The texts of a failure, the outermost first: what was being done, the error, and its causes. -/
def Failure.texts (f : Failure) : List String :=
  f.context.toList ++ f.error.message :: f.error.causes

/-- The causes of a failure as a block of lines; several ones are numbered. -/
def causeLines : List String → List String
  | [] => []
  | [cause] => ["", "Caused by:", s!"    {cause}"]
  | causes => "" :: "Caused by:" :: causes.zipIdx.map fun (cause, i) => s!"    {i}: {cause}"

/-- What is written about a failure.  A file name in its outermost text can have line ends. -/
def Failure.lines (f : Failure) : List String :=
  match f.error, f.texts with
  | .aborted, _ => ["vertexflow: run aborted"]
  | _, [] => []
  | _, text :: causes => s!"vertexflow error: {text}".splitOn "\n" ++ causeLines causes

/-- The exit code of a program that stopped early. -/
def Failure.exitCode (f : Failure) : UInt32 :=
  match f.error with
  | .aborted => 130
  | _ => 1

end VertexEngine.Application
