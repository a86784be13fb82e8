import VertexEngine.Run.Machine

/-!
# The core

The engine as its users see it: options, at most one bound graph, pending tasks, registered syncs
and the record of past runs.  A `Call` changes a core and can be refused; what a refused call leaves
behind is the core as it was when the refusal came.

A run is started by `launch`, advanced as a machine, and brought back into the core by `conclude`.
-/

namespace VertexEngine

/-- What a run did. -/
structure RunReport where
  /-- The number of updates that were counted. -/
  updates : Nat
  engine : EngineKind
  workers : Nat
  /-- The number of sync evaluations, those at the start included. -/
  syncs : Nat
  deriving DecidableEq, Repr

/-- The updates a second, for a run that took this many seconds and nanoseconds; zero for a run that
took no time. -/
def RunReport.updatesPerSecond (updates seconds nanoseconds : Nat) : Float :=
  let time := Float.ofNat seconds + Float.ofNat nanoseconds / 1e9
  if 0.0 < time then Float.ofNat updates / time else 0.0

/-- Totals over the runs of one core. -/
structure Metrics where
  runs : Nat := 0
  failedRuns : Nat := 0
  updates : Nat := 0
  syncs : Nat := 0
  lastRun : Option RunReport := none
  deriving DecidableEq, Repr

/-- The totals with one more run. -/
def Metrics.record (m : Metrics) (report : RunReport) (succeeded : Bool) : Metrics where
  runs := m.runs + 1
  failedRuns := if succeeded then m.failedRuns else m.failedRuns + 1
  updates := m.updates + report.updates
  syncs := m.syncs + report.syncs
  lastRun := some report

/-- Where a core stands in its life. -/
inductive Stage (V E : Type) where
  /-- No graph is bound. -/
  | ready
  | bound (graph : Graph V E)
  /-- Nothing can be done any more. -/
  | destroyed

/-- The engine as its users see it. -/
structure Core (F V E T : Type) where
  options : EngineOptions
  stage : Stage V E := .ready
  scheduler : Scheduler F
  /-- Whether an abort is requested. -/
  abort : Bool := false
  syncs : SyncSet V T := {}
  lastUpdateCount : Nat := 0
  metrics : Metrics := {}

/-- How a run ended for its caller. -/
inductive Conclusion where
  | converged (report : RunReport)
  | stopped (error : EngineError)
  /-- A panic left the run, and nothing is recorded. -/
  | crashed

namespace Core

variable {F V E T O α : Type}

/-- A change of a core that can be refused. -/
abbrev Call (F V E T α : Type) := ExceptT EngineError (StateM (Core F V E T)) α

/-- Refuses options that no engine can honour. -/
def checkOptions (options : EngineOptions) : Except EngineError Unit :=
  if options.ncpus = 0 then .error (.initialization "ncpus must be >= 1 (got 0)") else .ok ()

/-- A new core. -/
def withOptions (options : EngineOptions) : Except EngineError (Core F V E T) := do
  checkOptions options
  return { options, scheduler := .empty options.scheduler options.policy }

/-- Refuses a core that was destroyed. -/
def checkAlive : Call F V E T Unit := do
  match (← get).stage with
  | .destroyed => throw .useAfterDestroy
  | _ => pure ()

/-! ## Options, graph and tasks -/

def getOptions : Call F V E T EngineOptions := do
  checkAlive
  return (← get).options

/-- Changes the options; refused while tasks are pending, because a new scheduler would lose
them. -/
def setOptions (options : EngineOptions) : Call F V E T Unit := do
  checkAlive
  let core ← get
  if 0 < core.scheduler.pending then
    throw (.optionsLocked core.scheduler.pending)
  checkOptions options
  let sameScheduler :=
    options.scheduler = core.options.scheduler && options.policy = core.options.policy
  set { core with
    options
    scheduler := if sameScheduler then core.scheduler else .empty options.scheduler options.policy }

/-- The graph that is held. -/
def heldGraph? (core : Core F V E T) : Option (Graph V E) :=
  match core.stage with
  | .bound g => some g
  | _ => none

/-- Binds a graph, drops the tasks for the old one, and gives the old one back. -/
def setGraph (graph : Graph V E) : Call F V E T (Option (Graph V E)) := do
  checkAlive
  let core ← get
  modify fun core => { core with stage := .bound graph, scheduler := core.scheduler.reset }
  return core.heldGraph?

/-- The bound graph. -/
def getGraph : Call F V E T (Graph V E) := do
  checkAlive
  match (← get).heldGraph? with
  | some g => return g
  | none => throw .graphNotBound

/-- Changes the bound graph. -/
def editGraph (edit : Graph.Edit V E α) : Call F V E T α := do
  let g ← getGraph
  let (result, g) := edit.run g
  modify fun core => { core with stage := .bound g }
  result

/-- Gives the graph back and drops the tasks for it. -/
def takeGraph : Call F V E T (Option (Graph V E)) := do
  checkAlive
  let core ← get
  modify fun core => { core with stage := .ready, scheduler := core.scheduler.reset }
  return core.heldGraph?

/-- Enqueues a task whose vertex and priority were checked. -/
def enqueue (vertex : VertexId) (update : F) (priority : Float) : Call F V E T Unit :=
  modify fun core => { core with scheduler := (core.scheduler.schedule vertex update priority).1 }

/-- Schedules an update function on a vertex. -/
def schedule (vertex : VertexId) (update : F) (priority : Float) : Call F V E T Unit := do
  let g ← getGraph
  g.check vertex
  Priority.check priority
  enqueue vertex update priority

/-- Schedules an update function on each of the vertices, or on none if one of them does not
exist. -/
def scheduleMany (vertices : List VertexId) (update : F) (priority : Float) :
    Call F V E T Nat := do
  let g ← getGraph
  Priority.check priority
  vertices.forM fun v => g.check v
  vertices.forM fun v => enqueue v update priority
  return vertices.length

/-- Schedules an update function on every vertex. -/
def scheduleAll (update : F) (priority : Float) : Call F V E T Nat := do
  let g ← getGraph
  scheduleMany g.vertexIds update priority

def pendingTasks : Call F V E T Nat := do
  checkAlive
  return (← get).scheduler.pending

/-- Drops the pending tasks; how many there were. -/
def reset : Call F V E T Nat := do
  checkAlive
  let core ← get
  modify fun core => { core with scheduler := core.scheduler.reset }
  return core.scheduler.pending

/-- Requests an abort: of the run under way, or else of the next one. -/
def requestAbort (core : Core F V E T) : Core F V E T :=
  { core with abort := true }

/-- Ends the life of a core and gives its graph back. -/
def destroy : Call F V E T (Option (Graph V E)) := do
  checkAlive
  let core ← get
  modify fun core => { core with stage := .destroyed, scheduler := core.scheduler.reset }
  return core.heldGraph?

/-! ## Syncs -/

/-- Registers a sync under a number that is not in use; its first value is the zero. -/
def setSync (id : SyncId) (spec : SyncSpec V T) : Call F V E T Unit := do
  checkAlive
  modify fun core => { core with syncs := core.syncs.register id spec }

/-- Evaluates a sync right away; whether the evaluation broke off. -/
def syncNow (id : SyncId) : Call F V E T Bool := do
  let g ← getGraph
  let core ← get
  match core.syncs.evaluateOne id g with
  | none => throw (.unknownSync id)
  | some (syncs, round) =>
    set { core with syncs }
    return round.broken

/-! ## Runs -/

/-- The number of workers that a report states. -/
def workers (options : EngineOptions) : Nat :=
  match options.engine with
  | .sequential => 1
  | .threaded => options.ncpus

/-- The board on which a run of this core starts, before any sync is evaluated. -/
def boardOn (core : Core F V E T) (g : Graph V E) : Board F V E T O :=
  { graph := g, scheduler := core.scheduler, abort := core.abort, syncs := core.syncs }

/-- Starts a run: every sync is evaluated, and then the engine is set going. -/
def launch (core : Core F V E T) : Except EngineError (Machine F V E T O) :=
  match core.stage with
  | .destroyed => .error .useAfterDestroy
  | .ready => .error .graphNotBound
  | .bound g =>
    let (syncs, round) := core.syncs.evaluateAll g
    let board := { (core.boardOn g) with syncs }.noteRound round
    if round.broken then .ok (.sequential board .crashed)
    else .ok (.start core.options board)

/-- What a run did, from the board that it left. -/
def report (core : Core F V E T) (board : Board F V E T O) : RunReport where
  updates := board.updates
  engine := core.options.engine
  workers := workers core.options
  syncs := board.syncs.performed - core.syncs.performed

/-- The core with what a run left on its board, and nothing else changed. -/
def adopt (core : Core F V E T) (board : Board F V E T O) : Core F V E T :=
  { core with
    stage := .bound board.graph
    scheduler := board.scheduler
    abort := board.abort
    syncs := board.syncs }

/-- The core after a run with this result.  The abort request is used up, the run is recorded, and
after an error the pending tasks are dropped. -/
def afterRun (core : Core F V E T) (board : Board F V E T O) (result : Except EngineError Unit) :
    Core F V E T :=
  { core.adopt board with
    abort := false
    lastUpdateCount := board.updates
    metrics := core.metrics.record (core.report board) result.isOk
    scheduler := if result.isOk then board.scheduler else board.scheduler.reset }

/-- The core after a run of it has stopped, and how the run ended for its caller; `none` while the
run goes on. -/
def conclude? (core : Core F V E T) (m : Machine F V E T O) :
    Option (Conclusion × Core F V E T) :=
  match m.status with
  | .running => none
  | .crashed => some (.crashed, core.adopt m.board)
  | .ended (.ok ()) => some (.converged (core.report m.board), core.afterRun m.board (.ok ()))
  | .ended (.error e) => some (.stopped e, core.afterRun m.board (.error e))

end Core

end VertexEngine
