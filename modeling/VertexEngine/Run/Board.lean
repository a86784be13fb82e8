import VertexEngine.Program
import VertexEngine.Run.Event
import VertexEngine.Scheduler
import VertexEngine.Sync

/-!
# The board of a run

Everything that the workers of one run share: the graph, the scheduler, the abort flag, the syncs
and the counter of updates.  `Board.perform` is the effect of one action of a vertex program, and
`Board.execute` runs a task to its end.
-/

namespace VertexEngine

/-- What the workers of a run share. -/
structure Board (F V E T O : Type) where
  graph : Graph V E
  scheduler : Scheduler F
  abort : Bool := false
  syncs : SyncSet V T := {}
  /-- The number of updates that were counted in this run. -/
  updates : Nat := 0
  /-- What happened so far, the latest event first. -/
  history : List (Event F O) := []

/-- A task that is being run. -/
structure Execution (F : Type) where
  task : Task F
  /-- The number of requests that were accepted. -/
  scheduled : Nat := 0

/-- How the execution of a task ended. -/
inductive Outcome where
  | finished
  | failed (error : EngineError)
  | panicked

/-- Where a run stands. -/
inductive RunStatus where
  | running
  | ended (result : Except EngineError Unit)
  /-- A panic left the run. -/
  | crashed

namespace Board

variable {F V E T O : Type}

/-- Adds an event to the history. -/
def note (b : Board F V E T O) (e : Event F O) : Board F V E T O :=
  { b with history := e :: b.history }

/-- Enqueues a task, or puts the request into a pending one. -/
def schedule (b : Board F V E T O) (v : VertexId) (update : F) (priority : Float) :
    Board F V E T O :=
  let (scheduler, placement) := b.scheduler.schedule v update priority
  { b with scheduler }.note (.placed v update priority placement)

/-- Whether a request of a program is acceptable: the vertex exists and the priority is finite. -/
def checkRequest (b : Board F V E T O) (v : VertexId) (priority : Float) :
    Except EngineError Unit := do
  b.graph.check v
  Priority.check priority

/-- The answer to an action of an execution, and what it changes. -/
def perform (b : Board F V E T O) (x : Execution F) :
    (action : Action F V O) → action.Answer T × Execution F × Board F V E T O
  | .read v => (b.graph.value v, x, b)
  | .write value => ((), x, { b with graph := b.graph.withValue x.task.vertex value })
  | .schedule v update priority =>
    match b.checkRequest v priority with
    | .error e => (.error e, x, b)
    | .ok () =>
      (.ok (), { x with scheduled := x.scheduled + 1 },
        (b.note (.requested x.task.vertex v)).schedule v update priority)
  | .countScheduled => (x.scheduled, x, b)
  | .pollAbort => (b.abort, x, b)
  | .raiseAbort => ((), x, { b with abort := true })
  | .readShared sync =>
    match b.syncs.value? sync with
    | some value => (.ok value, x, b)
    | none => (.error (.unknownSync sync), x, b)
  | .observe o => ((), x, b.note (.observed x.task.vertex o))

/-- Runs a program to its end.  An error of the program is wrapped with the vertex; nothing that was
written before is taken back. -/
def run (b : Board F V E T O) (x : Execution F) :
    Program F V T O Unit → Outcome × Board F V E T O
  | .done () => (.finished, b.note (.updated x.task.vertex))
  | .fail e => (.failed (.update x.task.vertex e), b)
  | .panic => (.panicked, b)
  | .ask action next =>
    let (answer, x, b) := b.perform x action
    b.run x (next answer)

/-- The program of a task, if its vertex exists. -/
def load (behaviour : Behaviour F V E T O) (b : Board F V E T O) (t : Task F) :
    Except EngineError (Program F V T O Unit) := do
  b.graph.check t.vertex
  return behaviour t.update b.graph.toTopology t.vertex

/-- Runs a task to its end. -/
def execute (behaviour : Behaviour F V E T O) (b : Board F V E T O) (t : Task F) :
    Outcome × Board F V E T O :=
  match b.load behaviour t with
  | .error e => (.failed e, b)
  | .ok p => b.run ⟨t, 0⟩ p

/-- Executes the next tasks, at most `count` of them, whatever their outcome, and counts none. -/
def executeNext (behaviour : Behaviour F V E T O) :
    Nat → Board F V E T O → List Outcome × Board F V E T O
  | 0, b => ([], b)
  | count + 1, b =>
    match b.scheduler.next with
    | (none, scheduler) => ([], { b with scheduler })
    | (some t, scheduler) =>
      let (outcome, b) := { b with scheduler }.execute behaviour t
      let (outcomes, b) := executeNext behaviour count b
      (outcome :: outcomes, b)

/-- Adds the publications of a round of evaluations to the history. -/
def noteRound (b : Board F V E T O) (r : SyncRound) : Board F V E T O :=
  r.published.foldl (fun b sync => b.note (.published sync)) b

/-- Adds one to the counter of updates. -/
def increment (b : Board F V E T O) : Board F V E T O :=
  { b with updates := b.updates + 1 }.note (.counted (b.updates + 1))

/-- Counts a finished update and evaluates the syncs that are due; whether that broke off. -/
def countUpdate (b : Board F V E T O) : Board F V E T O × Bool :=
  let b := b.increment
  let (syncs, round) := b.syncs.afterUpdate b.updates b.graph
  ({ b with syncs }.noteRound round, round.broken)

/-- The observations that programs made, in their order. -/
def observations (b : Board F V E T O) : List (VertexId × O) :=
  b.history.reverse.filterMap fun
    | .observed v o => some (v, o)
    | _ => none

end Board

end VertexEngine
