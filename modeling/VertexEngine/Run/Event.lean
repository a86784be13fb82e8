import VertexEngine.Log.Line
import VertexEngine.Queue.Basic

/-!
# What happens in a run

The history of a run is a list of events.  Some of them are shown in the log; the others are there
to say what a run did.
-/

namespace VertexEngine

/-- One thing that happened in a run. -/
inductive Event (F O : Type) where
  | loopStarted (engine : EngineKind)
  | loopDrained (engine : EngineKind)
  | workerStarted (worker : Nat)
  /-- A worker could not be started, which stops the run. -/
  | workerMissing (worker : Nat)
  | workerFinished (worker : Nat)
  /-- A task was taken from the queue to be run. -/
  | dispatched (task : Task F)
  /-- The program on `source` asked for an update of `target`, and the request was accepted. -/
  | requested (source target : VertexId)
  /-- A request reached the queue. -/
  | placed (vertex : VertexId) (update : F) (priority : Float) (placement : Placement)
  /-- The program on the vertex ended well. -/
  | updated (vertex : VertexId)
  /-- The task of the vertex ended with an error, which stops the run. -/
  | failed (vertex : VertexId) (error : EngineError)
  | panicked (vertex : VertexId)
  /-- The counter of updates reached this number. -/
  | counted (updates : Nat)
  /-- A sync was published. -/
  | published (sync : SyncId)
  /-- The program on the vertex made an observation. -/
  | observed (vertex : VertexId) (o : O)

namespace Event

variable {F O : Type}

/-! ## The log

Each part of the engine writes to the log under a name of its own. -/

def queueTarget : String := "vertexflow::scheduler::queue"

def executorTarget : String := "vertexflow::engine::executor"

def syncTarget : String := "vertexflow::engine::sync"

def loopTarget : EngineKind → String
  | .sequential => "vertexflow::engine::sequential"
  | .threaded => "vertexflow::engine::threaded"

/-- The log lines for a request that reached the queue. -/
def placementLines (priority : Float) (placement : Placement) : List Log.Line :=
  let replaced : Log.Line :=
    ⟨.debug, queueTarget, "non-finite priority replaced by the default", ["vertex", "priority"]⟩
  let enqueued : Log.Line :=
    ⟨.trace, queueTarget, "task enqueued", ["vertex", "seq", "priority", "pending"]⟩
  (if priority.isFinite then [] else [replaced]) ++ match placement with
    | .enqueued => [enqueued]
    | .merged => [⟨.trace, queueTarget, "vertex already pending; merged", ["vertex", "policy"]⟩]
    | .promoted =>
      [⟨.debug, queueTarget, "promoting pending task", ["vertex", "from", "to"]⟩, enqueued]

/-- The log lines for an event in a run of this engine. -/
def lines (engine : EngineKind) : Event F O → List Log.Line
  | loopStarted .sequential => [⟨.debug, loopTarget .sequential, "sequential engine started", []⟩]
  | loopStarted .threaded => [⟨.info, loopTarget .threaded, "threaded engine started", ["workers"]⟩]
  | loopDrained .sequential =>
    [⟨.debug, loopTarget .sequential, "sequential engine drained scheduler", []⟩]
  | loopDrained .threaded =>
    [⟨.debug, loopTarget .threaded, "threaded engine drained scheduler", []⟩]
  | workerStarted _ => [⟨.debug, loopTarget .threaded, "worker started", ["worker"]⟩]
  | workerMissing _ =>
    [⟨.error, loopTarget .threaded, "failed to spawn worker; stopping run", ["worker", "error"]⟩]
  | workerFinished _ => [⟨.debug, loopTarget .threaded, "worker finished", ["worker"]⟩]
  | requested .. => [⟨.trace, executorTarget, "update scheduling vertex", ["from", "to"]⟩]
  | placed _ _ priority placement => placementLines priority placement
  | updated _ => [⟨.trace, executorTarget, "update finished", ["vertex", "scheduled"]⟩]
  | failed .. =>
    match engine with
    | .sequential => []
    | .threaded =>
      [⟨.debug, loopTarget .threaded, "update failed; closing scheduler",
        ["worker", "vertex", "error"]⟩]
  | panicked _ =>
    let values := match engine with
      | .sequential => ["vertex"]
      | .threaded => ["worker", "vertex"]
    [⟨.error, loopTarget engine, "update function panicked", values⟩]
  | published _ => [⟨.trace, syncTarget, "sync evaluated", ["sync"]⟩]
  | dispatched _ | counted _ | observed .. => []

end Event

end VertexEngine
