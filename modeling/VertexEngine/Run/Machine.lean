import VertexEngine.Run.Sequential
import VertexEngine.Run.Threaded

/-!
# Runs

A run of either engine, as a machine that is advanced step by step until it stops.  Programs need
not come to an end, so `advanceBy` takes the number of steps; a machine that has stopped does not
change any more.
-/

namespace VertexEngine

/-- A run under way. -/
inductive Machine (F V E T O : Type) where
  | sequential (board : Board F V E T O) (status : RunStatus)
  | threaded (pool : Threaded.Pool F V E T O)

namespace Machine

variable {F V E T O : Type}

/-- The run of an engine on a board. -/
def start (options : EngineOptions) (board : Board F V E T O) : Machine F V E T O :=
  let board := board.note (.loopStarted options.engine)
  match options.engine with
  | .sequential => sequential board .running
  | .threaded => threaded (.start board options.ncpus)

def board : Machine F V E T O → Board F V E T O
  | sequential b _ => b
  | threaded p => p.board

def status : Machine F V E T O → RunStatus
  | sequential _ s => s
  | threaded p => p.status

/-- The machine after an abort was requested from outside. -/
def requestAbort : Machine F V E T O → Machine F V E T O
  | sequential b s => sequential { b with abort := true } s
  | threaded p => threaded { p with board := { p.board with abort := true } }

/-- One step: a turn of the sequential loop, or a step of one actor of the pool. -/
def advance (behaviour : Behaviour F V E T O) : Machine F V E T O → Machine F V E T O
  | sequential b .running =>
    let (b, status) := Sequential.turn behaviour b
    sequential b status
  | threaded p => threaded (p.advance behaviour)
  | m => m

/-- At most `steps` steps; fewer if the run stops. -/
def advanceBy (behaviour : Behaviour F V E T O) : Nat → Machine F V E T O → Machine F V E T O
  | 0, m => m
  | steps + 1, m =>
    match m.status with
    | .running => (m.advance behaviour).advanceBy behaviour steps
    | _ => m

/-- Whether the run goes on. -/
def isRunning (m : Machine F V E T O) : Bool :=
  match m.status with
  | .running => true
  | _ => false

end Machine

end VertexEngine
