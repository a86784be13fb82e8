import VertexEngine.Run.Board

/-!
# The threaded engine

A pool of workers takes tasks from one scheduler.  The pool is a transition system: each step of a
worker is one visible thing, so that a sequence of choices of who moves next is an interleaving, and
every interleaving is such a sequence.

A worker asks for work, runs the program it gets one action at a time, reports the vertex complete,
and then either counts the update, and evaluates the syncs that are due one vertex at a time, or
records the error and closes the scheduler.  The pool itself waits for the workers in their order.
A worker whose evaluation of a sync panics is gone, and is noticed only when the pool gets to it.
-/

namespace VertexEngine.Threaded

variable {F V E T O : Type}

/-- Where a worker stands. -/
inductive Phase (F V T O : Type) where
  | starting
  /-- There is no such worker, because it could not be started; the scheduler is still to be
  closed. -/
  | missing
  /-- About to ask for work. -/
  | idle
  /-- Running a program, of which this is left. -/
  | running (x : Execution F) (rest : Program F V T O Unit)
  /-- The program has ended; its vertex is still in flight. -/
  | returned (vertex : VertexId) (outcome : Outcome)
  /-- The vertex is no longer in flight; the outcome is still to be dealt with. -/
  | completed (vertex : VertexId) (outcome : Outcome)
  /-- The error is recorded; the scheduler is still to be closed. -/
  | closing
  /-- The update is counted; these syncs are still to be evaluated. -/
  | counting (due : List (Sync V T))
  /-- Evaluating a sync, with these vertices still to be read. -/
  | folding (sync : Sync V T) (total : T) (unread : List VertexId) (due : List (Sync V T))
  | leaving
  | left (crashed : Bool)

/-- The board, the workers, and what the pool itself knows. -/
structure Pool (F V E T O : Type) where
  board : Board F V E T O
  workers : List (Phase F V T O)
  /-- The first error that was recorded. -/
  firstError : Option EngineError := none
  /-- The number of workers that are known to have left. -/
  joined : Nat := 0
  status : RunStatus := .running

/-- Who moves next. -/
inductive Actor where
  | worker (index : Nat)
  /-- The pool, which waits for its workers. -/
  | pool
  deriving DecidableEq, Repr

/-- The number of workers in a pool for which this number was asked: at least one. -/
def workerCount (asked : Nat) : Nat :=
  max asked 1

/-- Keeps the first error only. -/
def record (slot : Option EngineError) (e : EngineError) : Option EngineError :=
  slot <|> some e

namespace Pool

/-- A pool of workers that have not moved yet. -/
def start (board : Board F V E T O) (workers : Nat) : Pool F V E T O :=
  { board, workers := List.replicate (workerCount workers) .starting }

/-- The pool after a step of worker `index` to a phase, with a new board. -/
def moved (p : Pool F V E T O) (index : Nat) (phase : Phase F V T O) (board : Board F V E T O) :
    Pool F V E T O :=
  { p with board, workers := p.workers.set index phase }

/-- The pool after a worker has dealt with the outcome of a task. -/
def settle (p : Pool F V E T O) (index : Nat) (vertex : VertexId) : Outcome → Pool F V E T O
  | .finished =>
    let board := p.board.increment
    p.moved index (.counting (board.syncs.due board.updates)) board
  | .failed e =>
    { p with firstError := record p.firstError e }.moved index .closing
      (p.board.note (.failed vertex e))
  | .panicked =>
    { p with firstError := record p.firstError .workerPanicked }.moved index .closing
      (p.board.note (.panicked vertex))

/-- The pool after a worker has asked for work; `none` while it has to wait. -/
def ask (behaviour : Behaviour F V E T O) (p : Pool F V E T O) (index : Nat) :
    Option (Pool F V E T O) :=
  match p.board.scheduler.dispatch p.board.abort with
  | (.wait, _) => none
  | (.finish, scheduler) => some (p.moved index .leaving { p.board with scheduler })
  | (.run t, scheduler) =>
    let board := { p.board with scheduler }.note (.dispatched t)
    let phase := match board.load behaviour t with
      | .ok program => .running ⟨t, 0⟩ program
      | .error e => .returned t.vertex (.failed e)
    some (p.moved index phase board)

/-- One step of a program. -/
def runOn (p : Pool F V E T O) (index : Nat) (x : Execution F) :
    Program F V T O Unit → Pool F V E T O
  | .done () =>
    p.moved index (.returned x.task.vertex .finished) (p.board.note (.updated x.task.vertex))
  | .fail e =>
    p.moved index (.returned x.task.vertex (.failed (.update x.task.vertex e))) p.board
  | .panic => p.moved index (.returned x.task.vertex .panicked) p.board
  | .ask action next =>
    let (answer, x, board) := p.board.perform x action
    p.moved index (.running x (next answer)) board

/-- One step of the evaluation of a sync: read one vertex, or publish the total. -/
def foldOn (p : Pool F V E T O) (index : Nat) (sync : Sync V T) (total : T)
    (due : List (Sync V T)) : List VertexId → Pool F V E T O
  | [] =>
    match sync.spec.finish total with
    | some value =>
      let board := { p.board with syncs := p.board.syncs.publish sync.id value }
      p.moved index (.counting due) (board.note (.published sync.id))
    | none => p.moved index (.left true) p.board
  | v :: unread =>
    match p.board.graph.value v with
    | .error _ => p.moved index (.folding sync total unread due) p.board
    | .ok x =>
      match sync.spec.fold total v x with
      | some total => p.moved index (.folding sync total unread due) p.board
      | none => p.moved index (.left true) p.board

/-- A step of worker `index`; `none` if it cannot move. -/
def stepWorker (behaviour : Behaviour F V E T O) (p : Pool F V E T O) (index : Nat) :
    Option (Pool F V E T O) :=
  match p.workers[index]? with
  | none => none
  | some .starting => some (p.moved index .idle (p.board.note (.workerStarted index)))
  | some .missing =>
    some (p.moved index (.left false) { p.board with scheduler := p.board.scheduler.close })
  | some .idle => p.ask behaviour index
  | some (.running x rest) => some (p.runOn index x rest)
  | some (.returned vertex outcome) =>
    let board := { p.board with scheduler := p.board.scheduler.complete vertex }
    some (p.moved index (.completed vertex outcome) board)
  | some (.completed vertex outcome) => some (p.settle index vertex outcome)
  | some .closing =>
    some (p.moved index .leaving { p.board with scheduler := p.board.scheduler.close })
  | some (.counting []) => some (p.moved index .idle p.board)
  | some (.counting (sync :: due)) =>
    let covered := p.board.graph.vertexIds.filter sync.spec.covers
    some (p.moved index (.folding sync sync.spec.zero covered due) p.board)
  | some (.folding sync total unread due) => some (p.foldOn index sync total due unread)
  | some .leaving => some (p.moved index (.left false) (p.board.note (.workerFinished index)))
  | some (.left _) => none

/-- The result of a run whose workers have all left. -/
def finish (p : Pool F V E T O) : Pool F V E T O :=
  match p.firstError with
  | some e => { p with status := .ended (.error e) }
  | none =>
    if p.board.abort then { p with status := .ended (.error .aborted) }
    else { p with board := p.board.note (.loopDrained .threaded), status := .ended (.ok ()) }

/-- A step of the pool itself: it notices that its next worker has left, or ends the run. -/
def stepPool (p : Pool F V E T O) : Option (Pool F V E T O) :=
  match p.workers[p.joined]? with
  | none => some p.finish
  | some (.left false) => some { p with joined := p.joined + 1 }
  | some (.left true) =>
    some { p with
      joined := p.joined + 1
      firstError := record p.firstError .workerPanicked
      board := { p.board with scheduler := p.board.scheduler.close } }
  | some _ => none

/-- A step of the given actor; `none` if it cannot move. -/
def step (behaviour : Behaviour F V E T O) (p : Pool F V E T O) (actor : Actor) :
    Option (Pool F V E T O) :=
  match p.status with
  | .running =>
    match actor with
    | .worker index => p.stepWorker behaviour index
    | .pool => p.stepPool
  | _ => none

/-- The actors, in the order in which `advance` gives them the first chance to move. -/
def actors (p : Pool F V E T O) : List Actor :=
  (List.range p.workers.length).map .worker ++ [.pool]

/-- One step of the first actor that can move. -/
def advance (behaviour : Behaviour F V E T O) (p : Pool F V E T O) : Pool F V E T O :=
  (p.actors.findSome? (p.step behaviour)).getD p

/-- The pool after the given actors have moved, one after the other; an actor that cannot move is
passed over. -/
def interleave (behaviour : Behaviour F V E T O) (p : Pool F V E T O) :
    List Actor → Pool F V E T O
  | [] => p
  | a :: rest => ((p.step behaviour a).getD p).interleave behaviour rest

end Pool

end VertexEngine.Threaded
