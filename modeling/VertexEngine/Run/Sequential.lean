import VertexEngine.Run.Board

/-!
# The sequential engine

One task at a time.  Each task runs to its end, with every request that it makes, before the next
one is taken from the queue; so the order of updates is fixed by the graph and the first requests.
-/

namespace VertexEngine.Sequential

variable {F V E T O : Type}

/-- How the loop goes on after a task on the vertex has ended: the update is counted, or the loop
stops. -/
def settle (b : Board F V E T O) (vertex : VertexId) :
    Outcome → Board F V E T O × RunStatus
  | .finished =>
    let (b, broken) := b.countUpdate
    (b, if broken then .crashed else .running)
  | .failed e => (b.note (.failed vertex e), .ended (.error e))
  | .panicked => (b.note (.panicked vertex), .ended (.error .workerPanicked))

/-- One turn of the loop: stop if an abort is requested or nothing is pending, or else run the next
task and count it. -/
def turn (behaviour : Behaviour F V E T O) (b : Board F V E T O) : Board F V E T O × RunStatus :=
  if b.abort then (b, .ended (.error .aborted))
  else
    match b.scheduler.next with
    | (none, scheduler) =>
      ({ b with scheduler }.note (.loopDrained .sequential), .ended (.ok ()))
    | (some t, scheduler) =>
      let (outcome, b) := ({ b with scheduler }.note (.dispatched t)).execute behaviour t
      settle b t.vertex outcome

end VertexEngine.Sequential
