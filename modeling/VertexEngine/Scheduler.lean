import VertexEngine.Queue.Basic

/-!
# The scheduler

A task queue in shared use.  A task that has been handed out keeps its vertex in flight until it is
reported complete, and a worker that asks for work never gets a task whose vertex is in flight.  So
no vertex is ever updated by two workers at once.

A worker that finds nothing to do waits as long as something is in flight, because what is in flight
may still schedule more.  It is told to finish once nothing is pending and nothing is in flight, or
as soon as the scheduler is closed or an abort is requested.
-/

namespace VertexEngine

/-- The pending tasks and the vertices that are being updated. -/
structure Scheduler (F : Type) where
  queue : TaskQueue F
  inFlight : List VertexId := []
  /-- Whether tasks are no longer handed out. -/
  closed : Bool := false

/-- The answer to a worker that asks for work. -/
inductive Dispatch (F : Type) where
  /-- There is nothing more to do. -/
  | finish
  /-- Run this task; its vertex is in flight now. -/
  | run (task : Task F)
  /-- Ask again later. -/
  | wait

namespace Scheduler

variable {F : Type}

/-- A scheduler without tasks. -/
def empty (kind : SchedulerKind) (policy : SchedulePolicy) : Scheduler F :=
  { queue := .empty kind policy }

/-- The number of pending tasks; those in flight do not count. -/
def pending (s : Scheduler F) : Nat :=
  s.queue.size

/-- Enqueues a task.  Whether the vertex exists is the caller's concern. -/
def schedule (s : Scheduler F) (vertex : VertexId) (update : F) (priority : Float) :
    Scheduler F × Placement :=
  let (queue, placement) := s.queue.push vertex update priority
  ({ s with queue }, placement)

/-- Takes the first task, whatever is in flight, and does not mark its vertex. -/
def next (s : Scheduler F) : Option (Task F) × Scheduler F :=
  let (found, queue) := s.queue.pop
  (found, { s with queue })

/-- Answers a worker that asks for work. -/
def dispatch (s : Scheduler F) (abort : Bool) : Dispatch F × Scheduler F :=
  if s.closed || abort then (.finish, s)
  else
    match s.queue.popWhere fun v => !s.inFlight.contains v with
    | (some t, queue) => (.run t, { s with queue, inFlight := t.vertex :: s.inFlight })
    | (none, queue) => (if s.inFlight.isEmpty then .finish else .wait, { s with queue })

/-- The task for the vertex is finished. -/
def complete (s : Scheduler F) (vertex : VertexId) : Scheduler F :=
  { s with inFlight := s.inFlight.erase vertex }

/-- Stops handing out tasks. -/
def close (s : Scheduler F) : Scheduler F :=
  { s with closed := true }

/-- Drops the pending tasks, forgets what is in flight, and opens the scheduler again. -/
def reset (s : Scheduler F) : Scheduler F :=
  { queue := s.queue.clear }

end Scheduler

end VertexEngine
