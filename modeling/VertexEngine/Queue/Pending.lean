import VertexEngine.Queue.Basic

/-!
# Pending lists

The plain meaning of a task queue: the list of the pending tasks in the order in which they go.
There are no numbers, keys or indices here, and every operation is said in terms of the list.
-/

namespace VertexEngine

/-- The pending tasks in the order in which they go. -/
structure PendingList (F : Type) where
  kind : SchedulerKind
  policy : SchedulePolicy
  tasks : List (Task F) := []

namespace PendingList

variable {F : Type}

/-- The list with a task behind all tasks whose priority is not lower. -/
def insertByPriority (t : Task F) (tasks : List (Task F)) : List (Task F) :=
  let notLower (u : Task F) : Bool := Priority.rank t.priority ≤ Priority.rank u.priority
  tasks.takeWhile notLower ++ t :: tasks.dropWhile notLower

/-- The list with a task in its place: at the end, or by priority. -/
def insert (kind : SchedulerKind) (t : Task F) (tasks : List (Task F)) : List (Task F) :=
  match kind with
  | .fifo => tasks ++ [t]
  | .priority => insertByPriority t tasks

/-- Whether a task for the vertex is pending. -/
def contains (p : PendingList F) (v : VertexId) : Bool :=
  p.tasks.any (·.vertex == v)

/-- A pending task after a repeated request: only one policy takes the new function. -/
def refit (policy : SchedulePolicy) (update : F) (t : Task F) : Task F :=
  if policy = .replace then { t with update } else t

/-- Puts a repeated request into the pending task of its vertex. -/
def merge (p : PendingList F) (vertex : VertexId) (update : F) (priority : Float) : PendingList F :=
  match p.tasks.find? (·.vertex == vertex) with
  | none => p
  | some t =>
    if p.kind = .priority && t.priority < priority then
      let others := p.tasks.eraseP (·.vertex == vertex)
      { p with tasks := insertByPriority { refit p.policy update t with priority } others }
    else
      { p with
        tasks := p.tasks.map fun u => if u.vertex == vertex then refit p.policy update u else u }

/-- Enqueues a task, or puts the request into the task that is pending for the vertex; whether a
task was added. -/
def push (p : PendingList F) (vertex : VertexId) (update : F) (priority : Float) :
    PendingList F × Bool :=
  let priority := if priority.isFinite then priority else Priority.default
  if p.policy.isDeduplicating && p.contains vertex then (p.merge vertex update priority, false)
  else ({ p with tasks := insert p.kind ⟨vertex, update, priority⟩ p.tasks }, true)

/-- Takes out the first task whose vertex is eligible. -/
def popWhere (p : PendingList F) (eligible : VertexId → Bool) : Option (Task F) × PendingList F :=
  (p.tasks.find? (eligible ·.vertex), { p with tasks := p.tasks.eraseP (eligible ·.vertex) })

/-- Drops all tasks. -/
def clear (p : PendingList F) : PendingList F :=
  { p with tasks := [] }

end PendingList

end VertexEngine
