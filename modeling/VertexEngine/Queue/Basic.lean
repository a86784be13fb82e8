import Std.Data.TreeMap
import VertexEngine.Options
import VertexEngine.Queue.Heap

/-!
# The task queue

The pending tasks of an engine, in the order of a `SchedulerKind` and with the treatment of repeated
vertices of a `SchedulePolicy`.  A task pairs a vertex with an update function; functions are named
by values of a type `F`, and two of them are the same when their names are.

Every task gets a fresh number.  The tasks are stored under their numbers, and the order holds keys
only, so that a task whose priority rises is taken out and stored again under a new number while its
old key stays behind.  A key whose number is not in use is stale, and is dropped when it is met.
-/

namespace VertexEngine

/-- The order to run a function on a vertex. -/
structure Task (F : Type) where
  vertex : VertexId
  update : F
  priority : Float

/-- A developer's view of a task; the function is not shown. -/
def Task.summary {F : Type} (t : Task F) : String :=
  s!"Task \x7b vertex: {t.vertex.toNat}, priority: " ++ Decimal.pointed.text t.priority
    ++ ", .. \x7d"

/-- The keys in the order in which their tasks go. -/
inductive Order where
  /-- The oldest keys, and then the younger ones with the youngest first. -/
  | fifo (front back : List Key)
  | priority (heap : Heap)

namespace Order

def empty : SchedulerKind → Order
  | .fifo => fifo [] []
  | .priority => priority .nil

def insert (k : Key) : Order → Order
  | fifo front back => fifo front (k :: back)
  | priority heap => priority (heap.insert k)

/-- The first key of a list that is live and eligible, and the list without it.  Keys before it are
dropped if they are not live. -/
def takeFirstOf (live eligible : Key → Bool) : List Key → Option Key × List Key
  | [] => (none, [])
  | k :: ks =>
    if !live k then takeFirstOf live eligible ks
    else if eligible k then (some k, ks)
    else
      let (found, rest) := takeFirstOf live eligible ks
      (found, k :: rest)

/-- The first key that is live and eligible, and the order without it. -/
def takeFirst (live eligible : Key → Bool) : Order → Option Key × Order
  | fifo front back =>
    match takeFirstOf live eligible front with
    | (some k, front) => (some k, fifo front back)
    | (none, front) =>
      let (found, rest) := takeFirstOf live eligible back.reverse
      (found, fifo (front ++ rest) [])
  | priority heap =>
    let (found, heap) := heap.takeFirst live eligible
    (found, priority heap)

/-- All keys, the stale ones included. -/
def keys : Order → List Key
  | fifo front back => front ++ back.reverse
  | priority heap => heap.keys

end Order

/-- The pending tasks. -/
structure TaskQueue (F : Type) where
  kind : SchedulerKind
  policy : SchedulePolicy
  order : Order
  /-- The pending tasks under their numbers. -/
  entries : Std.TreeMap Nat (Task F) := {}
  /-- The number of the pending task of a vertex; kept by the policies that allow one only. -/
  byVertex : Std.TreeMap VertexId Nat := {}
  /-- The number of the next task. -/
  nextSeq : Nat := 0

/-- What became of a request to enqueue a task. -/
inductive Placement where
  /-- A task was added. -/
  | enqueued
  /-- The request went into a task that was pending already. -/
  | merged
  /-- The same, and the pending task rose to the priority of the request. -/
  | promoted
  deriving DecidableEq, Repr

namespace TaskQueue

variable {F : Type}

/-- A queue without tasks. -/
def empty (kind : SchedulerKind) (policy : SchedulePolicy) : TaskQueue F :=
  { kind, policy, order := .empty kind }

/-- The number of pending tasks. -/
def size (q : TaskQueue F) : Nat :=
  q.entries.size

def isEmpty (q : TaskQueue F) : Bool :=
  q.entries.isEmpty

/-- Whether a task for the vertex is pending. -/
def contains (q : TaskQueue F) (v : VertexId) : Bool :=
  if q.policy.isDeduplicating then q.byVertex.contains v
  else q.entries.toList.any fun (_, t) => t.vertex == v

/-- The priority that a request really asks for. -/
def effectivePriority (p : Float) : Float :=
  if p.isFinite then p else Priority.default

/-- Stores a task under a fresh number. -/
def insert (q : TaskQueue F) (t : Task F) : TaskQueue F :=
  { q with
    order := q.order.insert ⟨t.priority, q.nextSeq, t.vertex⟩
    entries := q.entries.insert q.nextSeq t
    byVertex :=
      if q.policy.isDeduplicating then q.byVertex.insert t.vertex q.nextSeq else q.byVertex
    nextSeq := q.nextSeq + 1 }

/-- Puts a repeated request into the pending task with number `seq`. -/
def merge (q : TaskQueue F) (seq : Nat) (update : F) (priority : Float) : TaskQueue F × Placement :=
  match q.entries[seq]? with
  | none => (q, .merged)
  | some pending =>
    let t := if q.policy = .replace then { pending with update } else pending
    if q.kind = .priority && pending.priority < priority then
      ({ q with entries := q.entries.erase seq }.insert { t with priority }, .promoted)
    else
      ({ q with entries := q.entries.insert seq t }, .merged)

/-- Enqueues a task, or puts the request into the task that is pending for the vertex. -/
def push (q : TaskQueue F) (vertex : VertexId) (update : F) (priority : Float) :
    TaskQueue F × Placement :=
  let priority := effectivePriority priority
  match if q.policy.isDeduplicating then q.byVertex[vertex]? else none with
  | some seq => q.merge seq update priority
  | none => (q.insert ⟨vertex, update, priority⟩, .enqueued)

/-- Takes out the task with number `seq`. -/
def take (q : TaskQueue F) (seq : Nat) : Option (Task F) × TaskQueue F :=
  match q.entries[seq]? with
  | none => (none, q)
  | some t =>
    let byVertex :=
      if q.byVertex[t.vertex]? = some seq then q.byVertex.erase t.vertex else q.byVertex
    (some t, { q with entries := q.entries.erase seq, byVertex })

/-- Takes out the first task whose vertex is eligible; the others keep their places. -/
def popWhere (q : TaskQueue F) (eligible : VertexId → Bool) : Option (Task F) × TaskQueue F :=
  let (found, order) := q.order.takeFirst (q.entries.contains ·.seq) (eligible ·.vertex)
  let q := { q with order }
  match found with
  | none => (none, q)
  | some k => q.take k.seq

/-- Takes out the first task. -/
def pop (q : TaskQueue F) : Option (Task F) × TaskQueue F :=
  q.popWhere fun _ => true

/-- Drops all tasks. -/
def clear (q : TaskQueue F) : TaskQueue F :=
  { q with order := .empty q.kind, entries := {}, byVertex := {} }

/-- The tasks in the order in which they would be popped, at most `count` of them. -/
def drain : Nat → TaskQueue F → List (Task F)
  | 0, _ => []
  | count + 1, q =>
    match q.pop with
    | (none, _) => []
    | (some t, q) => t :: drain count q

/-- All tasks in the order in which they would be popped. -/
def toList (q : TaskQueue F) : List (Task F) :=
  q.drain q.size

/-- A developer's view of a queue. -/
def summary (q : TaskQueue F) : String :=
  s!"TaskQueue \x7b kind: {Choice.label q.kind}, policy: {Choice.label q.policy}, "
    ++ s!"pending: {q.size} \x7d"

end TaskQueue

end VertexEngine
