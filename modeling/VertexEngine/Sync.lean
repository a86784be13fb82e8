import VertexEngine.Graph.Basic

/-!
# Syncs

A sync folds the values of a range of vertices into one shared value, which vertex programs can
read.  It is evaluated when a run starts and, if it has an interval, again after every so many
updates.  An evaluation may break off, when a function of the user panics; then nothing is
published.
-/

namespace VertexEngine

/-- What a sync computes, and when. -/
structure SyncSpec (V T : Type) where
  zero : T
  /-- Takes one vertex into the total; `none` when it panics. -/
  fold : T → VertexId → V → Option T
  /-- Applied to the total before it is published; `none` when it panics. -/
  finish : T → Option T := some
  /-- The number of updates between two evaluations in a run; zero for none. -/
  interval : Nat := 0
  /-- The smallest and the greatest vertex that take part. -/
  low : VertexId := 0
  high : VertexId := 4294967295

namespace SyncSpec

variable {V T : Type}

/-- Whether a vertex takes part. -/
def covers (s : SyncSpec V T) (v : VertexId) : Bool :=
  s.low ≤ v && v ≤ s.high

/-- Whether an evaluation is due after this many updates of a run. -/
def isDue (s : SyncSpec V T) (updates : Nat) : Bool :=
  0 < s.interval && updates % s.interval = 0

/-- The value for these vertices, taken in their order; `none` when the evaluation panics. -/
def evaluate (s : SyncSpec V T) (vertices : List (VertexId × V)) : Option T :=
  let covered := vertices.filter fun (v, _) => s.covers v
  (covered.foldlM (fun acc (v, x) => s.fold acc v x) s.zero).bind s.finish

end SyncSpec

/-- A sync with its number and the value that was published last. -/
structure Sync (V T : Type) where
  id : SyncId
  spec : SyncSpec V T
  value : T

/-- The syncs of one engine, in the order in which they were registered. -/
structure SyncSet (V T : Type) where
  syncs : List (Sync V T) := []
  /-- The number of evaluations so far. -/
  performed : Nat := 0

/-- How an evaluation of several syncs went: the ones that were published, and whether it broke
off. -/
structure SyncRound where
  published : List SyncId := []
  broken : Bool := false

namespace SyncSet

variable {V E T : Type}

def contains (s : SyncSet V T) (id : SyncId) : Bool :=
  s.syncs.any (·.id == id)

/-- The value that a sync published last; before the first evaluation, its zero. -/
def value? (s : SyncSet V T) (id : SyncId) : Option T :=
  (s.syncs.find? (·.id == id)).map (·.value)

/-- Adds a sync under a number that is not in use. -/
def register (s : SyncSet V T) (id : SyncId) (spec : SyncSpec V T) : SyncSet V T :=
  { s with syncs := s.syncs ++ [⟨id, spec, spec.zero⟩] }

/-- Publishes a value. -/
def publish (s : SyncSet V T) (id : SyncId) (value : T) : SyncSet V T :=
  { syncs := s.syncs.map fun sync => if sync.id = id then { sync with value } else sync
    performed := s.performed + 1 }

/-- Evaluates the given syncs one after the other, and stops at the first that panics. -/
def evaluate (s : SyncSet V T) (g : Graph V E) : List (Sync V T) → SyncSet V T × SyncRound
  | [] => (s, {})
  | sync :: rest =>
    match sync.spec.evaluate g.vertices with
    | none => (s, { broken := true })
    | some x =>
      let (s, round) := (s.publish sync.id x).evaluate g rest
      (s, { round with published := sync.id :: round.published })

/-- Evaluates every sync. -/
def evaluateAll (s : SyncSet V T) (g : Graph V E) : SyncSet V T × SyncRound :=
  s.evaluate g s.syncs

/-- The syncs that are due after this many updates of a run. -/
def due (s : SyncSet V T) (updates : Nat) : List (Sync V T) :=
  s.syncs.filter (·.spec.isDue updates)

/-- Evaluates the syncs that are due after this many updates of a run. -/
def afterUpdate (s : SyncSet V T) (updates : Nat) (g : Graph V E) : SyncSet V T × SyncRound :=
  s.evaluate g (s.due updates)

/-- Evaluates the sync with this number; `none` if there is none. -/
def evaluateOne (s : SyncSet V T) (id : SyncId) (g : Graph V E) :
    Option (SyncSet V T × SyncRound) :=
  (s.syncs.find? (·.id == id)).map fun sync => s.evaluate g [sync]

end SyncSet

/-- A developer's view of a published value. -/
def sharedSummary (id : SyncId) (value : Float) : String :=
  s!"Shared \x7b id: {id}, value: " ++ Decimal.pointed.text value ++ " \x7d"

end VertexEngine
