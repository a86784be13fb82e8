import VertexEngine.Program
import VertexEngine.Queue.Priority

/-!
# Shortest paths

Shortest paths from a root by relaxation.  The value of a vertex is the best distance known for it.
An update pulls the best distance over the edges that enter the vertex, and then asks for an update
of every vertex that the edges leaving it can now improve.

Nothing is used of distances but the five operations of `Distance`.
-/

namespace VertexEngine

/-- What can be done with distances and weights. -/
class Distance (W : Type) where
  zero : W
  /-- The distance of a vertex that was not reached. -/
  infinity : W
  add : W → W → W
  /-- The smaller of two distances. -/
  min : W → W → W
  lt : W → W → Bool

/-- Distances are doubles.  Of a number and a not-a-number the smaller one is the number, and of
equal ones, which may be zeros of either sign, it is the second. -/
instance : Distance Float where
  zero := 0.0
  infinity := Float.ofBits 0x7ff0000000000000
  add x y := x + y
  min x y := if y.isNaN || x < y then x else y
  lt x y := x < y

namespace ShortestPath

variable {F W T O : Type} [Distance W]

/-- Sets every distance to infinity, and that of the root to zero. -/
def initDistances (root : VertexId) : Graph.Edit W W Unit := do
  Graph.fill Distance.infinity
  Graph.setValue root Distance.zero

/-- The best of `best` and the distances over the given edges. -/
def pull (best : W) : List (Edge W) → Program F W T O W
  | [] => return best
  | e :: rest => do
    let there ← Program.read e.source
    pull (Distance.min best (Distance.add there e.data)) rest

/-- Asks for an update of every target that gets closer over an edge from a vertex at distance
`distance`. -/
def push (update : F) (distance : W) : List (Edge W) → Program F W T O Unit
  | [] => return ()
  | e :: rest => do
    let there ← Program.read e.target
    if Distance.lt (Distance.add distance e.data) there then
      Program.schedule e.target update Priority.default
    push update distance rest

/-- The relaxation of a vertex by the update function with this name. -/
def relax (update : F) (t : Topology W) (v : VertexId) : Program F W T O Unit := do
  let own ← Program.read v
  let incoming ← Program.ofExcept (t.incomingEdges v)
  let distance ← pull own incoming.toList
  Program.write distance
  let outgoing ← Program.ofExcept (t.outgoingEdges v)
  push update distance outgoing.toList

end ShortestPath

end VertexEngine
