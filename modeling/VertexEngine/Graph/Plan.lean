import VertexEngine.Graph.Basic

/-!
# Graph plans

A graph of doubles described step by step.  A plan only ever grows the number of vertices, and an
edge brings its endpoints along; so a plan within the size limits always gives a graph.
-/

namespace VertexEngine.Graph

/-- What a graph is to hold. -/
structure Plan where
  vertexCount : Nat := 0
  /-- The value of every vertex. -/
  initial : Float := Float.ofBits 0x7ff0000000000000
  /-- The edges, in the order of their numbers. -/
  edges : List (Edge Float) := []

namespace Plan

/-- At least `count` vertices. -/
def vertices (p : Plan) (count : Nat) : Plan :=
  { p with vertexCount := max p.vertexCount count }

def initially (p : Plan) (x : Float) : Plan :=
  { p with initial := x }

/-- One more edge, and its endpoints. -/
def edge (p : Plan) (source target : VertexId) (weight : Float) : Plan :=
  { p with
    vertexCount := max p.vertexCount (max source.toNat target.toNat + 1)
    edges := p.edges ++ [⟨source, target, weight⟩] }

/-- Adds what the plan says to a graph. -/
def realize (p : Plan) : Edit Float Float Unit := do
  ensureVertices p.vertexCount p.initial
  for e in p.edges do
    let _ ← addEdge e.source e.target e.data

/-- The graph of a plan. -/
def build (p : Plan) : Graph Float Float :=
  (p.realize.run {}).2

/-- Three vertices; the shortest way from 0 to 2 goes through 1. -/
def triangle : Plan :=
  Plan.edge {} 0 1 1.0 |>.edge 1 2 2.0 |>.edge 0 2 5.0

end Plan

end VertexEngine.Graph
