import VertexEngine.Error

/-!
# Directed graphs

A directed graph with a value at every vertex and data on every edge.  Vertices and edges are
numbered from zero in the order in which they were added.  Both edges out of and edges into a vertex
are indexed, in the order of their numbers.

The part of a graph that a run never changes is its `Topology`; a `Graph` adds the values.  An
`Edit` changes a graph outside of a run; when it fails, the graph stays as it was at that point.
-/

namespace VertexEngine

/-- A directed edge and what is attached to it. -/
structure Edge (E : Type) where
  source : VertexId
  target : VertexId
  data : E
  deriving DecidableEq, Repr

/-- The edges of a graph, indexed by both endpoints. -/
structure Topology (E : Type) where
  edges : Array (Edge E) := #[]
  /-- The edges that leave each vertex. -/
  outgoing : Array (Array EdgeId) := #[]
  /-- The edges that enter each vertex. -/
  incoming : Array (Array EdgeId) := #[]

/-- A graph: its edges and the value at each vertex. -/
structure Graph (V E : Type) extends Topology E where
  values : Array V := #[]

/-- The most vertices a graph can hold: their count itself is to fit into 32 bits. -/
def Graph.maxVertices : Nat := UInt32.size - 1

/-- The most edges a graph can hold. -/
def Graph.maxEdges : Nat := UInt32.size

/-! ## Edges at a vertex -/

/-- A place in the sequence of a vertex's edges.  Cursors are values, so a copy goes on
independently. -/
structure EdgeCursor (E : Type) where
  edges : Array (Edge E)
  rest : List EdgeId

namespace EdgeCursor

variable {E : Type}

/-- The next edge and the place behind it. -/
def next? (c : EdgeCursor E) : Option (Edge E × EdgeCursor E) :=
  match c.rest with
  | [] => none
  | id :: rest => c.edges[id.toNat]?.map (·, { c with rest })

/-- The number of edges still to come. -/
def remaining (c : EdgeCursor E) : Nat :=
  c.rest.length

/-- The next edges, at most `count` of them, and the place behind them. -/
def take : Nat → EdgeCursor E → List (Edge E) × EdgeCursor E
  | 0, c => ([], c)
  | count + 1, c =>
    match c.next? with
    | none => ([], c)
    | some (e, c) =>
      let (rest, c) := c.take count
      (e :: rest, c)

/-- The edges still to come. -/
def toList (c : EdgeCursor E) : List (Edge E) :=
  c.rest.filterMap fun id => c.edges[id.toNat]?

end EdgeCursor

namespace Topology

variable {E : Type}

/-- A cursor before the first of the edges that `index` lists for the vertex. -/
def cursor (t : Topology E) (index : Array (Array EdgeId)) (v : VertexId) :
    Except EngineError (EdgeCursor E) :=
  match index[v.toNat]? with
  | some ids => .ok ⟨t.edges, ids.toList⟩
  | none => .error (.notFound v)

/-- The edges that leave a vertex. -/
def outgoingEdges (t : Topology E) (v : VertexId) : Except EngineError (EdgeCursor E) :=
  t.cursor t.outgoing v

/-- The edges that enter a vertex. -/
def incomingEdges (t : Topology E) (v : VertexId) : Except EngineError (EdgeCursor E) :=
  t.cursor t.incoming v

def outDegree (t : Topology E) (v : VertexId) : Except EngineError Nat :=
  return (← t.outgoingEdges v).remaining

def inDegree (t : Topology E) (v : VertexId) : Except EngineError Nat :=
  return (← t.incomingEdges v).remaining

def edge? (t : Topology E) (e : EdgeId) : Option (Edge E) :=
  t.edges[e.toNat]?

end Topology

namespace Graph

variable {V E : Type}

/-! ## What a graph holds -/

def vertexCount (g : Graph V E) : Nat :=
  g.values.size

def edgeCount (g : Graph V E) : Nat :=
  g.edges.size

def contains (g : Graph V E) (v : VertexId) : Bool :=
  v.toNat < g.values.size

/-- Refuses a number that is no vertex. -/
def check (g : Graph V E) (v : VertexId) : Except EngineError Unit :=
  if g.contains v then .ok () else .error (.notFound v)

/-- The numbers of the vertices, in increasing order. -/
def vertexIds (g : Graph V E) : List VertexId :=
  (List.range g.values.size).map UInt32.ofNat

/-- The vertices with their values, in the order of their numbers. -/
def vertices (g : Graph V E) : List (VertexId × V) :=
  g.values.toList.zipIdx.map fun (x, i) => (UInt32.ofNat i, x)

def value (g : Graph V E) (v : VertexId) : Except EngineError V :=
  match g.values[v.toNat]? with
  | some x => .ok x
  | none => .error (.notFound v)

/-- The graph with `x` at the vertex; a number that is no vertex changes nothing. -/
def withValue (g : Graph V E) (v : VertexId) (x : V) : Graph V E :=
  { g with values := g.values.setIfInBounds v.toNat x }

/-- An estimate of the bytes held: a vertex takes a value and two lists, an edge takes itself and
an entry in each of two lists. -/
def memoryUsage (g : Graph V E) : Nat :=
  let lists (index : Array (Array EdgeId)) : Nat :=
    index.foldl (fun n ids => n + 24 + 4 * ids.size) 0
  16 * g.values.size + 16 * g.edges.size + lists g.outgoing + lists g.incoming

/-- A developer's view of a graph. -/
def summary (g : Graph V E) : String :=
  s!"Graph \x7b vertices: {g.vertexCount}, edges: {g.edgeCount} \x7d"

/-- The graph with `count` more vertices, which hold `x` and have no edges. -/
def grow (g : Graph V E) (count : Nat) (x : V) : Graph V E :=
  { g with
    values := g.values ++ Array.replicate count x
    outgoing := g.outgoing ++ Array.replicate count #[]
    incoming := g.incoming ++ Array.replicate count #[] }

/-! ## Edits -/

/-- A change of a graph that can fail; a failure leaves the graph as it was at that point. -/
abbrev Edit (V E α : Type) := ExceptT EngineError (StateM (Graph V E)) α

/-- Adds a vertex with a value. -/
def addVertex (x : V) : Edit V E VertexId := do
  let g ← get
  if maxVertices ≤ g.vertexCount then
    throw (.graphFull maxVertices)
  set (g.grow 1 x)
  return UInt32.ofNat g.vertexCount

/-- Adds an edge between two vertices; the source is checked first. -/
def addEdge (source target : VertexId) (data : E) : Edit V E EdgeId := do
  let g ← get
  g.check source
  g.check target
  if maxEdges ≤ g.edgeCount then
    throw (.graphFull maxEdges)
  let id := UInt32.ofNat g.edgeCount
  set { g with
    edges := g.edges.push ⟨source, target, data⟩
    outgoing := g.outgoing.modify source.toNat (·.push id)
    incoming := g.incoming.modify target.toNat (·.push id) }
  return id

/-- Adds vertices with value `x` until there are `count`; never takes one away. -/
def ensureVertices (count : Nat) (x : V) : Edit V E Unit := do
  if maxVertices < count then
    throw (.graphFull maxVertices)
  modify fun g => g.grow (count - g.vertexCount) x

/-- Changes every value, given the number of its vertex. -/
def mapValues (f : VertexId → V → V) : Edit V E Unit :=
  modify fun g => { g with values := g.values.mapIdx fun i x => f (UInt32.ofNat i) x }

/-- Sets every value to `x`. -/
def fill (x : V) : Edit V E Unit :=
  mapValues fun _ _ => x

/-- Sets the value of one vertex. -/
def setValue (v : VertexId) (x : V) : Edit V E Unit := do
  let g ← get
  g.check v
  set (g.withValue v x)

end Graph

end VertexEngine
