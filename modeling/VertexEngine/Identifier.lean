/-!
# Identifiers

Vertices and edges are numbered by their places in the graph, in 32-bit words; syncs are numbered
in the order in which they were registered anywhere.
-/

namespace VertexEngine

/-- The place of a vertex in its graph. -/
abbrev VertexId := UInt32

/-- The place of an edge in its graph. -/
abbrev EdgeId := UInt32

/-- The number of a registered sync, never given twice. -/
abbrev SyncId := Nat

end VertexEngine
