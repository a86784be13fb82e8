import Mathlib.Data.List.Range
import VertexEngine.Graph.Basic
import VertexEngine.Proofs.Keeps

/-!
# Graphs that were built

Users change a graph through its own operations only, and `Graph.Built` are the graphs that these
can make of an empty one.  Such a graph is `WellFormed`: every edge joins two of its vertices, and
its two indices list exactly the edges at each vertex, in the order of their numbers.

* `idsAt` is the list that an index has to hold, and `filterMap_idsAt` reads the edges back from it.
* `WellFormed.grow`, `WellFormed.pushEdge` and `WellFormed.setValues` are the ways a graph changes.
* `WellFormed.outgoingEdges` and `WellFormed.incomingEdges` are what programs rely on.
-/

namespace VertexEngine

namespace Graph

variable {V E : Type}

/-! ## Lists of edge numbers -/

/-- The numbers of the edges with a property, in increasing order. -/
def idsAt (edges : Array (Edge E)) (p : Edge E → Bool) : List EdgeId :=
  (edges.toList.zipIdx.filter fun x => p x.1).map fun x => UInt32.ofNat x.2

theorem idsAt_push (edges : Array (Edge E)) (e : Edge E) (p : Edge E → Bool) :
    idsAt (edges.push e) p =
      if p e then idsAt edges p ++ [UInt32.ofNat edges.size] else idsAt edges p := by
  simp only [idsAt, Array.toList_push, List.zipIdx_append, List.filter_append, List.map_append]
  split <;> simp_all

/-- Reading the edges with these numbers gives the edges with the property. -/
theorem filterMap_idsAt {edges : Array (Edge E)} (h : edges.size ≤ maxEdges) (p : Edge E → Bool) :
    (idsAt edges p).filterMap (fun id => edges[id.toNat]?) = edges.toList.filter p := by
  have hread : ∀ x ∈ edges.toList.zipIdx.filter (fun x => p x.1),
      edges[(UInt32.ofNat x.2).toNat]? = some x.1 := by
    intro x hx
    have hget := List.mem_zipIdx_iff_getElem?.mp (List.mem_filter.mp hx).1
    have hlt : x.2 < UInt32.size :=
      Nat.lt_of_lt_of_le (by simpa using (List.getElem?_eq_some_iff.mp hget).1) h
    rw [UInt32.toNat_ofNat_of_lt' hlt, ← Array.getElem?_toList]
    exact hget
  rw [idsAt, List.filterMap_map]
  calc (edges.toList.zipIdx.filter fun x => p x.1).filterMap
        ((fun id : EdgeId => edges[id.toNat]?) ∘ fun x => UInt32.ofNat x.2)
      = (edges.toList.zipIdx.filter fun x => p x.1).filterMap fun x => some x.1 :=
        List.filterMap_congr hread
    _ = (edges.toList.zipIdx.filter fun x => p x.1).map Prod.fst := by
        rw [← List.filterMap_eq_map]; rfl
    _ = (edges.toList.zipIdx.map Prod.fst).filter p := by rw [List.filter_map]; rfl
    _ = edges.toList.filter p := by rw [List.zipIdx_map_fst]

/-! ## Well-formed graphs -/

theorem contains_congr {g g' : Graph V E} (h : g'.values.size = g.values.size) :
    g'.contains = g.contains := by
  funext v
  rw [contains, contains, h]

/-- Every edge joins two vertices, and the indices list exactly the edges at each vertex. -/
structure WellFormed (g : Graph V E) : Prop where
  values_size : g.values.size ≤ maxVertices
  edges_size : g.edges.size ≤ maxEdges
  outgoing_size : g.outgoing.size = g.values.size
  incoming_size : g.incoming.size = g.values.size
  source_lt : ∀ e ∈ g.edges, e.source.toNat < g.values.size
  target_lt : ∀ e ∈ g.edges, e.target.toNat < g.values.size
  outgoing : ∀ (v : Nat) (ids : Array EdgeId), g.outgoing[v]? = some ids →
    ids.toList = idsAt g.edges fun e => e.source.toNat == v
  incoming : ∀ (v : Nat) (ids : Array EdgeId), g.incoming[v]? = some ids →
    ids.toList = idsAt g.edges fun e => e.target.toNat == v

namespace WellFormed

variable {g : Graph V E}

theorem empty : ({} : Graph V E).WellFormed := by
  refine ⟨Nat.zero_le _, Nat.zero_le _, rfl, rfl, ?_, ?_, ?_, ?_⟩ <;> simp

theorem contains_source (h : g.WellFormed) {e : Edge E} (he : e ∈ g.edges) :
    g.contains e.source = true :=
  decide_eq_true (h.source_lt e he)

theorem contains_target (h : g.WellFormed) {e : Edge E} (he : e ∈ g.edges) :
    g.contains e.target = true :=
  decide_eq_true (h.target_lt e he)

theorem setValues (h : g.WellFormed) {values : Array V} (hs : values.size = g.values.size) :
    ({ g with values } : Graph V E).WellFormed := by
  refine ⟨hs ▸ h.values_size, h.edges_size, hs ▸ h.outgoing_size, hs ▸ h.incoming_size,
    hs ▸ h.source_lt, hs ▸ h.target_lt, h.outgoing, h.incoming⟩

theorem of_topology (h : g.WellFormed) {g' : Graph V E} (ht : g'.toTopology = g.toTopology)
    (hs : g'.values.size = g.values.size) : g'.WellFormed := by
  have hg' : g' = { g with values := g'.values } := by
    rw [← ht]
  rw [hg']
  exact h.setValues hs

/-- More vertices, without edges. -/
theorem grow (h : g.WellFormed) {count : Nat} (x : V) (hc : g.values.size + count ≤ maxVertices) :
    (g.grow count x).WellFormed := by
  have hnone : ∀ (key : Edge E → VertexId), (∀ e ∈ g.edges, (key e).toNat < g.values.size) →
      ∀ v, g.values.size ≤ v → idsAt g.edges (fun e => (key e).toNat == v) = [] := by
    intro key hlt v hv
    rw [idsAt, List.map_eq_nil_iff, List.filter_eq_nil_iff]
    intro y hy
    have hmem : y.1 ∈ g.edges := by
      rw [← Array.mem_toList_iff]
      exact List.mem_of_getElem? (List.mem_zipIdx_iff_getElem?.mp hy)
    have := hlt y.1 hmem
    simp
    omega
  have hindex : ∀ (key : Edge E → VertexId) (index : Array (Array EdgeId)),
      index.size = g.values.size → (∀ e ∈ g.edges, (key e).toNat < g.values.size) →
      (∀ (v : Nat) (ids : Array EdgeId), index[v]? = some ids →
        ids.toList = idsAt g.edges fun e => (key e).toNat == v) →
      ∀ (v : Nat) (ids : Array EdgeId), (index ++ Array.replicate count #[])[v]? = some ids →
        ids.toList = idsAt g.edges fun e => (key e).toNat == v := by
    intro key index hsize hlt hold v ids hv
    rw [Array.getElem?_append] at hv
    split at hv
    · exact hold v ids hv
    · rename_i hge
      rw [Array.getElem?_replicate] at hv
      split at hv
      · obtain rfl := Option.some.inj hv
        rw [hnone key hlt v (by omega)]
      · cases hv
  have hsize : (g.grow count x).values.size = g.values.size + count := by simp [Graph.grow]
  have hle : g.values.size ≤ (g.grow count x).values.size := by omega
  refine ⟨hsize ▸ hc, h.edges_size, ?_, ?_, ?_, ?_, ?_, ?_⟩
  · simp [Graph.grow, h.outgoing_size]
  · simp [Graph.grow, h.incoming_size]
  · exact fun e he => Nat.lt_of_lt_of_le (h.source_lt e he) hle
  · exact fun e he => Nat.lt_of_lt_of_le (h.target_lt e he) hle
  · exact hindex Edge.source g.outgoing h.outgoing_size h.source_lt h.outgoing
  · exact hindex Edge.target g.incoming h.incoming_size h.target_lt h.incoming

/-- One more edge, which both indices list last. -/
theorem pushEdge (h : g.WellFormed) {source target : VertexId} (data : E)
    (hs : g.contains source = true) (ht : g.contains target = true)
    (hfull : g.edges.size < maxEdges) :
    ({ g with
      edges := g.edges.push ⟨source, target, data⟩
      outgoing := g.outgoing.modify source.toNat (·.push (UInt32.ofNat g.edges.size))
      incoming := g.incoming.modify target.toNat (·.push (UInt32.ofNat g.edges.size)) }
      : Graph V E).WellFormed := by
  have hindex : ∀ (key : Edge E → VertexId) (index : Array (Array EdgeId)),
      (∀ (v : Nat) (ids : Array EdgeId), index[v]? = some ids →
        ids.toList = idsAt g.edges fun e => (key e).toNat == v) →
      ∀ (v : Nat) (ids : Array EdgeId),
        (index.modify (key ⟨source, target, data⟩).toNat
          (·.push (UInt32.ofNat g.edges.size)))[v]? = some ids →
        ids.toList = idsAt (g.edges.push ⟨source, target, data⟩) fun e => (key e).toNat == v := by
    intro key index hold v ids hv
    rw [Array.getElem?_modify] at hv
    rw [idsAt_push]
    split at hv
    · rename_i he
      obtain ⟨old, hget, rfl⟩ := Option.map_eq_some_iff.mp hv
      rw [if_pos (by simpa using he), Array.toList_push, hold v old hget]
    · rename_i he
      rw [if_neg (by simpa using he)]
      exact hold v ids hv
  have hmem : ∀ {P : Edge E → Prop}, (∀ e ∈ g.edges, P e) → P ⟨source, target, data⟩ →
      ∀ e ∈ g.edges.push ⟨source, target, data⟩, P e := by
    intro P hold hnew e he
    rcases Array.mem_push.mp he with he | rfl
    · exact hold e he
    · exact hnew
  refine ⟨h.values_size, ?_, ?_, ?_, ?_, ?_, ?_, ?_⟩
  · rw [Array.size_push]
    exact hfull
  · simpa using h.outgoing_size
  · simpa using h.incoming_size
  · exact hmem h.source_lt (by simpa [Graph.contains] using hs)
  · exact hmem h.target_lt (by simpa [Graph.contains] using ht)
  · exact hindex Edge.source g.outgoing h.outgoing
  · exact hindex Edge.target g.incoming h.incoming

/-- The edges that leave a vertex. -/
theorem outgoingEdges (h : g.WellFormed) {v : VertexId} (hv : g.contains v = true) :
    ∃ c, g.toTopology.outgoingEdges v = .ok c ∧
      c.toList = g.edges.toList.filter fun e => e.source == v := by
  have hlt : v.toNat < g.outgoing.size := by
    rw [h.outgoing_size]
    simpa [Graph.contains] using hv
  have hget := Array.getElem?_eq_getElem hlt
  refine ⟨⟨g.edges, g.outgoing[v.toNat].toList⟩, ?_, ?_⟩
  · simp only [Topology.outgoingEdges, Topology.cursor, hget]
  · rw [EdgeCursor.toList, h.outgoing _ _ hget, filterMap_idsAt h.edges_size]
    refine List.filter_congr fun e _ => ?_
    rw [Bool.eq_iff_iff, beq_iff_eq, beq_iff_eq, UInt32.toNat_inj]

/-- The edges that enter a vertex. -/
theorem incomingEdges (h : g.WellFormed) {v : VertexId} (hv : g.contains v = true) :
    ∃ c, g.toTopology.incomingEdges v = .ok c ∧
      c.toList = g.edges.toList.filter fun e => e.target == v := by
  have hlt : v.toNat < g.incoming.size := by
    rw [h.incoming_size]
    simpa [Graph.contains] using hv
  have hget := Array.getElem?_eq_getElem hlt
  refine ⟨⟨g.edges, g.incoming[v.toNat].toList⟩, ?_, ?_⟩
  · simp only [Topology.incomingEdges, Topology.cursor, hget]
  · rw [EdgeCursor.toList, h.incoming _ _ hget, filterMap_idsAt h.edges_size]
    refine List.filter_congr fun e _ => ?_
    rw [Bool.eq_iff_iff, beq_iff_eq, beq_iff_eq, UInt32.toNat_inj]

end WellFormed

/-! ## Operations -/

/-- An operation that changes a graph outside of a run. -/
inductive Operation (V E : Type) where
  | addVertex (x : V)
  | addEdge (source target : VertexId) (data : E)
  | ensureVertices (count : Nat) (x : V)
  | fill (x : V)
  | mapValues (f : VertexId → V → V)
  | setValue (v : VertexId) (x : V)

/-- The change of the graph; an answer with a number is not looked at. -/
def Operation.edit : Operation V E → Edit V E Unit
  | addVertex x => do
    let _ ← Graph.addVertex x
  | addEdge source target data => do
    let _ ← Graph.addEdge source target data
  | ensureVertices count x => Graph.ensureVertices count x
  | fill x => Graph.fill x
  | mapValues f => Graph.mapValues f
  | setValue v x => Graph.setValue v x

/-- The graphs that operations, successful or not, make of an empty one. -/
inductive Built : Graph V E → Prop
  | empty : Built {}
  | operation {g : Graph V E} (h : Built g) (op : Operation V E) : Built (op.edit.run g).2

theorem check_eq_ok {g : Graph V E} {v : VertexId} {u : Unit} (h : g.check v = .ok u) :
    g.contains v = true := by
  unfold check at h
  split at h
  · assumption
  · cases h

theorem Operation.keeps_wellFormed (op : Operation V E) : Keeps WellFormed op.edit := by
  cases op with
  | addVertex x =>
    refine .bind (.get_bind fun g h => ?_) fun _ => .pure ()
    split
    · exact .throw _
    · rename_i hfull
      exact .bind (.set (h.grow x (Nat.lt_of_not_le hfull))) fun _ => .pure _
  | addEdge source target data =>
    refine .bind (.get_bind fun g h => .check_bind fun _ hs => .check_bind fun _ ht => ?_)
      fun _ => .pure ()
    split
    · exact .throw _
    · rename_i hfull
      exact .bind (.set (h.pushEdge data (check_eq_ok hs) (check_eq_ok ht)
        (Nat.lt_of_not_le hfull))) fun _ => .pure _
  | ensureVertices count x =>
    show Keeps WellFormed (Graph.ensureVertices count x)
    unfold Graph.ensureVertices
    split
    · exact .throw_bind _ _
    · refine .modify fun g h => h.grow x ?_
      have := h.values_size
      unfold Graph.vertexCount
      omega
  | fill x => exact .modify fun g h => h.setValues (by simp)
  | mapValues f => exact .modify fun g h => h.setValues (by simp)
  | setValue v x =>
    exact .get_bind fun g h => .check_bind fun _ _ => .set (h.setValues (by simp))

/-- No operation takes a vertex away. -/
theorem Operation.keeps_size (n : Nat) (op : Operation V E) :
    Keeps (fun g : Graph V E => n ≤ g.values.size) op.edit := by
  cases op with
  | addVertex x =>
    refine .bind (.get_bind fun g h => ?_) fun _ => .pure ()
    split
    · exact .throw _
    · exact .bind (.set (by simp [Graph.grow]; omega)) fun _ => .pure _
  | addEdge source target data =>
    refine .bind (.get_bind fun g h => .check_bind fun _ _ => .check_bind fun _ _ => ?_)
      fun _ => .pure ()
    split
    · exact .throw _
    · exact .bind (.set h) fun _ => .pure _
  | ensureVertices count x =>
    show Keeps _ (Graph.ensureVertices count x)
    unfold Graph.ensureVertices
    split
    · exact .throw_bind _ _
    · exact .modify fun g h => by simp [Graph.grow]; omega
  | fill x => exact .modify fun g h => by simpa using h
  | mapValues f => exact .modify fun g h => by simpa using h
  | setValue v x => exact .get_bind fun g h => .check_bind fun _ _ => .set (by
      simpa [Graph.withValue] using h)

theorem Built.wellFormed {g : Graph V E} (h : Built g) : g.WellFormed := by
  induction h with
  | empty => exact .empty
  | operation _ op ih => exact op.keeps_wellFormed _ ih

end Graph

end VertexEngine
