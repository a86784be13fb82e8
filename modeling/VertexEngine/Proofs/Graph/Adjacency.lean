import Mathlib.Algebra.BigOperators.Group.List.Basic
import Mathlib.Algebra.GroupWithZero.Nat
import VertexEngine.Proofs.Graph.Built
import VertexEngine.Proofs.Graph.Cursor
import VertexEngine.Proofs.Graph.Edit

/-!
# Adjacency

An edge is recorded in three places: in the row of edges, and in the two indices that list it at its
source and at its target.  They agree whatever is done with a graph, calls that fail included.

* `Graph.Indexed` says what one of the two indices tells about the edges, and `indexed_cursor`
  derives it from the lists that the index holds.
* `Graph.Extends` says what no operation takes away, renumbers or reorders.
* `Graph.Built.adjacency` is the result.
-/

namespace VertexEngine

namespace Graph

variable {V E : Type} {g g' : Graph V E}

/-! ## Numbers -/

theorem map_toNat_vertexIds (h : g.values.size ≤ maxVertices) :
    g.vertexIds.map UInt32.toNat = List.range g.vertexCount := by
  rw [vertexIds, List.map_map, vertexCount]
  calc (List.range g.values.size).map (UInt32.toNat ∘ UInt32.ofNat)
      = (List.range g.values.size).map id := by
        refine List.map_congr_left fun i hi => ?_
        have hlt := List.mem_range.mp hi
        refine UInt32.toNat_ofNat_of_lt' ?_
        unfold maxVertices at h
        omega
    _ = List.range g.values.size := List.map_id _

theorem vertices_eq_zip (g : Graph V E) : g.vertices = g.vertexIds.zip g.values.toList := by
  refine List.ext_getElem (by simp [vertices, vertexIds]) fun i hi hi' => ?_
  simp [vertices, vertexIds]

theorem contains_of_mem_vertexIds (h : g.values.size ≤ maxVertices) {v : VertexId}
    (hv : v ∈ g.vertexIds) : g.contains v = true := by
  have hmem : v.toNat ∈ g.vertexIds.map UInt32.toNat := List.mem_map_of_mem hv
  rw [map_toNat_vertexIds h, List.mem_range] at hmem
  simpa [contains, vertexCount] using hmem

theorem mem_vertexIds {v : VertexId} (h : g.contains v = true) : v ∈ g.vertexIds :=
  List.mem_map.mpr ⟨v.toNat, List.mem_range.mpr (of_decide_eq_true h), UInt32.ofNat_toNat⟩

section

variable {edges : Array (Edge E)} {p : Edge E → Bool}

theorem lt_of_mem_zipIdx {x : Edge E × Nat} (h : x ∈ edges.toList.zipIdx.filter fun x => p x.1) :
    x.2 < edges.size := by
  have hget := List.mem_zipIdx_iff_getElem?.mp (List.mem_filter.mp h).1
  simpa using (List.getElem?_eq_some_iff.mp hget).1

theorem lt_of_mem_idsAt {id : EdgeId} (h : id ∈ idsAt edges p) : id.toNat < edges.size := by
  obtain ⟨x, hx, rfl⟩ := List.mem_map.mp h
  rw [UInt32.toNat_ofNat']
  exact Nat.lt_of_le_of_lt (Nat.mod_le _ _) (lt_of_mem_zipIdx hx)

/-- No number is cut off, so the numbers are in increasing order. -/
theorem pairwise_idsAt (h : edges.size ≤ maxEdges) :
    (idsAt edges p).Pairwise fun a b => a.toNat < b.toNat := by
  have hsnd : (edges.toList.zipIdx.map Prod.snd).Pairwise (· < ·) := by
    rw [List.zipIdx_map_snd]
    exact List.pairwise_lt_range'
  rw [idsAt, List.pairwise_map]
  refine ((List.pairwise_map.mp hsnd).filter _).imp_of_mem fun {x y} hx hy hlt => ?_
  rw [UInt32.toNat_ofNat_of_lt' (Nat.lt_of_lt_of_le (lt_of_mem_zipIdx hx) h),
    UInt32.toNat_ofNat_of_lt' (Nat.lt_of_lt_of_le (lt_of_mem_zipIdx hy) h)]
  exact hlt

/-- More edges only add numbers behind the others. -/
theorem idsAt_prefix {more : List (Edge E)} {edges' : Array (Edge E)}
    (h : edges.toList ++ more = edges'.toList) : idsAt edges p <+: idsAt edges' p := by
  rw [idsAt, idsAt, ← h, List.zipIdx_append, List.filter_append, List.map_append]
  exact List.prefix_append _ _

end

/-! ## Degrees -/

theorem sum_map_beq (n k : Nat) :
    ((List.range n).map fun v => if k == v then 1 else 0).sum = if k < n then 1 else 0 := by
  induction n with
  | zero => rfl
  | succ n ih =>
    rw [List.range_succ, List.map_append, List.sum_append, ih]
    simp only [List.map_cons, List.map_nil, List.sum_cons, List.sum_nil, beq_iff_eq]
    split <;> split <;> split <;> omega

/-- Every edge is counted at exactly one vertex. -/
theorem sum_degrees {n : Nat} {key : Edge E → Nat} (es : List (Edge E)) (h : ∀ e ∈ es, key e < n) :
    ((List.range n).map fun v => (es.filter fun e => key e == v).length).sum = es.length := by
  induction es with
  | nil => simp
  | cons e rest ih =>
    have hlength : ∀ v, ((e :: rest).filter fun e => key e == v).length =
        (if key e == v then 1 else 0) + (rest.filter fun e => key e == v).length := by
      intro v
      rw [List.filter_cons]
      split
      · rw [List.length_cons, Nat.add_comm]
      · rw [Nat.zero_add]
    simp only [hlength]
    rw [List.sum_map_add, sum_map_beq, if_pos (h e List.mem_cons_self),
      ih fun e' he' => h e' (List.mem_cons_of_mem _ he'), List.length_cons, Nat.add_comm]

theorem mapM_eq_ok {α β ε : Type} {f : α → Except ε β} {r : α → β} {xs : List α}
    (h : ∀ x ∈ xs, f x = .ok (r x)) : xs.mapM f = .ok (xs.map r) := by
  induction xs with
  | nil => rfl
  | cons x rest ih =>
    rw [List.mapM_cons, h x List.mem_cons_self, ih fun y hy => h y (List.mem_cons_of_mem _ hy)]
    rfl

/-! ## One index -/

/-- What an index tells about the edges with a key: at every vertex it goes over the edges that have
it as their key, each of them once and in the order of their numbers; nowhere else is there any; and
the degrees count every edge once. -/
structure Indexed (g : Graph V E) (edgesAt : VertexId → Except EngineError (EdgeCursor E))
    (degree : VertexId → Except EngineError Nat) (key : Edge E → VertexId) : Prop where
  edges : ∀ v, g.contains v = true → ∃ c, edgesAt v = .ok c ∧ c.edges = g.edges ∧
    c.rest = idsAt g.edges (fun e => key e == v) ∧
    c.rest.Pairwise (fun a b => a.toNat < b.toNat) ∧
    c.Iterates (g.edges.toList.filter fun e => key e == v)
  missing : ∀ v, g.contains v = false → edgesAt v = .error (.notFound v)
  degrees : ∃ ds, g.vertexIds.mapM degree = .ok ds ∧ ds.sum = g.edgeCount

theorem beq_toNat (a b : VertexId) : (a.toNat == b.toNat) = (a == b) := by
  rw [Bool.eq_iff_iff, beq_iff_eq, beq_iff_eq, UInt32.toNat_inj]

theorem indexed_cursor {index : Array (Array EdgeId)} {key : Edge E → VertexId}
    (hv : g.values.size ≤ maxVertices) (he : g.edges.size ≤ maxEdges)
    (hsize : index.size = g.values.size) (hkey : ∀ e ∈ g.edges, (key e).toNat < g.values.size)
    (hindex : ∀ (v : Nat) (ids : Array EdgeId), index[v]? = some ids →
      ids.toList = idsAt g.edges fun e => (key e).toNat == v) :
    g.Indexed (g.cursor index) (fun v => do return (← g.cursor index v).remaining) key := by
  have hcursor : ∀ v, g.contains v = true → g.cursor index v =
      .ok ⟨g.edges, idsAt g.edges fun e => key e == v⟩ := by
    intro v hv
    have hlt : v.toNat < index.size := by
      rw [hsize]
      simpa [contains] using hv
    have hget := Array.getElem?_eq_getElem hlt
    have hids := hindex v.toNat _ hget
    simp only [beq_toNat] at hids
    simp only [Topology.cursor, hget, hids]
  have hread := fun v => filterMap_idsAt he fun e => key e == v
  have hin : ∀ v, ∀ id ∈ idsAt g.edges (fun e => key e == v), id.toNat < g.edges.size :=
    fun v id hid => lt_of_mem_idsAt hid
  have hsorted := fun v => pairwise_idsAt (p := fun e => key e == v) he
  refine ⟨fun v hcontains => ⟨_, hcursor v hcontains, rfl, rfl, hsorted v,
    EdgeCursor.iterates (hin v) (hread v)⟩, fun v hcontains => ?_, ?_⟩
  · have hge : index.size ≤ v.toNat := by
      rw [hsize]
      simpa [contains] using hcontains
    simp only [Topology.cursor, Array.getElem?_eq_none hge]
  · refine ⟨_, mapM_eq_ok (r := fun v => (g.edges.toList.filter fun e => key e == v).length)
      fun v hv' => ?_, ?_⟩
    · rw [hcursor v (contains_of_mem_vertexIds hv hv')]
      refine congrArg Except.ok ?_
      rw [← EdgeCursor.length_toList (hin v)]
      exact congrArg List.length (hread v)
    · have hsum := sum_degrees g.edges.toList fun e h => hkey e (Array.mem_toList_iff.mp h)
      rw [edgeCount, ← Array.length_toList, ← hsum, ← vertexCount, ← map_toNat_vertexIds hv,
        List.map_map]
      simp only [Function.comp_def, beq_toNat]

/-! ## A whole graph -/

/-- What holds of every graph that was built. -/
structure Adjacency (g : Graph V E) : Prop where
  /-- The number of vertices fits into a number of a vertex. -/
  small : g.vertexCount ≤ UInt32.size - 1
  outgoing_size : g.outgoing.size = g.vertexCount
  incoming_size : g.incoming.size = g.vertexCount
  vertexIds : g.vertexIds.map UInt32.toNat = List.range g.vertexCount
  vertices : g.vertices = g.vertexIds.zip g.values.toList
  joins : ∀ e ∈ g.edges, g.contains e.source = true ∧ g.contains e.target = true
  outgoing : g.Indexed g.outgoingEdges g.outDegree Edge.source
  incoming : g.Indexed g.incomingEdges g.inDegree Edge.target

theorem adjacency_of_wellFormed (h : g.WellFormed) : g.Adjacency where
  small := h.values_size
  outgoing_size := h.outgoing_size
  incoming_size := h.incoming_size
  vertexIds := map_toNat_vertexIds h.values_size
  vertices := g.vertices_eq_zip
  joins e he := by
    simp only [contains, decide_eq_true_iff]
    exact ⟨h.source_lt e he, h.target_lt e he⟩
  outgoing := indexed_cursor h.values_size h.edges_size h.outgoing_size h.source_lt h.outgoing
  incoming := indexed_cursor h.values_size h.edges_size h.incoming_size h.target_lt h.incoming

/-- A new edge gets the next number. -/
theorem addEdge_numbered {source target : VertexId} {data : E} {id : EdgeId}
    (h : (Graph.addEdge source target data : Edit V E EdgeId).run g = (.ok id, g')) :
    id.toNat = g.edgeCount ∧ g'.edgeCount = g.edgeCount + 1 ∧
      g'.edge? id = some ⟨source, target, data⟩ := by
  obtain ⟨⟨-, -, hfull⟩, rfl, rfl⟩ := g.addEdge_eq_ok.mp h
  have hid : (UInt32.ofNat g.edgeCount).toNat = g.edgeCount := UInt32.toNat_ofNat_of_lt' hfull
  refine ⟨hid, Array.size_push _, ?_⟩
  rw [Topology.edge?, hid]
  exact Array.getElem?_push_size

/-! ## Later operations -/

/-- The graph after some operations, each of which may have failed. -/
def after (g : Graph V E) (ops : List (Operation V E)) : Graph V E :=
  ops.foldl (fun g op => (op.edit.run g).2) g

theorem Built.after (h : g.Built) (ops : List (Operation V E)) : (g.after ops).Built := by
  induction ops generalizing g with
  | nil => exact h
  | cons op rest ih => exact ih (h.operation op)

/-- The edges that are there stay there, under their numbers, and at every vertex new ones come
behind them. -/
structure Extends (g g' : Graph V E) : Prop where
  edge : ∀ id e, g.edge? id = some e → g'.edge? id = some e
  outgoing : ∀ v c, g.outgoingEdges v = .ok c → ∃ c', g'.outgoingEdges v = .ok c' ∧
    c.rest <+: c'.rest ∧ c.toList <+: c'.toList
  incoming : ∀ v c, g.incomingEdges v = .ok c → ∃ c', g'.incomingEdges v = .ok c' ∧
    c.rest <+: c'.rest ∧ c.toList <+: c'.toList

/-- No operation takes an edge away or changes one. -/
theorem Operation.keeps_prefix (es : List (Edge E)) (op : Operation V E) :
    Keeps (fun g : Graph V E => es <+: g.edges.toList) op.edit := by
  cases op with
  | addVertex x =>
    refine .bind (.get_bind fun g h => ?_) fun _ => .pure ()
    split
    · exact .throw _
    · exact .bind (.set h) fun _ => .pure _
  | addEdge source target data =>
    refine .bind (.get_bind fun g h => .check_bind fun _ _ => .check_bind fun _ _ => ?_)
      fun _ => .pure ()
    split
    · exact .throw _
    · refine .bind (.set ?_) fun _ => .pure _
      rw [Array.toList_push]
      exact h.trans (List.prefix_append _ _)
  | ensureVertices count x =>
    show Keeps _ (Graph.ensureVertices count x)
    unfold Graph.ensureVertices
    split
    · exact .throw_bind _ _
    · exact .modify fun g h => h
  | fill x => exact .modify fun g h => h
  | mapValues f => exact .modify fun g h => h
  | setValue v x => exact .get_bind fun g h => .check_bind fun _ _ => .set h

theorem after_grows (ops : List (Operation V E)) {es : List (Edge E)} {n : Nat}
    (he : es <+: g.edges.toList) (hn : n ≤ g.values.size) :
    es <+: (g.after ops).edges.toList ∧ n ≤ (g.after ops).values.size := by
  induction ops generalizing g with
  | nil => exact ⟨he, hn⟩
  | cons op rest ih => exact ih (op.keeps_prefix es g he) (op.keeps_size n g hn)

theorem cursor_prefix {edgesAt edgesAt' : VertexId → Except EngineError (EdgeCursor E)}
    {degree degree' : VertexId → Except EngineError Nat} {key : Edge E → VertexId}
    (h : g.Indexed edgesAt degree key) (h' : g'.Indexed edgesAt' degree' key)
    (he : g.edges.toList <+: g'.edges.toList) (hs : g.values.size ≤ g'.values.size) {v : VertexId}
    {c : EdgeCursor E} (hc : edgesAt v = .ok c) :
    ∃ c', edgesAt' v = .ok c' ∧ c.rest <+: c'.rest ∧ c.toList <+: c'.toList := by
  have hcontains : g.contains v = true := by
    cases hv : g.contains v with
    | true => rfl
    | false => cases hc.symm.trans (h.missing v hv)
  have hcontains' : g'.contains v = true := by
    simp only [contains, decide_eq_true_iff] at hcontains ⊢
    omega
  obtain ⟨c₀, hc₀, -, hrest, -, hiterates⟩ := h.edges v hcontains
  obtain rfl := Except.ok.inj (hc.symm.trans hc₀)
  obtain ⟨c', hc', -, hrest', -, hiterates'⟩ := h'.edges v hcontains'
  obtain ⟨more, hmore⟩ := he
  refine ⟨c', hc', ?_, ?_⟩
  · rw [hrest, hrest']
    exact idsAt_prefix hmore
  · rw [hiterates.toList_eq, hiterates'.toList_eq, ← hmore, List.filter_append]
    exact List.prefix_append _ _

theorem WellFormed.extends_of_prefix (h : g.WellFormed) (h' : g'.WellFormed)
    (he : g.edges.toList <+: g'.edges.toList) (hs : g.values.size ≤ g'.values.size) :
    g.Extends g' where
  edge id e hid := by
    obtain ⟨more, hmore⟩ := he
    rw [Topology.edge?, ← Array.getElem?_toList] at hid ⊢
    rw [← hmore, List.getElem?_append_left (List.getElem?_eq_some_iff.mp hid).1]
    exact hid
  outgoing v c hc := cursor_prefix (adjacency_of_wellFormed h).outgoing
    (adjacency_of_wellFormed h').outgoing he hs hc
  incoming v c hc := cursor_prefix (adjacency_of_wellFormed h).incoming
    (adjacency_of_wellFormed h').incoming he hs hc

/-- Whatever was done with a new graph, failed calls included: its arrays have the same length, no
number is cut off, every edge joins two vertices, and at every vertex both indices go over exactly
its edges, in the order of their numbers, with any number of copies on the way.  An edge that is
added gets the next number, and nothing that is done later changes an edge, its number or its place
among the edges of a vertex. -/
theorem Built.adjacency (h : g.Built) : g.Adjacency ∧
    (∀ source target data id g', (Graph.addEdge source target data : Edit V E EdgeId).run g =
        (.ok id, g') → id.toNat = g.edgeCount ∧ g'.edgeCount = g.edgeCount + 1 ∧
      g'.edge? id = some ⟨source, target, data⟩) ∧
    (∀ source target data, g.contains source = true → g.contains target = true →
      g.edgeCount < UInt32.size →
      ∃ id g', (Graph.addEdge source target data : Edit V E EdgeId).run g = (.ok id, g')) ∧
    ∀ ops : List (Operation V E), g.Extends (g.after ops) := by
  have hw := h.wellFormed
  refine ⟨adjacency_of_wellFormed hw, fun _ _ _ _ _ hrun => addEdge_numbered hrun,
    fun source target data hs ht hfull => ?_, fun ops => ?_⟩
  · exact ⟨_, _, g.addEdge_eq_ok.mpr ⟨⟨hs, ht, hfull⟩, rfl, rfl⟩⟩
  · obtain ⟨he, hs⟩ := after_grows (g := g) ops (List.prefix_refl _) (Nat.le_refl _)
    exact hw.extends_of_prefix (h.after ops).wellFormed he hs

/-- A loop, two edges that are alike, and a vertex that came after them; one call was refused. -/
def knot : Graph Nat Nat :=
  Graph.after {} [.ensureVertices 2 0, .addEdge 0 1 5, .addEdge 0 0 6, .addEdge 7 0 0,
    .addEdge 0 1 5, .addVertex 3]

/-- Vertex 0 has all three edges of it, one of them twice and one of them a loop. -/
theorem adjacency_knot : knot.Built ∧ knot.edgeCount = 3 ∧
    (∃ c, knot.outgoingEdges 0 = .ok c ∧ c.Iterates [⟨0, 1, 5⟩, ⟨0, 0, 6⟩, ⟨0, 1, 5⟩]) ∧
    (∃ c, knot.incomingEdges 0 = .ok c ∧ c.Iterates [⟨0, 0, 6⟩]) ∧
    knot.Extends (knot.after [.addEdge 2 0 8]) := by
  have hbuilt : knot.Built := Built.empty.after _
  obtain ⟨hadjacency, -, -, hextends⟩ := hbuilt.adjacency
  obtain ⟨c, hc, -, -, -, hiterates⟩ := hadjacency.outgoing.edges 0 rfl
  obtain ⟨c', hc', -, -, -, hiterates'⟩ := hadjacency.incoming.edges 0 rfl
  exact ⟨hbuilt, rfl, ⟨c, hc, hiterates⟩, ⟨c', hc', hiterates'⟩, hextends _⟩

end Graph

end VertexEngine
