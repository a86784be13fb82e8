import VertexEngine.Graph.Basic

/-!
# What the edits of a graph do

Each edit as one equation: the answer, and the graph afterwards.  What is read of a graph is told
for one whose value at a vertex was set.
-/

namespace VertexEngine.Graph

variable {V E : Type}

/-! ## Values -/

section

variable {g : Graph V E} {v w : VertexId}

theorem value_withValue_of_ne (h : w ≠ v) (x : V) : (g.withValue v x).value w = g.value w := by
  have hne : v.toNat ≠ w.toNat := fun he => h (UInt32.toNat_inj.mp he).symm
  simp only [value, withValue]
  rw [Array.getElem?_setIfInBounds_ne hne]

theorem value_withValue_self (h : g.contains v = true) (x : V) :
    (g.withValue v x).value v = .ok x := by
  have hlt : v.toNat < g.values.size := by simpa [contains] using h
  simp [value, withValue, hlt]

theorem contains_withValue (x : V) : (g.withValue v x).contains = g.contains := by
  funext w
  simp [contains, withValue]

theorem contains_iff_value : g.contains v = true ↔ ∃ x, g.value v = .ok x := by
  simp only [contains, value, decide_eq_true_iff]
  by_cases hlt : v.toNat < g.values.size
  · simp [hlt]
  · simp [hlt]

theorem value_of_not_contains (h : g.contains v = false) : g.value v = .error (.notFound v) := by
  have hge : g.values.size ≤ v.toNat := by simpa [contains] using h
  simp [value, Array.getElem?_eq_none hge]

end

/-! ## Edits -/

variable (g : Graph V E)

/-- The graph with one more edge, which both indices list last. -/
def withEdge (source target : VertexId) (data : E) : Graph V E :=
  { g with
    edges := g.edges.push ⟨source, target, data⟩
    outgoing := g.outgoing.modify source.toNat (·.push (UInt32.ofNat g.edgeCount))
    incoming := g.incoming.modify target.toNat (·.push (UInt32.ofNat g.edgeCount)) }

theorem run_bind {α β : Type} (c : Edit V E α) (f : α → Edit V E β) : (c >>= f).run g =
    match c.run g with
    | (.ok a, g) => (f a).run g
    | (.error e, g) => (.error e, g) := by
  show (ExceptT.bindCont f (c.run g).1).run (c.run g).2 = _
  cases c.run g with
  | mk res g' =>
    cases res with
    | ok a => rfl
    | error e => rfl

theorem run_addVertex (x : V) : (addVertex x : Edit V E VertexId).run g =
    if maxVertices ≤ g.vertexCount then (.error (.graphFull maxVertices), g)
    else (.ok (UInt32.ofNat g.vertexCount), g.grow 1 x) := by
  have hrun : (addVertex x : Edit V E VertexId).run g =
      ((do
        if maxVertices ≤ g.vertexCount then
          throw (.graphFull maxVertices)
        set (g.grow 1 x)
        return UInt32.ofNat g.vertexCount) : Edit V E VertexId).run g := rfl
  rw [hrun]
  split
  · rfl
  · rfl

theorem run_addEdge (source target : VertexId) (data : E) :
    (addEdge source target data : Edit V E EdgeId).run g =
      if g.contains source then
        if g.contains target then
          if maxEdges ≤ g.edgeCount then (.error (.graphFull maxEdges), g)
          else (.ok (UInt32.ofNat g.edgeCount), g.withEdge source target data)
        else (.error (.notFound target), g)
      else (.error (.notFound source), g) := by
  have hrun : (addEdge source target data : Edit V E EdgeId).run g =
      ((do
        g.check source
        g.check target
        if maxEdges ≤ g.edgeCount then
          throw (.graphFull maxEdges)
        set (g.withEdge source target data)
        return UInt32.ofNat g.edgeCount) : Edit V E EdgeId).run g := rfl
  rw [hrun]
  unfold check
  split
  · split
    · split
      · rfl
      · rfl
    · rfl
  · rfl

/-- When an edge can be added, and what comes of it. -/
theorem addEdge_eq_ok {source target : VertexId} {data : E} {id : EdgeId} {g' : Graph V E} :
    (addEdge source target data : Edit V E EdgeId).run g = (.ok id, g') ↔
      (g.contains source = true ∧ g.contains target = true ∧ g.edgeCount < maxEdges) ∧
        UInt32.ofNat g.edgeCount = id ∧ g.withEdge source target data = g' := by
  rw [run_addEdge]
  constructor
  · intro h
    split at h
    · split at h
      · split at h
        · cases h
        · cases h
          exact ⟨⟨‹_›, ‹_›, Nat.lt_of_not_le ‹_›⟩, rfl, rfl⟩
      · cases h
    · cases h
  · rintro ⟨⟨hs, ht, hfull⟩, rfl, rfl⟩
    rw [if_pos hs, if_pos ht, if_neg (Nat.not_le_of_lt hfull)]

theorem run_ensureVertices (count : Nat) (x : V) :
    (ensureVertices count x : Edit V E Unit).run g =
      if maxVertices < count then (.error (.graphFull maxVertices), g)
      else (.ok (), g.grow (count - g.vertexCount) x) := by
  unfold ensureVertices
  split
  · rfl
  · rfl

theorem run_setValue (v : VertexId) (x : V) :
    (setValue v x : Edit V E Unit).run g =
      if g.contains v then (.ok (), g.withValue v x) else (.error (.notFound v), g) := by
  have hrun : (setValue v x : Edit V E Unit).run g =
      ((do
        g.check v
        set (g.withValue v x)) : Edit V E Unit).run g := rfl
  rw [hrun, check]
  split
  · rfl
  · rfl

end VertexEngine.Graph
