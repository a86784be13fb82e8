import VertexEngine.Proofs.Graph.Refusal
import VertexEngine.Programs.ShortestPath

/-!
# Preparing a graph for shortest paths

The operations of a graph are atomic, but the first distances are set by two of them: every value is
overwritten, and only then is the root looked up.  So with a root that is no vertex the call is
refused and the old values are lost all the same.

* `run_initDistances` is the call as one equation.
* `setup_refused` says what each call that sets up a graph leaves behind when it is refused, and
  `initDistances_overwrites` shows a refused call that has changed a graph.
-/

namespace VertexEngine

namespace ShortestPath

variable {V E W : Type} [Distance W]

/-- The graph with every distance infinite. -/
def cleared (g : Graph W W) : Graph W W :=
  { g with values := g.values.mapIdx fun _ _ => Distance.infinity }

theorem size_cleared (g : Graph W W) : (cleared g).values.size = g.values.size :=
  Array.size_mapIdx

theorem contains_cleared (g : Graph W W) : (cleared g).contains = g.contains :=
  Graph.contains_congr (size_cleared g)

/-- The distances are overwritten in any case. -/
theorem run_initDistances (root : VertexId) (g : Graph W W) :
    (initDistances root).run g =
      if g.contains root then (.ok (), (cleared g).withValue root Distance.zero)
      else (.error (.notFound root), cleared g) := by
  have hrun : (initDistances root).run g =
      (Graph.setValue root Distance.zero : Graph.Edit W W Unit).run (cleared g) := rfl
  rw [hrun, Graph.run_setValue, contains_cleared]

theorem value_cleared {g : Graph W W} {v : VertexId} (hv : g.contains v = true) :
    (cleared g).value v = .ok Distance.infinity := by
  have hlt : v.toNat < g.values.size := of_decide_eq_true hv
  simp [Graph.value, cleared, hlt]

/-- An operation of a graph that is refused leaves the graph as it was.  The first distances are
zero at the root and infinite elsewhere; if the root is no vertex they are refused, and yet every
distance is infinite afterwards.  The edges stay as they are. -/
theorem setup_refused :
    (∀ (g : Graph V E) (op : Graph.Operation V E) (e : EngineError),
      (op.edit.run g).1 = .error e → (op.edit.run g).2 = g ∧ g.Refuses e) ∧
    ∀ (g : Graph W W) (root : VertexId), ∃ (answer : Except EngineError Unit) (g' : Graph W W),
      (initDistances root).run g = (answer, g') ∧ g'.toTopology = g.toTopology ∧
        g'.values.size = g.values.size ∧
        (g.contains root = true → answer = .ok () ∧ g'.value root = .ok Distance.zero) ∧
        (g.contains root = false → answer = .error (.notFound root)) ∧
        ∀ v, g.contains v = true → v ≠ root → g'.value v = .ok Distance.infinity := by
  refine ⟨fun g op e h => ⟨op.atomic g e h, op.refuses h⟩, fun g root => ?_⟩
  rw [run_initDistances]
  cases hroot : g.contains root with
  | true =>
    have hcleared : (cleared g).contains root = true := by
      rw [contains_cleared]
      exact hroot
    refine ⟨.ok (), (cleared g).withValue root Distance.zero, rfl, rfl, ?_, ?_, nofun, ?_⟩
    · exact Array.size_setIfInBounds.trans (size_cleared g)
    · intro _
      exact ⟨rfl, Graph.value_withValue_self hcleared _⟩
    · intro v hv hne
      rw [Graph.value_withValue_of_ne hne]
      exact value_cleared hv
  | false =>
    refine ⟨.error (.notFound root), cleared g, rfl, rfl, size_cleared g, nofun, fun _ => rfl, ?_⟩
    intro v hv _
    exact value_cleared hv

/-- Three vertices that hold five. -/
def fives : Graph Float Float :=
  ((Graph.Operation.ensureVertices 3 5).edit.run {}).2

/-- There is no vertex 3; the call says so, and has overwritten the values. -/
theorem initDistances_overwrites : fives.Built ∧ ∃ g',
    (initDistances 3).run fives = (.error (.notFound 3), g') ∧ fives.value 0 = .ok 5 ∧
      g'.value 0 = .ok Distance.infinity ∧ g' ≠ fives := by
  refine ⟨.operation .empty (.ensureVertices 3 5), cleared fives, rfl, rfl, rfl, ?_⟩
  intro heq
  have hvalue : (cleared fives).value 0 = fives.value 0 := by rw [heq]
  have hne : (Distance.infinity : Float) ≠ 5 := by decide
  exact hne (Except.ok.inj hvalue)

end ShortestPath

end VertexEngine
