import VertexEngine.Proofs.Graph.Built
import VertexEngine.Proofs.ShortestPath.Distance

/-!
# Shortest walks

What a shortest-path run is to compute.  A `Topology.Walk` is a list of edges, each of which leaves
the vertex that the one before it enters, and `walkSum` adds up its weights from the left.

* `IsBound` holds of the values that are infinity or the sum of some walk.
* `IsShortest` holds of a bound that is below the sum of every walk.  There is at most one.
* `isShortest_of_satisfied` is why relaxation may stop: when no edge can improve its target, every
  value that is a bound is the shortest.
-/

namespace VertexEngine

/-- The lists of edges that lead from the root to a vertex. -/
inductive Topology.Walk {E : Type} (t : Topology E) (root : VertexId) :
    VertexId → List (Edge E) → Prop
  | stay : Walk t root root []
  | step {es : List (Edge E)} {e : Edge E} (h : Walk t root e.source es) (he : e ∈ t.edges) :
    Walk t root e.target (es ++ [e])

namespace ShortestPath

open Distance

variable {W : Type} [Distance W]

/-- The sum of the weights, from zero and from the left. -/
def walkSum (es : List (Edge W)) : W :=
  es.foldl (fun d e => add d e.data) zero

@[simp] theorem walkSum_concat (es : List (Edge W)) (e : Edge W) :
    walkSum (es ++ [e]) = add (walkSum es) e.data := by
  simp [walkSum]

/-- The value is infinity or the sum of a walk from the root to the vertex. -/
def IsBound (t : Topology W) (root v : VertexId) (x : W) : Prop :=
  x = infinity ∨ ∃ es, t.Walk root v es ∧ x = walkSum es

variable [LawfulDistance W]

/-- The bound that is not above the sum of any walk. -/
structure IsShortest (t : Topology W) (root v : VertexId) (x : W) : Prop where
  bound : IsBound t root v x
  least : ∀ es, t.Walk root v es → Le x (walkSum es)

/-- Every edge has a weight that may be added. -/
def Weighted (t : Topology W) : Prop :=
  ∀ e ∈ t.edges, IsWeight e.data

variable {t : Topology W} {root v : VertexId} {x y : W}

theorem isDistance_walkSum (hw : Weighted t) {es : List (Edge W)} (h : t.Walk root v es) :
    IsDistance (walkSum es) := by
  induction h with
  | stay => exact LawfulDistance.isDistance_zero
  | step _ he ih =>
    rw [walkSum_concat]
    exact LawfulDistance.isDistance_add ih (hw _ he)

theorem IsBound.isDistance (h : IsBound t root v x) (hw : Weighted t) : IsDistance x := by
  rcases h with rfl | ⟨es, hwalk, rfl⟩
  · exact LawfulDistance.isDistance_infinity
  · exact isDistance_walkSum hw hwalk

/-- A bound at the source of an edge gives one at its target. -/
theorem IsBound.add {e : Edge W} (h : IsBound t root e.source x) (he : e ∈ t.edges)
    (hw : Weighted t) : IsBound t root e.target (add x e.data) := by
  rcases h with rfl | ⟨es, hwalk, rfl⟩
  · left
    exact LawfulDistance.infinity_add (hw e he)
  · right
    exact ⟨es ++ [e], hwalk.step he, (walkSum_concat es e).symm⟩

theorem IsBound.min (hx : IsBound t root v x) (hy : IsBound t root v y) (hw : Weighted t) :
    IsBound t root v (min x y) := by
  rcases min_cases (hx.isDistance hw) (hy.isDistance hw) with ⟨hmin, -⟩ | ⟨hmin, -⟩
  · rw [hmin]
    exact hx
  · rw [hmin]
    exact hy

theorem IsShortest.le (hx : IsShortest t root v x) (hy : IsBound t root v y) (hw : Weighted t) :
    Le x y := by
  rcases hy with rfl | ⟨es, hwalk, rfl⟩
  · exact le_infinity (hx.bound.isDistance hw)
  · exact hx.least es hwalk

theorem IsShortest.unique (hx : IsShortest t root v x) (hy : IsShortest t root v y)
    (hw : Weighted t) : x = y :=
  (hx.le hy.bound hw).antisymm (hy.le hx.bound hw)

/-- Values that no edge can improve are below the sums of all walks. -/
theorem le_walkSum_of_satisfied {value : VertexId → W} (hroot : Le (value root) zero)
    (hedge : ∀ e ∈ t.edges, Le (value e.target) (add (value e.source) e.data)) (hw : Weighted t)
    {es : List (Edge W)} (h : t.Walk root v es) : Le (value v) (walkSum es) := by
  induction h with
  | stay => exact hroot
  | @step es e _ he ih =>
    rw [walkSum_concat]
    exact (hedge e he).trans (ih.add (hw e he))

theorem isShortest_of_satisfied {value : VertexId → W} (hroot : Le (value root) zero)
    (hedge : ∀ e ∈ t.edges, Le (value e.target) (add (value e.source) e.data)) (hw : Weighted t)
    (hbound : IsBound t root v (value v)) : IsShortest t root v (value v) :=
  ⟨hbound, fun _ hwalk => le_walkSum_of_satisfied hroot hedge hw hwalk⟩

end ShortestPath

end VertexEngine
