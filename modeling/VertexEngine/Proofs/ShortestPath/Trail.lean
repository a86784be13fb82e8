import Mathlib.Algebra.Order.BigOperators.Group.List
import Mathlib.Algebra.Order.Ring.Nat
import VertexEngine.Proofs.ShortestPath.BellmanFord

/-!
# How often a value can fall

When no weight lowers a distance, the value of a vertex can fall only so often: no value is ever the
sum of a walk that meets a vertex twice, because such a walk improves nothing.

The reason is not that the sum of a longer walk is greater, since it need not be, but that a vertex
on the walk has already got a value that is not above the sum up to there.  So a value comes with a
`Trail`, a walk of which this is known.

* `Trailed` says that every value is infinity or the sum of a trail, and `Trailed.improve` that this
  stays so when an edge makes its target closer.
* `walkSums` are the sums that are possible, `height` counts those below a distance, and
  `potential_lt` says that the heights of all values together get less when one value falls.
-/

namespace VertexEngine.ShortestPath

open Distance

variable {W : Type} [Distance W] [LawfulDistance W] {t : Topology W} {root : VertexId}

/-! ## Trails -/

/-- A walk that meets no vertex twice, and no vertex whose value is above the sum up to there. -/
structure Trail (t : Topology W) (root : VertexId) (value : VertexId → W) (v : VertexId)
    (es : List (Edge W)) : Prop where
  walk : t.Walk root v es
  nodup : (Topology.visited root es).Nodup
  above : ∀ {u : VertexId} {front back : List (Edge W)}, es = front ++ back →
    t.Walk root u front → Le (value u) (walkSum front)

/-- Every value is infinity or the sum of a trail. -/
def Trailed (t : Topology W) (root : VertexId) (value : VertexId → W) : Prop :=
  ∀ v, value v = infinity ∨ ∃ es, Trail t root value v es ∧ value v = walkSum es

variable {value value' : VertexId → W}

/-- A trail remains one when values fall. -/
theorem Trail.mono {v : VertexId} {es : List (Edge W)} (h : Trail t root value v es)
    (hle : ∀ u, Le (value' u) (value u)) : Trail t root value' v es :=
  ⟨h.walk, h.nodup, fun hes hfront => (hle _).trans (h.above hes hfront)⟩

/-- Going on does not bring a trail back to a vertex that gets closer. -/
theorem Trail.not_mem_visited (hw : Weighted t) (hn : NonNegative t) {e : Edge W}
    {es : List (Edge W)} (h : Trail t root value e.source es) (he : e ∈ t.edges)
    (hlt : lt (walkSum (es ++ [e])) (value e.target) = true) :
    e.target ∉ Topology.visited root es := by
  intro hmet
  obtain ⟨front, back, rfl, hfront⟩ := h.walk.exists_front hmet
  have hgoing : Le (walkSum front) (walkSum (front ++ (back ++ [e]))) := by
    refine walkSum_le_append hn (isDistance_walkSum hw hfront) fun e' he' => ?_
    have hall := (h.walk.step he).mem_edges e'
    rw [List.append_assoc] at hall
    exact hall (List.mem_append_right front he')
  have hnot := ((h.above rfl hfront).trans hgoing).not_lt
  rw [← List.append_assoc, hlt] at hnot
  cases hnot

theorem Trailed.isDistance (h : Trailed t root value) (hw : Weighted t) (v : VertexId) :
    IsDistance (value v) := by
  rcases h v with hinfinity | ⟨es, htrail, hsum⟩
  · rw [hinfinity]
    exact LawfulDistance.isDistance_infinity
  · rw [hsum]
    exact isDistance_walkSum hw htrail.walk

/-- An edge makes its target closer. -/
theorem Trailed.improve (h : Trailed t root value) (hw : Weighted t) (hn : NonNegative t)
    {e : Edge W} (he : e ∈ t.edges)
    (hlt : lt (add (value e.source) e.data) (value e.target) = true) :
    Trailed t root (Function.update value e.target (add (value e.source) e.data)) := by
  rcases h e.source with hinfinity | ⟨es, htrail, hsum⟩
  · rw [hinfinity, LawfulDistance.infinity_add (hw e he),
      LawfulDistance.infinity_greatest (h.isDistance hw e.target)] at hlt
    cases hlt
  · rw [hsum, ← walkSum_concat] at hlt ⊢
    have hwalk : t.Walk root e.target (es ++ [e]) := htrail.walk.step he
    have hnew : IsDistance (walkSum (es ++ [e])) := isDistance_walkSum hw hwalk
    have hfalls : ∀ u, Le (Function.update value e.target (walkSum (es ++ [e])) u) (value u) :=
      update_le (h.isDistance hw) (le_of_lt hnew (h.isDistance hw _) hlt)
    intro v
    by_cases hv : v = e.target
    · subst hv
      rw [Function.update_self]
      refine .inr ⟨es ++ [e], ⟨hwalk, ?_, fun {u front back} hes hfront => ?_⟩, rfl⟩
      · exact Topology.nodup_visited_concat.mpr
          ⟨htrail.not_mem_visited hw hn he hlt, htrail.nodup⟩
      · -- A front is the whole of the new trail, or a front of the old one.
        rcases List.eq_nil_or_concat back with rfl | ⟨back', e', rfl⟩
        · rw [List.append_nil] at hes
          obtain rfl := hes
          rw [hfront.eq_target, Function.update_self]
          exact .refl hnew
        · rw [List.concat_eq_append, ← List.append_assoc] at hes
          obtain ⟨hold, -⟩ := List.append_inj' hes rfl
          exact (hfalls u).trans (htrail.above hold hfront)
    · rw [Function.update_of_ne hv]
      exact (h v).imp id fun ⟨es', htrail', hsum'⟩ => ⟨es', htrail'.mono hfalls, hsum'⟩

/-! ## Heights -/

/-- The sums of the lists of at most `n` edges. -/
def walkSums (t : Topology W) : Nat → List W
  | 0 => [zero]
  | n + 1 =>
    walkSums t n ++ (walkSums t n).flatMap fun d => t.edges.toList.map fun e => add d e.data

omit [LawfulDistance W] in
theorem walkSum_mem_walkSums {v : VertexId} {es : List (Edge W)} (h : t.Walk root v es) {n : Nat}
    (hn : es.length ≤ n) : walkSum es ∈ walkSums t n := by
  induction n generalizing v es with
  | zero =>
    obtain rfl := List.length_eq_zero_iff.mp (Nat.le_zero.mp hn)
    exact List.mem_cons_self
  | succ n ih =>
    cases h with
    | stay => exact List.mem_append_left _ (ih .stay (Nat.zero_le n))
    | @step es e hwalk he =>
      rw [List.length_append, List.length_singleton] at hn
      rw [walkSum_concat]
      refine List.mem_append_right _ (List.mem_flatMap.mpr ⟨_, ih hwalk (by omega), ?_⟩)
      exact List.mem_map_of_mem (Array.mem_toList_iff.mpr he)

theorem isDistance_of_mem_walkSums (hw : Weighted t) {n : Nat} {x : W} (h : x ∈ walkSums t n) :
    IsDistance x := by
  induction n generalizing x with
  | zero =>
    rw [List.mem_singleton.mp h]
    exact LawfulDistance.isDistance_zero
  | succ n ih =>
    rcases List.mem_append.mp h with hold | hnew
    · exact ih hold
    · obtain ⟨d, hd, hx⟩ := List.mem_flatMap.mp hnew
      obtain ⟨e, he, rfl⟩ := List.mem_map.mp hx
      exact LawfulDistance.isDistance_add (ih hd) (hw e (Array.mem_toList_iff.mp he))

/-- How many of the sums are below a distance. -/
def height (sums : List W) (x : W) : Nat :=
  sums.countP fun y => lt y x

section

variable {sums : List W} {x y : W}

theorem height_le (hs : ∀ z ∈ sums, IsDistance z) (h : Le x y) : height sums x ≤ height sums y :=
  List.countP_mono_left fun z hz hlt => lt_of_lt_of_le (hs z hz) hlt h

theorem height_lt (hs : ∀ z ∈ sums, IsDistance z) (hx : IsDistance x) (hmem : y ∈ sums)
    (h : lt y x = true) : height sums y < height sums x := by
  have hle : Le y x := le_of_lt (hs y hmem) hx h
  have hself : lt y y = false := (Le.refl hle.left).not_lt
  obtain ⟨front, back, rfl⟩ := List.append_of_mem hmem
  obtain ⟨hfront, hback⟩ := List.forall_mem_append.mp hs
  have hfront' := height_le hfront hle
  have hback' := height_le (fun z hz => hback z (List.mem_cons_of_mem y hz)) hle
  simp only [height, List.countP_append] at hfront' hback' ⊢
  rw [List.countP_cons_of_neg (by simp [hself]), List.countP_cons_of_pos (by exact h)]
  omega

end

/-- The heights of the values of these vertices, together. -/
def potential (sums : List W) (ids : List VertexId) (value : VertexId → W) : Nat :=
  (ids.map fun v => height sums (value v)).sum

/-- The potential gets less when a value falls. -/
theorem Trailed.potential_lt (h : Trailed t root value) (h' : Trailed t root value')
    (hw : Weighted t) {n : Nat} (hroot : root.toNat < n)
    (htarget : ∀ e ∈ t.edges, e.target.toNat < n) {ids : List VertexId} {v : VertexId}
    (hv : v ∈ ids) (hle : ∀ u, Le (value' u) (value u)) (hlt : lt (value' v) (value v) = true) :
    potential (walkSums t n) ids value' < potential (walkSums t n) ids value := by
  have hsums : ∀ x ∈ walkSums t n, IsDistance x := fun x => isDistance_of_mem_walkSums hw
  have hmem : value' v ∈ walkSums t n := by
    rcases h' v with hinfinity | ⟨es, htrail, hsum⟩
    · rw [hinfinity, LawfulDistance.infinity_greatest (h.isDistance hw v)] at hlt
      cases hlt
    · rw [hsum]
      exact walkSum_mem_walkSums htrail.walk
        (htrail.walk.length_lt hroot htarget htrail.nodup).le
  exact List.sum_lt_sum _ _ (fun u _ => height_le hsums (hle u))
    ⟨v, hv, height_lt hsums (h.isDistance hw v) hmem hlt⟩

end VertexEngine.ShortestPath
