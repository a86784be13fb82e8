import Mathlib.Data.List.Nodup
import Mathlib.Data.List.Perm.Subperm
import Mathlib.Data.List.Range
import Mathlib.Logic.Function.Basic
import VertexEngine.Proofs.ShortestPath.Walk

/-!
# The reference distances

The textbook algorithm for one root: as many rounds as there are vertices, and in each of them every
edge once.  When no weight lowers a distance, its result is the shortest, so a shortest-path run has
to agree with it.

* `relaxEdge_foldl` says what one round does, and `le_walkSum_of_length_le` what `n` rounds do for
  walks of at most `n` edges.
* `exists_simple` makes of any walk one that meets no vertex twice and is not longer.
* `isShortest_bellmanFord` puts the two together.
-/

namespace VertexEngine

namespace Topology

/-! ## Simple walks -/

/-- The vertices that a walk meets. -/
def visited {E : Type} (root : VertexId) (es : List (Edge E)) : List VertexId :=
  root :: es.map Edge.target

variable {E : Type} {t : Topology E} {root : VertexId}

theorem nodup_visited_concat {es : List (Edge E)} {e : Edge E} :
    (visited root (es ++ [e])).Nodup ↔ e.target ∉ visited root es ∧ (visited root es).Nodup := by
  have hvisited : visited root (es ++ [e]) = visited root es ++ [e.target] := by
    simp [visited]
  rw [hvisited, (List.perm_append_singleton ..).nodup_iff, List.nodup_cons]

theorem Walk.eq_root {v : VertexId} (h : t.Walk root v []) : v = root := by
  generalize hes : ([] : List (Edge E)) = es at h
  cases h with
  | stay => rfl
  | step _ _ => simp at hes

theorem Walk.eq_target {v : VertexId} {es : List (Edge E)} {e : Edge E}
    (h : t.Walk root v (es ++ [e])) : v = e.target := by
  generalize hes : es ++ [e] = es' at h
  cases h with
  | stay => simp at hes
  | step _ _ =>
    obtain ⟨-, hsame⟩ := List.append_inj' hes rfl
    rw [List.singleton_inj.mp hsame]

theorem Walk.mem_edges {v : VertexId} {es : List (Edge E)} (h : t.Walk root v es) :
    ∀ e ∈ es, e ∈ t.edges := by
  induction h with
  | stay => simp
  | step _ he ih =>
    intro e' he'
    rcases List.mem_append.mp he' with hold | hnew
    · exact ih e' hold
    · rw [List.mem_singleton.mp hnew]
      exact he

/-- A walk can be broken off at any vertex that it meets. -/
theorem Walk.exists_front {u v : VertexId} {es : List (Edge E)} (h : t.Walk root u es)
    (hv : v ∈ visited root es) : ∃ front back, es = front ++ back ∧ t.Walk root v front := by
  induction h with
  | stay =>
    obtain rfl := List.mem_singleton.mp hv
    exact ⟨[], [], rfl, .stay⟩
  | @step es e hwalk he ih =>
    have hcases : v ∈ visited root es ∨ v = e.target := by
      simpa [visited, or_assoc] using hv
    rcases hcases with hmet | rfl
    · obtain ⟨front, back, rfl, hfront⟩ := ih hmet
      exact ⟨front, back ++ [e], List.append_assoc .., hfront⟩
    · exact ⟨es ++ [e], [], (List.append_nil _).symm, hwalk.step he⟩

/-- A walk that meets no vertex twice has fewer edges than there are vertices. -/
theorem Walk.length_lt {n : Nat} (hroot : root.toNat < n)
    (htarget : ∀ e ∈ t.edges, e.target.toNat < n) {v : VertexId} {es : List (Edge E)}
    (h : t.Walk root v es) (hnodup : (visited root es).Nodup) : es.length < n := by
  have hinside : ∀ i ∈ (visited root es).map UInt32.toNat, i ∈ List.range n := by
    intro i hi
    obtain ⟨u, hu, rfl⟩ := List.mem_map.mp hi
    rw [List.mem_range]
    rcases List.mem_cons.mp hu with rfl | hu
    · exact hroot
    · obtain ⟨e, he, rfl⟩ := List.mem_map.mp hu
      exact htarget e (h.mem_edges e he)
  have hnumbers : ((visited root es).map UInt32.toNat).Nodup :=
    hnodup.map fun _ _ hab => UInt32.toNat_inj.mp hab
  have hlen := (hnumbers.subperm hinside).length_le
  rw [List.length_map, visited, List.length_cons, List.length_map, List.length_range] at hlen
  exact hlen

end Topology

namespace ShortestPath

open Distance

variable {W : Type} [Distance W]

/-- The values after one edge was tried: its target gets closer, or nothing changes. -/
def relaxEdge (value : VertexId → W) (e : Edge W) : VertexId → W :=
  if lt (add (value e.source) e.data) (value e.target) then
    Function.update value e.target (add (value e.source) e.data)
  else value

/-- The distances after this many rounds over all edges. -/
def bellmanFord (t : Topology W) (root : VertexId) : Nat → VertexId → W
  | 0 => Function.update (fun _ => infinity) root zero
  | rounds + 1 => t.edges.toList.foldl relaxEdge (bellmanFord t root rounds)

/-! ## Rounds -/

/-- Every value is a bound. -/
def Bounds (t : Topology W) (root : VertexId) (value : VertexId → W) : Prop :=
  ∀ v, IsBound t root v (value v)

theorem bounds_zero (t : Topology W) (root : VertexId) : Bounds t root (bellmanFord t root 0) := by
  intro v
  rw [bellmanFord]
  by_cases hv : v = root
  · rw [hv, Function.update_self]
    exact .inr ⟨[], .stay, rfl⟩
  · rw [Function.update_of_ne hv]
    exact .inl rfl

variable [LawfulDistance W] {t : Topology W} {root : VertexId}

/-- A value that is replaced by one that is not above it makes no value greater. -/
theorem update_le {value : VertexId → W} (hd : ∀ u, IsDistance (value u)) {v : VertexId} {x : W}
    (hx : Le x (value v)) (u : VertexId) : Le (Function.update value v x u) (value u) := by
  by_cases hu : u = v
  · rw [hu, Function.update_self]
    exact hx
  · rw [Function.update_of_ne hu]
    exact .refl (hd u)

/-- Trying an edge keeps the bounds, raises no value, and settles the edge. -/
theorem relaxEdge_spec {value : VertexId → W} (hb : Bounds t root value) (hw : Weighted t)
    {e : Edge W} (he : e ∈ t.edges) : Bounds t root (relaxEdge value e) ∧
      (∀ v, Le (relaxEdge value e v) (value v)) ∧
      Le (relaxEdge value e e.target) (add (value e.source) e.data) := by
  have hdist : ∀ v, IsDistance (value v) := fun v => (hb v).isDistance hw
  have hnew := (hb e.source).add he hw
  unfold relaxEdge
  cases hlt : lt (add (value e.source) e.data) (value e.target) with
  | false =>
    rw [if_neg Bool.false_ne_true]
    exact ⟨hb, fun v => .refl (hdist v), hdist _, hnew.isDistance hw, hlt⟩
  | true =>
    rw [if_pos rfl]
    refine ⟨fun v => ?_, update_le hdist (le_of_lt (hnew.isDistance hw) (hdist _) hlt), ?_⟩
    · by_cases hv : v = e.target
      · rw [hv, Function.update_self]
        exact hnew
      · rw [Function.update_of_ne hv]
        exact hb v
    · rw [Function.update_self]
      exact .refl (hnew.isDistance hw)

theorem relaxEdge_foldl (hw : Weighted t) {es : List (Edge W)} (hes : ∀ e ∈ es, e ∈ t.edges)
    {value : VertexId → W} (hb : Bounds t root value) : Bounds t root (es.foldl relaxEdge value) ∧
      (∀ v, Le (es.foldl relaxEdge value v) (value v)) ∧
      ∀ e ∈ es, Le (es.foldl relaxEdge value e.target) (add (value e.source) e.data) := by
  induction es generalizing value with
  | nil => exact ⟨hb, fun v => .refl ((hb v).isDistance hw), by simp⟩
  | cons e rest ih =>
    have he := hes e List.mem_cons_self
    obtain ⟨hb₁, hle₁, hedge₁⟩ := relaxEdge_spec hb hw he
    obtain ⟨hb₂, hle₂, hedge₂⟩ := ih (fun e' he' => hes e' (List.mem_cons_of_mem _ he')) hb₁
    refine ⟨hb₂, fun v => (hle₂ v).trans (hle₁ v), fun e' he' => ?_⟩
    rcases List.mem_cons.mp he' with rfl | hrest
    · exact (hle₂ e'.target).trans hedge₁
    · exact (hedge₂ e' hrest).trans ((hle₁ e'.source).add (hw e' (hes e' he')))

theorem bounds_bellmanFord (hw : Weighted t) (rounds : Nat) :
    Bounds t root (bellmanFord t root rounds) := by
  induction rounds with
  | zero => exact bounds_zero t root
  | succ rounds ih => exact (relaxEdge_foldl hw (fun e he => Array.mem_toList_iff.mp he) ih).1

/-- After `rounds` rounds no walk of at most as many edges is shorter. -/
theorem le_walkSum_of_length_le (hw : Weighted t) {v : VertexId} {es : List (Edge W)}
    (h : t.Walk root v es) {rounds : Nat} (hlen : es.length ≤ rounds) :
    Le (bellmanFord t root rounds v) (walkSum es) := by
  induction rounds generalizing v es with
  | zero =>
    cases h with
    | stay =>
      rw [bellmanFord, Function.update_self]
      exact .refl LawfulDistance.isDistance_zero
    | step _ _ => simp at hlen
  | succ rounds ih =>
    have hb : Bounds t root (bellmanFord t root rounds) := bounds_bellmanFord hw rounds
    obtain ⟨-, hle, hedge⟩ := relaxEdge_foldl hw (fun e he => Array.mem_toList_iff.mp he) hb
    cases h with
    | stay => exact (hle root).trans (ih .stay (Nat.zero_le _))
    | @step es e hes he =>
      rw [walkSum_concat]
      have hlen' : es.length ≤ rounds := by
        rw [List.length_append, List.length_singleton] at hlen
        omega
      exact (hedge e (Array.mem_toList_iff.mpr he)).trans ((ih hes hlen').add (hw e he))

/-! ## Enough rounds -/

/-- No weight lowers a distance. -/
def NonNegative (t : Topology W) : Prop :=
  ∀ e ∈ t.edges, ∀ d, IsDistance d → Le d (add d e.data)

/-- Going on makes a walk no shorter. -/
theorem walkSum_le_append (hn : NonNegative t) {front back : List (Edge W)}
    (hd : IsDistance (walkSum front)) (hback : ∀ e ∈ back, e ∈ t.edges) :
    Le (walkSum front) (walkSum (front ++ back)) := by
  induction back generalizing front with
  | nil =>
    rw [List.append_nil]
    exact .refl hd
  | cons e rest ih =>
    have he := hback e List.mem_cons_self
    have hstep : Le (walkSum front) (walkSum (front ++ [e])) := by
      rw [walkSum_concat]
      exact hn e he _ hd
    have hrest := ih hstep.right fun e' he' => hback e' (List.mem_cons_of_mem _ he')
    rw [List.append_assoc, List.singleton_append] at hrest
    exact hstep.trans hrest

/-- Some walk to the same vertex is not longer and meets no vertex twice. -/
theorem exists_simple (hw : Weighted t) (hn : NonNegative t) {v : VertexId} {es : List (Edge W)}
    (h : t.Walk root v es) : ∃ es', t.Walk root v es' ∧ (Topology.visited root es').Nodup ∧
      Le (walkSum es') (walkSum es) := by
  induction h with
  | stay => exact ⟨[], .stay, List.pairwise_singleton _ root, .refl LawfulDistance.isDistance_zero⟩
  | @step es e _ he ih =>
    obtain ⟨es', hwalk, hnodup, hle⟩ := ih
    have hstep := hle.add (hw e he)
    rw [← walkSum_concat es, ← walkSum_concat es'] at hstep
    by_cases hmet : e.target ∈ Topology.visited root es'
    · obtain ⟨front, back, rfl, hfront⟩ := hwalk.exists_front hmet
      refine ⟨front, hfront, ?_, ?_⟩
      · refine hnodup.sublist (.cons_cons root ?_)
        rw [List.map_append]
        exact List.sublist_append_left ..
      · rw [List.append_assoc] at hstep
        refine (walkSum_le_append hn (isDistance_walkSum hw hfront) fun e' he' => ?_).trans hstep
        exact (hwalk.step he).mem_edges e'
          (List.append_assoc front back [e] ▸ List.mem_append_right front he')
    · exact ⟨es' ++ [e], hwalk.step he, Topology.nodup_visited_concat.mpr ⟨hmet, hnodup⟩, hstep⟩

/-- With as many rounds as there are vertices, every distance is the shortest. -/
theorem isShortest_bellmanFord (hw : Weighted t) (hn : NonNegative t) {n : Nat}
    (hroot : root.toNat < n) (htarget : ∀ e ∈ t.edges, e.target.toNat < n) (v : VertexId) :
    IsShortest t root v (bellmanFord t root n v) := by
  refine ⟨bounds_bellmanFord hw n v, fun es hwalk => ?_⟩
  obtain ⟨es', hwalk', hnodup, hle⟩ := exists_simple hw hn hwalk
  have hlen := hwalk'.length_lt hroot htarget hnodup
  exact (le_walkSum_of_length_le hw hwalk' hlen.le).trans hle

/-- The shortest distances in a graph are the reference distances. -/
theorem IsShortest.eq_bellmanFord {g : Graph W W} {v : VertexId} {x : W}
    (h : IsShortest g.toTopology root v x) (hg : g.WellFormed) (hw : Weighted g.toTopology)
    (hn : NonNegative g.toTopology) (hroot : g.contains root = true) :
    x = bellmanFord g.toTopology root g.vertexCount v := by
  have hlt : root.toNat < g.vertexCount := of_decide_eq_true hroot
  exact h.unique (isShortest_bellmanFord hw hn hlt hg.target_lt v) hw

end ShortestPath

end VertexEngine
