import VertexEngine.Proofs.Graph.Adjacency
import VertexEngine.Proofs.ShortestPath.Exact

/-!
# Shortest paths in a graph that grows

After a run has converged, vertices at infinity and edges are added, and relaxations of the sources
of the new edges are run on the values that are there.  This is enough: the old edges are satisfied
and stay so until a value falls, and an edge that could improve its target is new.

* `IsAddition` holds of the edits that are meant, and `Grown` says what they keep.
* `sound_of_grown` says that relaxation may start from there.
* `Extension` is the second run, and `Extension.extended_exact` the result about it.
-/

namespace VertexEngine.ShortestPath

variable {W : Type} [Distance W] [LawfulDistance W]

/-! ## Additions -/

/-- New vertices come at infinity, and new edges have weights that may be added. -/
def IsAddition : Graph.Operation W W → Prop
  | .addVertex x => x = Distance.infinity
  | .ensureVertices _ x => x = Distance.infinity
  | .addEdge _ _ weight => IsWeight weight
  | _ => False

omit [LawfulDistance W] in
theorem distanceAt_grow (g : Graph W W) (count : Nat) (v : VertexId) :
    distanceAt (g.grow count Distance.infinity) v = distanceAt g v := by
  rw [distanceAt, distanceAt, Graph.grow, Array.getElem?_append, Array.getElem?_replicate]
  split
  · rfl
  · rename_i hle
    rw [Array.getElem?_eq_none (Nat.le_of_not_lt hle)]
    split <;> rfl

/-- Nothing of the old graph is changed, and what is new may be added. -/
structure Grown (old g : Graph W W) : Prop where
  values : ∀ v, distanceAt g v = distanceAt old v
  edges : old.edges.toList <+: g.edges.toList
  weighted : Weighted g.toTopology

theorem Grown.grow {old g : Graph W W} (h : Grown old g) (count : Nat) :
    Grown old (g.grow count Distance.infinity) :=
  ⟨fun v => (distanceAt_grow g count v).trans (h.values v), h.edges, h.weighted⟩

theorem Grown.withEdge {old g : Graph W W} (h : Grown old g) (source target : VertexId) {weight : W}
    (hw : IsWeight weight) : Grown old (g.withEdge source target weight) where
  values := h.values
  edges := by
    rw [Graph.withEdge, Array.toList_push]
    exact h.edges.trans (List.prefix_append _ _)
  weighted := by
    intro e he
    rcases Array.mem_push.mp he with hold | rfl
    · exact h.weighted e hold
    · exact hw

theorem IsAddition.keeps_grown {op : Graph.Operation W W} (h : IsAddition op) (old : Graph W W) :
    Keeps (Grown old) op.edit := by
  cases op with
  | addVertex x =>
    obtain rfl : x = Distance.infinity := h
    refine .bind (fun g hg => ?_) fun _ => .pure ()
    rw [Graph.run_addVertex]
    split
    · exact hg
    · exact hg.grow 1
  | addEdge source target weight =>
    refine .bind (fun g hg => ?_) fun _ => .pure ()
    rw [Graph.run_addEdge]
    split
    · split
      · split
        · exact hg
        · exact hg.withEdge source target h
      · exact hg
    · exact hg
  | ensureVertices count x =>
    obtain rfl : x = Distance.infinity := h
    intro g hg
    show Grown old ((Graph.ensureVertices count Distance.infinity : Graph.Edit W W Unit).run g).2
    rw [Graph.run_ensureVertices]
    split
    · exact hg
    · exact hg.grow _
  | _ => exact h.elim

theorem grown_after {additions : List (Graph.Operation W W)} (h : ∀ op ∈ additions, IsAddition op)
    {old g : Graph W W} (hg : Grown old g) : Grown old (g.after additions) := by
  induction additions generalizing g with
  | nil => exact hg
  | cons op rest ih =>
    obtain ⟨hop, hrest⟩ := List.forall_mem_cons.mp h
    exact ih hrest (hop.keeps_grown old g hg)

/-! ## Relaxation goes on -/

omit [Distance W] [LawfulDistance W] in
theorem walk_mono {t t' : Topology W} (h : ∀ e ∈ t.edges, e ∈ t'.edges) {root v : VertexId}
    {es : List (Edge W)} (hwalk : t.Walk root v es) : t'.Walk root v es := by
  induction hwalk with
  | stay => exact .stay
  | step _ he ih => exact ih.step (h _ he)

variable {F T O : Type} {root : VertexId}

/-- Relaxation may start at the shortest distances of the old graph if the sources of the new edges
are pending. -/
theorem sound_of_grown {old g : Graph W W} (hg : Grown old g) (hwf : g.WellFormed)
    (hshortest : ∀ v, IsShortest old.toTopology root v (distanceAt old v)) {p : PendingList F}
    (hp : ∀ e ∈ g.edges.toList.drop old.edgeCount, p.contains e.source = true) :
    Relaxation.Sound root ⟨g, p, []⟩ := by
  obtain ⟨new, hnew⟩ := hg.edges
  have hmem : ∀ {e}, e ∈ g.edges ↔ e ∈ old.edges ∨ e ∈ new := by
    intro e
    rw [← Array.mem_toList_iff, ← hnew, List.mem_append, Array.mem_toList_iff]
  have hold : ∀ e ∈ old.edges, e ∈ g.edges := fun e he => hmem.mpr (.inl he)
  have hweighted : Weighted old.toTopology := fun e he => hg.weighted e (hold e he)
  have hbound : ∀ v, IsBound g.toTopology root v (distanceAt g v) := by
    intro v
    rw [hg.values v]
    rcases (hshortest v).bound with hinfinity | ⟨es, hwalk, hsum⟩
    · exact .inl hinfinity
    · exact .inr ⟨es, walk_mono hold hwalk, hsum⟩
  have hbounded : Relaxation.Bounded root ⟨g, p, []⟩ :=
    ⟨⟨hwf, by simp, by simp⟩, hg.weighted, hbound, by simp, by simp⟩
  refine hbounded.sound ?_ fun e he => ?_
  · show Distance.Le (distanceAt g root) Distance.zero
    rw [hg.values root]
    exact (hshortest root).least [] .stay
  · rcases hmem.mp he with he | he
    · refine .satisfied ?_
      show Distance.Le (distanceAt g e.target) (Distance.add (distanceAt g e.source) e.data)
      rw [hg.values, hg.values]
      exact (hshortest e.target).le ((hshortest e.source).bound.add he hweighted) hweighted
    · refine .source (hp e ?_)
      rw [← hnew, Graph.edgeCount, ← Array.length_toList, List.drop_left]
      exact he

/-! ## The second run -/

/-- A run after additions to a graph: all pending tasks relax, the source of every new edge is among
them, and the run converges. -/
structure Extension (F T O : Type) (old : Graph W W) (additions : List (Graph.Operation W W)) where
  behaviour : Behaviour F W W T O
  core : Core F W W T
  reachable : core.Reachable behaviour
  held : core.heldGraph? = some (old.after additions)
  relaxes : ∀ t ∈ core.scheduler.queue.toList, behaviour t.update = relax t.update
  scheduled : ∀ e ∈ (old.after additions).edges.toList.drop old.edgeCount,
    ∃ t ∈ core.scheduler.queue.toList, t.vertex = e.source
  run : Core.Run behaviour core
  report : RunReport
  converged : run.conclusion = .converged report

namespace Extension

variable {g old : Graph W W} {additions : List (Graph.Operation W W)}

/-- The second run leaves the shortest distances of the graph that it was given. -/
theorem isShortest (x : Extension F T O old additions) (hw : Weighted old.toTopology)
    (hadditions : ∀ op ∈ additions, IsAddition op)
    (hshortest : ∀ v, IsShortest old.toTopology root v (distanceAt old v)) :
    ∃ g', x.run.next.heldGraph? = some g' ∧
      g'.toTopology = (old.after additions).toTopology ∧
      g'.values.size = (old.after additions).values.size ∧
      ∀ v, IsShortest (old.after additions).toTopology root v (distanceAt g' v) := by
  have hsound := x.reachable.sound
  have hgrown : Grown old (old.after additions) :=
    grown_after hadditions ⟨fun _ => rfl, List.prefix_refl _, hw⟩
  refine x.run.isShortest hsound x.held (fun p hp => ?_) x.relaxes x.converged
  refine sound_of_grown hgrown (hsound.graph _ x.held) hshortest fun e he => ?_
  exact PendingList.contains_iff.mpr (hp ▸ x.scheduled e he)

/-- Vertices and edges were added to a graph for which a run had converged, and relaxations of the
sources of the new edges have converged too.  Then every value is infinity or the sum of a walk in
the enlarged graph, and it is not above the sum of any such walk.  Every run that starts anew on the
enlarged graph has the same value, and so has the reference if no weight lowers a distance. -/
theorem extended_exact {F₀ T₀ O₀ : Type} (s : Solution F₀ T₀ O₀ root g)
    (hw : ∀ e ∈ g.edges, IsWeight e.data) (hold : s.run.next.heldGraph? = some old)
    (x : Extension F T O old additions) (hadditions : ∀ op ∈ additions, IsAddition op) :
    ∃ g', x.run.next.heldGraph? = some g' ∧
      g'.toTopology = (old.after additions).toTopology ∧
      g'.vertexCount = (old.after additions).vertexCount ∧
      ∀ v, (old.after additions).contains v = true → ∃ d, g'.value v = .ok d ∧
        (d = Distance.infinity ∨
          ∃ es, (old.after additions).Walk root v es ∧ d = walkSum es) ∧
        (∀ es, (old.after additions).Walk root v es → Distance.Le d (walkSum es)) ∧
        (NonNegative (old.after additions).toTopology →
          d = bellmanFord (old.after additions).toTopology root
            (old.after additions).vertexCount v) ∧
        ∀ (F' T' O' : Type) (s' : Solution F' T' O' root (old.after additions)),
          ∃ g'', s'.run.next.heldGraph? = some g'' ∧ g''.value v = .ok d := by
  obtain ⟨g₀, hheld₀, htopology, hsize, hshortest₀⟩ := s.isShortest hw
  obtain rfl := Option.some.inj (hheld₀.symm.trans hold)
  have hweighted : Weighted g₀.toTopology := htopology ▸ hw
  obtain ⟨g', hheld, htopology', hsize', hshortest⟩ :=
    x.isShortest hweighted hadditions fun v => htopology ▸ hshortest₀ v
  have hgrown := grown_after hadditions ⟨fun _ => rfl, List.prefix_refl g₀.edges.toList, hweighted⟩
  have hroot : (g₀.after additions).contains root = true := by
    have hroot₀ := (initDistances_ok s.initialized).2.2.1
    have hgrows := (Graph.after_grows additions (List.prefix_refl g₀.edges.toList) hsize.ge).2
    simp only [Graph.contains, decide_eq_true_iff] at hroot₀ ⊢
    exact Nat.lt_of_lt_of_le hroot₀ hgrows
  refine ⟨g', hheld, htopology', hsize', fun v hv => ⟨distanceAt g' v,
    value_eq_ok (Graph.contains_congr hsize' ▸ hv), (hshortest v).bound, (hshortest v).least,
    fun hn => ?_, fun F' T' O' s' => ?_⟩⟩
  · exact (hshortest v).eq_bellmanFord (x.reachable.sound.graph _ x.held) hgrown.weighted hn hroot
  · exact s'.value_of_isShortest hgrown.weighted hv (hshortest v)

section

-- To evaluate the second run is to evaluate the first one too.
set_option maxRecDepth 4000

/-- What the run on the lane has left. -/
def laneLeft : Graph Float Float :=
  { ((initDistances 0).run Solution.lane).2 with values := #[0.0, 1.5] }

/-- A vertex behind the end of the lane, and a shorter edge beside the one that is there. -/
def detour : List (Graph.Operation Float Float) :=
  [.addVertex Distance.infinity, .addEdge 1 2 1.0, .addEdge 0 1 0.5]

theorem edges_detour :
    (laneLeft.after detour).edges.toList = [⟨0, 1, 1.5⟩, ⟨1, 2, 1.0⟩, ⟨0, 1, 0.5⟩] :=
  rfl

/-- The core of the lane after the additions, with relaxations of the sources of both edges. -/
def detourCore : Core Unit Float Float Unit :=
  let enlarged := detour.foldl (fun core op => ((Core.Operation.editGraph op).call.run core).2)
    Solution.laneSolution.run.next
  ((Core.Operation.schedule 0 () 1).call.run
    ((Core.Operation.schedule 1 () 1).call.run enlarged).2).2

theorem reachable_detourCore :
    detourCore.Reachable (relax : Behaviour Unit Float Float Unit Empty) :=
  .operation (.operation (.operation (.operation (.operation
    (.run Solution.laneSolution.reachable Solution.laneSolution.run)
    (.editGraph (.addVertex Distance.infinity))) (.editGraph (.addEdge 1 2 1.0)))
    (.editGraph (.addEdge 0 1 0.5))) (.schedule 1 () 1)) (.schedule 0 () 1)

theorem pending_detourCore : detourCore.scheduler.queue.toList.map (·.vertex) = [1, 0] :=
  rfl

theorem scheduled_detourCore :
    ∀ e ∈ (laneLeft.after detour).edges.toList.drop laneLeft.edgeCount,
      ∃ t ∈ detourCore.scheduler.queue.toList, t.vertex = e.source := by
  have hcount : laneLeft.edgeCount = 1 := rfl
  intro e he
  rw [edges_detour, hcount] at he
  refine List.mem_map.mp ?_
  rw [pending_detourCore]
  rcases List.mem_pair.mp he with rfl | rfl
  · exact List.mem_cons_self
  · exact List.mem_cons_of_mem _ List.mem_cons_self

/-- The machine that runs them. -/
def detourMachine : Machine Unit Float Float Unit Empty :=
  .start .plain (detourCore.boardOn (laneLeft.after detour))

def detourExtension : Extension Unit Unit Empty laneLeft detour :=
  { behaviour := relax
    core := detourCore
    reachable := reachable_detourCore
    held := rfl
    relaxes := fun _ _ => rfl
    scheduled := scheduled_detourCore
    run :=
      { first := detourMachine
        last := detourMachine.advanceBy relax 4
        conclusion := _
        next := _
        launched := rfl
        reached := Machine.reaches_advanceBy ..
        concluded := rfl }
    report := _
    converged := rfl }

/-- The end of the lane has got closer, and the vertex behind it is reached. -/
theorem extended_exact_detour : (∀ e ∈ Solution.lane.edges, IsWeight e.data) ∧
    Solution.laneSolution.run.next.heldGraph? = some laneLeft ∧
    (∀ op ∈ detour, IsAddition op) ∧ NonNegative (laneLeft.after detour).toTopology ∧
    ∃ g', detourExtension.run.next.heldGraph? = some g' ∧ g'.value 1 = .ok 0.5 ∧
      g'.value 2 = .ok 1.5 ∧
      (1.5 : Float) = bellmanFord (laneLeft.after detour).toTopology 0 3 2 := by
  have hadditions : ∀ op ∈ detour, IsAddition op := by
    intro op hop
    rcases List.mem_cons.mp hop with rfl | hop
    · exact rfl
    · rcases List.mem_pair.mp hop with rfl | rfl
      · exact rfl
      · exact rfl
  have hedges : ∀ e ∈ (laneLeft.after detour).edges, IsWeight e.data ∧ 0.0 ≤ e.data := by
    intro e he
    rw [← Array.mem_toList_iff, edges_detour] at he
    rcases List.mem_cons.mp he with rfl | hnew
    · exact ⟨rfl, by decide⟩
    · rcases List.mem_pair.mp hnew with rfl | rfl
      · exact ⟨rfl, by decide⟩
      · exact ⟨rfl, by decide⟩
  have hn : NonNegative (laneLeft.after detour).toTopology :=
    nonNegative_of_weights (fun e he => (hedges e he).1) fun e he => (hedges e he).2
  obtain ⟨g', hheld, -, -, hvalues⟩ := extended_exact Solution.laneSolution Solution.isWeight_lane
    rfl detourExtension hadditions
  obtain ⟨d, hd, -, -, hbellman, -⟩ := hvalues 2 rfl
  have hleft : g'.value 1 = .ok 0.5 ∧ g'.value 2 = .ok 1.5 := by
    obtain rfl := Option.some.inj hheld
    exact ⟨rfl, rfl⟩
  obtain rfl := Except.ok.inj (hd.symm.trans hleft.2)
  exact ⟨Solution.isWeight_lane, rfl, hadditions, hn, g', hheld, hleft.1, hleft.2, hbellman hn⟩

end

end Extension

end VertexEngine.ShortestPath
