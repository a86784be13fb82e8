import VertexEngine.Proofs.ShortestPath.Relaxation

/-!
# Bounds that only fall

What holds of relaxations at any moment, whether or not the right tasks are pending: every value is
infinity or the sum of a walk, and so is whatever a job is about to write.  A job never writes more
than what its vertex has, because no other job is at the vertex between its first read and its
write.

* `Relaxation.Bounded` is the invariant, and `Step.bounded` says that every step keeps it.
* `Step.le` says that no step raises a value.
-/

namespace VertexEngine.ShortestPath

open Distance

variable {F W : Type} [Distance W] [LawfulDistance W]

/-- What the job holds fits to the graph. -/
def Job.Fits (root : VertexId) (g : Graph W W) (job : Job F W) : Prop :=
  match job.progress with
  | .fresh => True
  | .pulling best rest =>
    IsBound g.toTopology root job.task.vertex best ∧ Le best (distanceAt g job.task.vertex) ∧
      ∀ e ∈ rest, e.target = job.task.vertex
  | .pushing distance _ => distance = distanceAt g job.task.vertex
  | .asking distance _ _ => distance = distanceAt g job.task.vertex

namespace Relaxation

/-- Every value is a bound, and what the jobs hold fits to the values. -/
structure Bounded (root : VertexId) (r : Relaxation F W) : Prop where
  inside : r.Inside
  weighted : Weighted r.graph.toTopology
  bound : ∀ v, IsBound r.graph.toTopology root v (distanceAt r.graph v)
  alone : (r.jobs.map (·.task.vertex)).Nodup
  fits : ∀ job ∈ r.jobs, job.Fits root r.graph

namespace Bounded

variable {root : VertexId} {g : Graph W W} {p p' : PendingList F} {before after : List (Job F W)}
  {t : Task F} {progress progress' : Progress W}

/-- No other job is at the vertex of a job. -/
theorem ne_of_mem (h : Bounded root ⟨g, p, before ++ ⟨t, progress⟩ :: after⟩) {job : Job F W}
    (hjob : job ∈ before ++ after) : job.task.vertex ≠ t.vertex := by
  intro heq
  have hmem : job.task.vertex ∈ (before ++ after).map (·.task.vertex) := List.mem_map_of_mem hjob
  exact (nodup_jobs.mp h.alone).1 (heq ▸ hmem)

/-- Which tasks are pending does not matter. -/
theorem requeue {jobs : List (Job F W)} (h : Bounded root ⟨g, p, jobs⟩) :
    Bounded root ⟨g, p', jobs⟩ :=
  ⟨⟨h.inside.graph, h.inside.vertex, h.inside.edges⟩, h.weighted, h.bound, h.alone, h.fits⟩

/-- A job goes on, and the graph stays as it is. -/
theorem advance (h : Bounded root ⟨g, p, before ++ ⟨t, progress⟩ :: after⟩)
    (hedges : ∀ e ∈ progress'.edges, e ∈ g.edges) (hfits : Job.Fits root g ⟨t, progress'⟩) :
    Bounded root ⟨g, p', before ++ ⟨t, progress'⟩ :: after⟩ := by
  obtain ⟨hvertex, hvertices⟩ := forall_jobs.mp h.inside.vertex
  obtain ⟨hfree, halone⟩ := nodup_jobs.mp h.alone
  refine ⟨⟨h.inside.graph, ?_, ?_⟩, h.weighted, h.bound, ?_, ?_⟩
  · exact forall_jobs.mpr ⟨hvertex, hvertices⟩
  · exact forall_jobs.mpr ⟨hedges, (forall_jobs.mp h.inside.edges).2⟩
  · exact nodup_jobs.mpr ⟨hfree, halone⟩
  · exact forall_jobs.mpr ⟨hfits, (forall_jobs.mp h.fits).2⟩

theorem take (h : Bounded root ⟨g, p, before ++ after⟩) (hv : g.contains t.vertex = true)
    (hfree : t.vertex ∉ (before ++ after).map (·.task.vertex)) :
    Bounded root ⟨g, p', before ++ ⟨t, .fresh⟩ :: after⟩ := by
  refine ⟨⟨h.inside.graph, ?_, ?_⟩, h.weighted, h.bound, ?_, ?_⟩
  · exact forall_jobs.mpr ⟨hv, h.inside.vertex⟩
  · exact forall_jobs.mpr ⟨by simp [Progress.edges], h.inside.edges⟩
  · exact nodup_jobs.mpr ⟨hfree, h.alone⟩
  · exact forall_jobs.mpr ⟨trivial, h.fits⟩

theorem finish (h : Bounded root ⟨g, p, before ++ ⟨t, progress⟩ :: after⟩) :
    Bounded root ⟨g, p, before ++ after⟩ :=
  ⟨⟨h.inside.graph, (forall_jobs.mp h.inside.vertex).2, (forall_jobs.mp h.inside.edges).2⟩,
    h.weighted, h.bound, (nodup_jobs.mp h.alone).2, (forall_jobs.mp h.fits).2⟩

/-- What the job reads first is the value that it is going to replace. -/
theorem start (h : Bounded root ⟨g, p, before ++ ⟨t, .fresh⟩ :: after⟩) :
    Bounded root ⟨g, p, before ++
      ⟨t, .pulling (distanceAt g t.vertex) (inEdges g.toTopology t.vertex)⟩ :: after⟩ := by
  refine h.advance (fun e he => (mem_inEdges.mp he).1) ?_
  exact ⟨h.bound t.vertex, .refl ((h.bound t.vertex).isDistance h.weighted),
    fun e he => (mem_inEdges.mp he).2⟩

section

variable {best : W} {e : Edge W} {rest : List (Edge W)}

/-- The way through an edge into the vertex of the job is a bound. -/
theorem through (h : Bounded root ⟨g, p, before ++ ⟨t, .pulling best (e :: rest)⟩ :: after⟩) :
    IsBound g.toTopology root t.vertex (add (distanceAt g e.source) e.data) := by
  obtain ⟨-, -, htargets⟩ := h.fits _ own_mem
  have he := h.inside.edges _ own_mem e List.mem_cons_self
  have hthrough := (h.bound e.source).add he h.weighted
  rw [htargets e List.mem_cons_self] at hthrough
  exact hthrough

/-- What a job holds after an edge is not above what it held, nor above what the edge gives. -/
theorem pull_le (h : Bounded root ⟨g, p, before ++ ⟨t, .pulling best (e :: rest)⟩ :: after⟩) :
    Le (min best (add (distanceAt g e.source) e.data)) best ∧
      Le (min best (add (distanceAt g e.source) e.data)) (add (distanceAt g e.source) e.data) := by
  obtain ⟨hbest, -, -⟩ := h.fits _ own_mem
  have hdist := hbest.isDistance h.weighted
  have hdist' := h.through.isDistance h.weighted
  exact ⟨min_le_left hdist hdist', min_le_right hdist hdist'⟩

theorem pull (h : Bounded root ⟨g, p, before ++ ⟨t, .pulling best (e :: rest)⟩ :: after⟩) :
    Bounded root ⟨g, p, before ++
      ⟨t, .pulling (min best (add (distanceAt g e.source) e.data)) rest⟩ :: after⟩ := by
  obtain ⟨hbest, hle, htargets⟩ := h.fits _ own_mem
  have hedges := h.inside.edges _ own_mem
  refine h.advance (fun e' he' => hedges e' (List.mem_cons_of_mem _ he')) ?_
  exact ⟨hbest.min h.through h.weighted, h.pull_le.1.trans hle,
    fun e' he' => htargets e' (List.mem_cons_of_mem _ he')⟩

end

section

variable {best : W}

/-- What a job writes is not above what it replaces. -/
theorem write_le (h : Bounded root ⟨g, p, before ++ ⟨t, .pulling best []⟩ :: after⟩)
    (v : VertexId) :
    Le (distanceAt (g.withValue t.vertex best) v) (distanceAt g v) := by
  obtain ⟨-, hle, -⟩ := h.fits _ own_mem
  by_cases heq : v = t.vertex
  · rw [heq, distanceAt_withValue_self (h.inside.vertex _ own_mem)]
    exact hle
  · rw [distanceAt_withValue_of_ne heq]
    exact .refl ((h.bound v).isDistance h.weighted)

theorem write (h : Bounded root ⟨g, p, before ++ ⟨t, .pulling best []⟩ :: after⟩) :
    Bounded root ⟨g.withValue t.vertex best, p,
      before ++ ⟨t, .pushing best (outEdges g.toTopology t.vertex)⟩ :: after⟩ := by
  obtain ⟨hbest, -, -⟩ := h.fits _ own_mem
  obtain ⟨hv, hvertices⟩ := forall_jobs.mp h.inside.vertex
  obtain ⟨hfree, halone⟩ := nodup_jobs.mp h.alone
  have hself : distanceAt (g.withValue t.vertex best) t.vertex = best :=
    distanceAt_withValue_self hv
  have hsize : (g.withValue t.vertex best).values.size = g.values.size := Array.size_setIfInBounds
  refine ⟨⟨h.inside.graph.of_topology rfl hsize, ?_, ?_⟩, h.weighted, fun v => ?_, ?_, ?_⟩
  · rw [Graph.contains_congr hsize]
    exact forall_jobs.mpr ⟨hv, hvertices⟩
  · exact forall_jobs.mpr ⟨fun e he => (mem_outEdges.mp he).1, (forall_jobs.mp h.inside.edges).2⟩
  · by_cases heq : v = t.vertex
    · rw [heq, hself]
      exact hbest
    · rw [distanceAt_withValue_of_ne heq]
      exact h.bound v
  · exact nodup_jobs.mpr ⟨hfree, halone⟩
  · -- The other jobs are at other vertices, whose values stay.
    refine forall_jobs.mpr ⟨hself.symm, fun job hjob => ?_⟩
    have hfits := (forall_jobs.mp h.fits).2 job hjob
    unfold Job.Fits at hfits ⊢
    rw [distanceAt_withValue_of_ne (h.ne_of_mem hjob)]
    exact hfits

end

section

variable {distance : W} {e : Edge W} {rest : List (Edge W)}

theorem improve (h : Bounded root ⟨g, p, before ++ ⟨t, .pushing distance (e :: rest)⟩ :: after⟩) :
    Bounded root ⟨g, p, before ++ ⟨t, .asking distance e rest⟩ :: after⟩ := by
  have hdistance : distance = distanceAt g t.vertex := h.fits _ own_mem
  exact h.advance (h.inside.edges _ own_mem) hdistance

theorem pass (h : Bounded root ⟨g, p, before ++ ⟨t, .pushing distance (e :: rest)⟩ :: after⟩) :
    Bounded root ⟨g, p, before ++ ⟨t, .pushing distance rest⟩ :: after⟩ := by
  have hdistance : distance = distanceAt g t.vertex := h.fits _ own_mem
  have hedges := h.inside.edges _ own_mem
  exact h.advance (fun e' he' => hedges e' (List.mem_cons_of_mem _ he')) hdistance

theorem ask (h : Bounded root ⟨g, p, before ++ ⟨t, .asking distance e rest⟩ :: after⟩) :
    Bounded root ⟨g, p', before ++ ⟨t, .pushing distance rest⟩ :: after⟩ := by
  have hdistance : distance = distanceAt g t.vertex := h.fits _ own_mem
  have hedges := h.inside.edges _ own_mem
  exact h.advance (fun e' he' => hedges e' (List.mem_cons_of_mem _ he')) hdistance

end

end Bounded

variable {root : VertexId} {r r' : Relaxation F W}

/-- Every step keeps the bounds. -/
theorem Step.bounded (hs : r.Step r') (h : r.Bounded root) : r'.Bounded root := by
  cases hs with
  | idle => exact h
  | take _ hv hfree => exact h.take hv hfree
  | drop _ _ => exact h.requeue
  | start => exact h.start
  | pull => exact h.pull
  | write => exact h.write
  | improve => exact h.improve
  | pass => exact h.pass
  | ask => exact h.ask
  | finish => exact h.finish

/-- No step raises a value. -/
theorem Step.le (hs : r.Step r') (h : r.Bounded root) (v : VertexId) :
    Le (distanceAt r'.graph v) (distanceAt r.graph v) := by
  cases hs with
  | write => exact h.write_le v
  | _ => exact .refl ((h.bound v).isDistance h.weighted)

end Relaxation

end VertexEngine.ShortestPath
