import VertexEngine.Proofs.ShortestPath.Bounded

/-!
# What relaxation never loses

The invariant of shortest-path runs is about the edges that could still improve their target.  Such
an edge is never forgotten: an update of one of its endpoints is pending, or a job at its source has
yet to try it, or a job at its target has yet to follow it, or has followed it and has yet to write.

Values that were read may be stale.  A job at the target only vouches for an edge as long as what it
holds is good enough for the value that the source has now.  When the source changes, this is
because a job has just written there, and that job is going to try all edges out of it.

* `Progress.Owes` and `Progress.Vouches` are the two ways in which a job takes care of an edge.
* `Relaxation.Sound` is the invariant, and `Relaxation.Step.sound` says that every step keeps it.
* `Relaxation.Sound.isShortest` is what it means for a run that has come to its end.
-/

namespace VertexEngine.ShortestPath

open Distance

variable {F W : Type} [Distance W]

/-- The job at the source of an edge has yet to try it. -/
def Progress.Owes (e : Edge W) : Progress W → Prop
  | fresh => True
  | pulling _ _ => True
  | pushing _ rest => e ∈ rest
  | asking _ e' rest => e ∈ e' :: rest

variable [LawfulDistance W]

/-- The edge cannot improve its target. -/
def Satisfied (g : Graph W W) (e : Edge W) : Prop :=
  Le (distanceAt g e.target) (add (distanceAt g e.source) e.data)

/-- The job at the target of an edge has yet to follow it, or holds a distance that is as good. -/
def Progress.Vouches (g : Graph W W) (e : Edge W) : Progress W → Prop
  | fresh => True
  | pulling best rest => e ∈ rest ∨ Le best (add (distanceAt g e.source) e.data)
  | pushing _ _ => False
  | asking _ _ _ => False

theorem Progress.Vouches.congr {g g' : Graph W W} {e : Edge W} {progress : Progress W}
    (h : progress.Vouches g e) (hsource : distanceAt g' e.source = distanceAt g e.source) :
    progress.Vouches g' e := by
  cases progress with
  | pulling best rest =>
    rw [Vouches, hsource]
    exact h
  | _ => exact h

/-- The job takes care of the edge. -/
def Job.Covers (g : Graph W W) (e : Edge W) (job : Job F W) : Prop :=
  job.task.vertex = e.source ∧ job.progress.Owes e ∨
    job.task.vertex = e.target ∧ job.progress.Vouches g e

namespace Relaxation

/-- Something takes care of the edge, or nothing needs to. -/
inductive Covers (r : Relaxation F W) (e : Edge W) : Prop
  | satisfied (h : Satisfied r.graph e)
  | source (h : r.pending.contains e.source = true)
  | target (h : r.pending.contains e.target = true)
  | job {job : Job F W} (hjob : job ∈ r.jobs) (h : job.Covers r.graph e)

/-- The invariant of shortest-path runs. -/
structure Sound (root : VertexId) (r : Relaxation F W) : Prop where
  inside : r.Inside
  weighted : Weighted r.graph.toTopology
  bound : ∀ v, IsBound r.graph.toTopology root v (distanceAt r.graph v)
  rooted : Le (distanceAt r.graph root) zero
  alone : (r.jobs.map (·.task.vertex)).Nodup
  fits : ∀ job ∈ r.jobs, job.Fits root r.graph
  covered : ∀ e ∈ r.graph.edges, r.Covers e

theorem Sound.bounded {root : VertexId} {r : Relaxation F W} (h : r.Sound root) :
    r.Bounded root :=
  ⟨h.inside, h.weighted, h.bound, h.alone, h.fits⟩

theorem Bounded.sound {root : VertexId} {r : Relaxation F W} (h : r.Bounded root)
    (hrooted : Le (distanceAt r.graph root) zero) (hcovered : ∀ e ∈ r.graph.edges, r.Covers e) :
    r.Sound root :=
  ⟨h.inside, h.weighted, h.bound, hrooted, h.alone, h.fits, hcovered⟩

/-! ## Edges stay covered -/

namespace Covers

variable {g : Graph W W} {p p' : PendingList F} {before after : List (Job F W)} {t : Task F}
  {progress progress' : Progress W} {e : Edge W}

/-- A job goes on, and the graph stays as it is. -/
theorem advance (h : Covers ⟨g, p, before ++ ⟨t, progress⟩ :: after⟩ e)
    (hp : ∀ v, p.contains v = true → p'.contains v = true)
    (hjob : Job.Covers g e ⟨t, progress⟩ →
      Covers ⟨g, p', before ++ ⟨t, progress'⟩ :: after⟩ e) :
    Covers ⟨g, p', before ++ ⟨t, progress'⟩ :: after⟩ e := by
  rcases h with hsat | hsource | htarget | ⟨hmem, hcov⟩
  · exact .satisfied hsat
  · exact .source (hp _ hsource)
  · exact .target (hp _ htarget)
  · rcases mem_jobs.mp hmem with rfl | hother
    · exact hjob hcov
    · exact .job (mem_jobs.mpr (.inr hother)) hcov

/-- A task that is taken out takes care of all edges at its vertex, and so does its fresh job. -/
theorem take (h : Covers ⟨g, p, before ++ after⟩ e) {held : List VertexId}
    (ht : Scheduler.firstFree held p = some t) :
    Covers ⟨g, Scheduler.withoutFirstFree held p, before ++ ⟨t, .fresh⟩ :: after⟩ e := by
  rcases h with hsat | hsource | htarget | ⟨hjob, hcov⟩
  · exact .satisfied hsat
  · rcases Scheduler.contains_withoutFirstFree ht hsource with hv | hpending
    · exact .job own_mem (.inl ⟨hv, trivial⟩)
    · exact .source hpending
  · rcases Scheduler.contains_withoutFirstFree ht htarget with hv | hpending
    · exact .job own_mem (.inr ⟨hv, trivial⟩)
    · exact .target hpending
  · exact .job (mem_jobs.mpr (.inr hjob)) hcov

/-- A task whose vertex does not exist takes care of no edge. -/
theorem drop {jobs : List (Job F W)} (h : Covers ⟨g, p, jobs⟩ e) {held : List VertexId}
    (ht : Scheduler.firstFree held p = some t) (hsource : t.vertex ≠ e.source)
    (htarget : t.vertex ≠ e.target) :
    Covers ⟨g, Scheduler.withoutFirstFree held p, jobs⟩ e := by
  rcases h with hsat | hpending | hpending | ⟨hjob, hcov⟩
  · exact .satisfied hsat
  · exact .source ((Scheduler.contains_withoutFirstFree ht hpending).resolve_left hsource)
  · exact .target ((Scheduler.contains_withoutFirstFree ht hpending).resolve_left htarget)
  · exact .job hjob hcov

/-- A job that owes nothing any more is put away. -/
theorem finish {distance : W} (h : Covers ⟨g, p, before ++ ⟨t, .pushing distance []⟩ :: after⟩ e) :
    Covers ⟨g, p, before ++ after⟩ e := by
  rcases h with hsat | hsource | htarget | ⟨hjob, hcov⟩
  · exact .satisfied hsat
  · exact .source hsource
  · exact .target htarget
  · rcases mem_jobs.mp hjob with rfl | hother
    · rcases hcov with ⟨-, howes⟩ | ⟨-, hvouches⟩
      · cases howes
      · cases hvouches
    · exact .job hother hcov

/-- The job reads its own value, and is going to follow every edge into its vertex. -/
theorem start (h : Covers ⟨g, p, before ++ ⟨t, .fresh⟩ :: after⟩ e) (he : e ∈ g.edges) :
    Covers ⟨g, p, before ++
      ⟨t, .pulling (distanceAt g t.vertex) (inEdges g.toTopology t.vertex)⟩ :: after⟩ e := by
  refine h.advance (fun _ => id) fun hcov => .job own_mem ?_
  rcases hcov with ⟨hsource, -⟩ | ⟨htarget, -⟩
  · exact .inl ⟨hsource, trivial⟩
  · exact .inr ⟨htarget, .inl (mem_inEdges.mpr ⟨he, htarget.symm⟩)⟩

/-- The job follows an edge: what it holds then is as good as the edge makes it. -/
theorem pull {best : W} {e' : Edge W} {rest : List (Edge W)}
    (h : Covers ⟨g, p, before ++ ⟨t, .pulling best (e' :: rest)⟩ :: after⟩ e)
    (hle : Le (min best (add (distanceAt g e'.source) e'.data)) best ∧
      Le (min best (add (distanceAt g e'.source) e'.data)) (add (distanceAt g e'.source) e'.data)) :
    Covers ⟨g, p, before ++
      ⟨t, .pulling (min best (add (distanceAt g e'.source) e'.data)) rest⟩ :: after⟩ e := by
  refine h.advance (fun _ => id) fun hcov => .job own_mem ?_
  rcases hcov with ⟨hsource, -⟩ | ⟨htarget, hmem | hgood⟩
  · exact .inl ⟨hsource, trivial⟩
  · rcases List.mem_cons.mp hmem with rfl | hrest
    · exact .inr ⟨htarget, .inr hle.2⟩
    · exact .inr ⟨htarget, .inl hrest⟩
  · exact .inr ⟨htarget, .inr (hle.1.trans hgood)⟩

/-- The edge makes its target closer, and the job still owes it. -/
theorem improve {distance : W} {e' : Edge W} {rest : List (Edge W)}
    (h : Covers ⟨g, p, before ++ ⟨t, .pushing distance (e' :: rest)⟩ :: after⟩ e) :
    Covers ⟨g, p, before ++ ⟨t, .asking distance e' rest⟩ :: after⟩ e := by
  refine h.advance (fun _ => id) fun hcov => .job own_mem ?_
  rcases hcov with ⟨hsource, howes⟩ | ⟨-, hvouches⟩
  · exact .inl ⟨hsource, howes⟩
  · cases hvouches

/-- The edge does not make its target closer, so it is satisfied. -/
theorem pass {distance : W} {e' : Edge W} {rest : List (Edge W)}
    (h : Covers ⟨g, p, before ++ ⟨t, .pushing distance (e' :: rest)⟩ :: after⟩ e)
    (hsat : t.vertex = e'.source → Satisfied g e') :
    Covers ⟨g, p, before ++ ⟨t, .pushing distance rest⟩ :: after⟩ e := by
  refine h.advance (fun _ => id) fun hcov => ?_
  rcases hcov with ⟨hsource, howes⟩ | ⟨-, hvouches⟩
  · rcases List.mem_cons.mp howes with rfl | hrest
    · exact .satisfied (hsat hsource)
    · exact .job own_mem (.inl ⟨hsource, hrest⟩)
  · cases hvouches

/-- The target of the edge is pending from now on. -/
theorem ask {distance : W} {e' : Edge W} {rest : List (Edge W)} {update : F} {priority : Float}
    (h : Covers ⟨g, p, before ++ ⟨t, .asking distance e' rest⟩ :: after⟩ e) :
    Covers ⟨g, (p.push e'.target update priority).1,
      before ++ ⟨t, .pushing distance rest⟩ :: after⟩ e := by
  refine h.advance (fun v hv => PendingList.contains_push.mpr (.inr hv)) fun hcov => ?_
  rcases hcov with ⟨hsource, howes⟩ | ⟨-, hvouches⟩
  · rcases List.mem_cons.mp howes with rfl | hrest
    · exact .target (PendingList.contains_push.mpr (.inl rfl))
    · exact .job own_mem (.inl ⟨hsource, hrest⟩)
  · cases hvouches

/-- The job writes what it holds.  This satisfies the edges that it vouched for, and it owes all
edges out of its vertex, which are those that the write may have broken. -/
theorem write {best : W} (h : Covers ⟨g, p, before ++ ⟨t, .pulling best []⟩ :: after⟩ e)
    (he : e ∈ g.edges) (hv : g.contains t.vertex = true)
    (hlower : Le (distanceAt (g.withValue t.vertex best) e.target) (distanceAt g e.target)) :
    Covers ⟨g.withValue t.vertex best, p,
      before ++ ⟨t, .pushing best (outEdges g.toTopology t.vertex)⟩ :: after⟩ e := by
  by_cases hsource : t.vertex = e.source
  · have howes : e ∈ outEdges g.toTopology t.vertex := mem_outEdges.mpr ⟨he, hsource.symm⟩
    exact .job own_mem (.inl ⟨hsource, howes⟩)
  · have hsame : distanceAt (g.withValue t.vertex best) e.source = distanceAt g e.source :=
      distanceAt_withValue_of_ne (Ne.symm hsource)
    rcases h with hsat | hpending | hpending | ⟨hjob, hcov⟩
    · refine .satisfied ?_
      show Le _ (add (distanceAt (g.withValue t.vertex best) e.source) e.data)
      rw [hsame]
      exact hlower.trans hsat
    · exact .source hpending
    · exact .target hpending
    · rcases mem_jobs.mp hjob with rfl | hjob'
      · rcases hcov with ⟨hs, -⟩ | ⟨htarget, hmem | hgood⟩
        · exact absurd hs hsource
        · cases hmem
        · refine .satisfied ?_
          show Le (distanceAt (g.withValue t.vertex best) e.target)
            (add (distanceAt (g.withValue t.vertex best) e.source) e.data)
          rw [hsame, ← htarget, distanceAt_withValue_self hv]
          exact hgood
      · refine .job (mem_jobs.mpr (.inr hjob')) ?_
        rcases hcov with howes | ⟨htarget, hvouches⟩
        · exact .inl howes
        · exact .inr ⟨htarget, hvouches.congr hsame⟩

end Covers

variable {root : VertexId} {r r' : Relaxation F W}

/-- An edge that was tried without success is satisfied. -/
theorem Bounded.satisfied {g : Graph W W} {p : PendingList F} {before after : List (Job F W)}
    {t : Task F} {distance : W} {e : Edge W} {rest : List (Edge W)}
    (h : Bounded root ⟨g, p, before ++ ⟨t, .pushing distance (e :: rest)⟩ :: after⟩)
    (hlt : lt (add distance e.data) (distanceAt g e.target) = false)
    (hsource : t.vertex = e.source) : Satisfied g e := by
  have hdistance : distance = distanceAt g t.vertex := h.fits _ own_mem
  have he := h.inside.edges _ own_mem e List.mem_cons_self
  have hthrough := (h.bound e.source).add he h.weighted
  refine ⟨(h.bound _).isDistance h.weighted, hthrough.isDistance h.weighted, ?_⟩
  rw [← hsource]
  exact hdistance ▸ hlt

/-- No step loses an edge. -/
theorem Step.covers (hs : r.Step r') (h : r.Bounded root) {e : Edge W} (he : e ∈ r.graph.edges)
    (hc : r.Covers e) : r'.Covers e := by
  cases hs with
  | idle => exact hc
  | take ht _ _ => exact hc.take ht
  | @drop g p jobs held t ht hv =>
    have hne : ∀ v : VertexId, g.contains v = true → t.vertex ≠ v := by
      rintro v hcontains rfl
      cases hv.symm.trans hcontains
    exact hc.drop ht (hne _ (h.inside.graph.contains_source he))
      (hne _ (h.inside.graph.contains_target he))
  | start => exact hc.start he
  | pull => exact hc.pull h.pull_le
  | write => exact hc.write he (h.inside.vertex _ own_mem) (h.write_le _)
  | improve => exact hc.improve
  | pass g p before after t distance e' rest hlt => exact hc.pass (h.satisfied hlt)
  | ask => exact hc.ask
  | finish => exact hc.finish

omit [LawfulDistance W] in
theorem Step.topology (hs : r.Step r') : r'.graph.toTopology = r.graph.toTopology := by
  cases hs <;> rfl

/-- Every step keeps the invariant. -/
theorem Step.sound (hs : r.Step r') (h : r.Sound root) : r'.Sound root := by
  refine (hs.bounded h.bounded).sound ((hs.le h.bounded root).trans h.rooted) fun e he => ?_
  have hold : e ∈ r.graph.edges := hs.topology ▸ he
  exact hs.covers h.bounded hold (h.covered e hold)

/-- When nothing is left to do, every value is the shortest. -/
theorem Sound.isShortest (h : r.Sound root) (hpending : r.pending.tasks = []) (hjobs : r.jobs = [])
    (v : VertexId) : IsShortest r.graph.toTopology root v (distanceAt r.graph v) := by
  have hnone : ∀ v, r.pending.contains v = false := by
    intro v
    simp [PendingList.contains, hpending]
  refine isShortest_of_satisfied h.rooted (fun e he => ?_) h.weighted (h.bound v)
  rcases h.covered e he with hsat | hsource | htarget | ⟨hjob, -⟩
  · exact hsat
  · simp [hnone] at hsource
  · simp [hnone] at htarget
  · simp [hjobs] at hjob

end Relaxation

end VertexEngine.ShortestPath
