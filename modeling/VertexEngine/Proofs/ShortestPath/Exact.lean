import VertexEngine.Proofs.Binary64.Distance
import VertexEngine.Proofs.Core.Reachable
import VertexEngine.Proofs.ShortestPath.BellmanFord
import VertexEngine.Proofs.ShortestPath.Invariant
import VertexEngine.Proofs.ShortestPath.Preparation
import VertexEngine.Proofs.ShortestPath.Scene

/-!
# Shortest paths are exact

A run of relaxations that has converged leaves the shortest distance at every vertex, whichever
engine, number of workers, scheduler and policy it was run with, and however the workers' steps were
interleaved.

* `Core.Run.isShortest` is the result for any core whose relaxations start from a sound state.
* `sound_of_initDistances` says that the first distances are such a state.
* `Solution` is a run as users make it, and `Solution.distances_exact` is the result about it.
-/

namespace VertexEngine

open ShortestPath

variable {F W T O : Type} [Distance W] [LawfulDistance W] {behaviour : Behaviour F W W T O}
  {root : VertexId}

/-! ## Runs of relaxations -/

omit [LawfulDistance W] in
/-- A run of relaxations starts with its pending tasks, and nobody works on one. -/
theorem Core.launch_shows {core : Core F W W T} (hs : core.Sound) {g : Graph W W}
    (hg : core.heldGraph? = some g) {p : PendingList F} (hp : core.scheduler.Tracks p [])
    (htasks : ∀ t ∈ p.tasks, behaviour t.update = relax t.update)
    {first : Machine F W W T O} (h : core.launch = .ok first) :
    first.Orderly p ∧ (⟨g, p, []⟩ : Relaxation F W).Shows behaviour (first.scene p) ∧
      first.hands = [] ∧ first.board.Unfailed := by
  obtain ⟨g', hg', horderly, hhands, hquiet, -⟩ := launch_eq_ok h hs hp
  obtain rfl : g = g' := Option.some.inj (hg.symm.trans hg')
  have hgraph : first.board.graph = g := hquiet.graph
  exact ⟨horderly, ⟨hgraph, rfl, ⟨[], hhands, rfl⟩, htasks, by simp⟩, hhands,
    hquiet.unfailed nofun⟩

/-- A converged run of relaxations leaves the shortest distances. -/
theorem Core.Run.isShortest {core : Core F W W T} (r : Core.Run behaviour core) (hs : core.Sound)
    {g : Graph W W} (hg : core.heldGraph? = some g)
    (hsound : ∀ p : PendingList F, core.scheduler.queue.toList = p.tasks →
      Relaxation.Sound root ⟨g, p, []⟩)
    (htasks : ∀ t ∈ core.scheduler.queue.toList, behaviour t.update = relax t.update)
    {report : RunReport} (hc : r.conclusion = .converged report) :
    ∃ g', r.next.heldGraph? = some g' ∧ g'.toTopology = g.toTopology ∧
      g'.values.size = g.values.size ∧
      ∀ v, IsShortest g.toTopology root v (distanceAt g' v) := by
  obtain ⟨first, last, conclusion, next, hlaunched, hreached, hconcluded⟩ := r
  obtain rfl : conclusion = .converged report := hc
  obtain ⟨p, hp⟩ := hs.tracks
  have hlist := hp.queue.toList_eq
  obtain ⟨horderly, hshows, -⟩ := launch_shows hs hg hp (hlist ▸ htasks) hlaunched
  have hgraph : first.board.graph = g := hshows.graph
  obtain ⟨p', hmoves, horderly'⟩ := hreached.moves horderly
  obtain ⟨htopology, hsize⟩ := Moves.topology hmoves
  obtain ⟨r', hshows', hsound'⟩ := Moves.relaxes Relaxation.Step.sound
    Relaxation.Sound.inside hmoves hshows (hsound p hlist)
  have htop : last.board.graph.toTopology = g.toTopology := hgraph ▸ htopology
  cases concludes_of_eq_some hconcluded with
  | converged hstatus =>
    have hpending : r'.pending.tasks = [] := by
      rw [← hshows'.pending]
      exact (horderly'.converged hstatus).1
    have hjobs : r'.jobs = [] := by
      obtain ⟨posts, hposts, hjobs⟩ := hshows'.posts
      have hnil : last.hands = [] := horderly'.hands_eq_nil (by simp [hstatus])
      obtain rfl := List.map_eq_nil_iff.mp (hposts.symm.trans hnil)
      exact hjobs.symm
    refine ⟨last.board.graph, rfl, htop, hgraph ▸ hsize, fun v => ?_⟩
    have hshortest := hsound'.isShortest hpending hjobs v
    rw [← hshows'.graph] at hshortest
    exact htop ▸ hshortest

/-! ## The first distances -/

namespace ShortestPath

omit [LawfulDistance W] in
/-- The first distances are infinity, but for the root. -/
theorem initDistances_ok {g g' : Graph W W} (h : (initDistances root).run g = (.ok (), g')) :
    g'.toTopology = g.toTopology ∧ g'.values.size = g.values.size ∧ g.contains root = true ∧
      distanceAt g' root = Distance.zero ∧ ∀ v, v ≠ root → distanceAt g' v = Distance.infinity := by
  rw [run_initDistances] at h
  split at h
  · rename_i hroot
    obtain rfl := (Prod.mk.inj h).2
    have hcleared : (cleared g).contains root = true := by
      rw [contains_cleared]
      exact hroot
    refine ⟨rfl, Array.size_setIfInBounds.trans (size_cleared g), hroot,
      distanceAt_withValue_self hcleared, fun v hv => (distanceAt_withValue_of_ne hv).trans ?_⟩
    rw [distanceAt, cleared, Array.getElem?_mapIdx]
    cases g.values[v.toNat]? <;> rfl
  · cases (Prod.mk.inj h).1

/-- The first distances are bounds, whatever is pending. -/
theorem bounded_of_initDistances {g g' : Graph W W} (h : (initDistances root).run g = (.ok (), g'))
    (hg : g'.WellFormed) (hw : Weighted g.toTopology) (p : PendingList F) :
    Relaxation.Bounded root ⟨g', p, []⟩ := by
  obtain ⟨htopology, -, -, hroot, hother⟩ := initDistances_ok h
  refine ⟨⟨hg, by simp, by simp⟩, htopology ▸ hw, fun v => ?_, by simp, by simp⟩
  show IsBound g'.toTopology root v (distanceAt g' v)
  by_cases hv : v = root
  · rw [hv, hroot]
    exact .inr ⟨[], .stay, rfl⟩
  · exact .inl (hother v hv)

/-- Relaxation may start at the first distances if the root is pending. -/
theorem sound_of_initDistances {g g' : Graph W W} (h : (initDistances root).run g = (.ok (), g'))
    (hg : g'.WellFormed) (hw : Weighted g.toTopology) {p : PendingList F}
    (hp : p.contains root = true) : Relaxation.Sound root ⟨g', p, []⟩ := by
  obtain ⟨-, -, -, hroot, hother⟩ := initDistances_ok h
  have hbounded := bounded_of_initDistances h hg hw p
  refine hbounded.sound ?_ fun e he => ?_
  · show Distance.Le (distanceAt g' root) Distance.zero
    rw [hroot]
    exact .refl LawfulDistance.isDistance_zero
  · by_cases hsource : e.source = root
    · refine .source ?_
      rw [hsource]
      exact hp
    · refine .satisfied ?_
      show Distance.Le _ (Distance.add (distanceAt g' e.source) e.data)
      rw [hother _ hsource, LawfulDistance.infinity_add (hbounded.weighted e he)]
      exact Distance.le_infinity ((hbounded.bound e.target).isDistance hbounded.weighted)

/-- Weights that are not negative lower no distance. -/
theorem nonNegative_of_weights {t : Topology Float} (hw : Weighted t)
    (h : ∀ e ∈ t.edges, 0.0 ≤ e.data) : NonNegative t :=
  fun e he _ hd => Binary64.le_add hd (hw e he) (h e he)

/-! ## Solutions -/

/-- A run for the shortest distances from a root, as users make it: the graph of a core gets its
first distances, relaxations are scheduled, one of them for the root, and the run converges. -/
structure Solution (F T O : Type) (root : VertexId) (g : Graph W W) where
  behaviour : Behaviour F W W T O
  core : Core F W W T
  reachable : core.Reachable behaviour
  initial : Graph W W
  initialized : (initDistances root).run g = (.ok (), initial)
  held : core.heldGraph? = some initial
  relaxes : ∀ t ∈ core.scheduler.queue.toList, behaviour t.update = relax t.update
  rooted : ∃ t ∈ core.scheduler.queue.toList, t.vertex = root
  run : Core.Run behaviour core
  report : RunReport
  converged : run.conclusion = .converged report

namespace Solution

variable {g : Graph W W}

/-- Every value is the shortest. -/
theorem isShortest (s : Solution F T O root g) (hw : Weighted g.toTopology) :
    ∃ g', s.run.next.heldGraph? = some g' ∧ g'.toTopology = g.toTopology ∧
      g'.values.size = g.values.size ∧
      ∀ v, IsShortest g.toTopology root v (distanceAt g' v) := by
  obtain ⟨htopology, hsize, -⟩ := initDistances_ok s.initialized
  have hcore := s.reachable.sound
  have hsound : ∀ p : PendingList F, s.core.scheduler.queue.toList = p.tasks →
      Relaxation.Sound root ⟨s.initial, p, []⟩ := by
    intro p hp
    refine sound_of_initDistances s.initialized (hcore.graph _ s.held) hw ?_
    exact PendingList.contains_iff.mpr (hp ▸ s.rooted)
  obtain ⟨g', hheld, htopology', hsize', hshortest⟩ :=
    s.run.isShortest hcore s.held hsound s.relaxes s.converged
  exact ⟨g', hheld, htopology'.trans htopology, hsize'.trans hsize, htopology ▸ hshortest⟩

/-- The shortest distance of a vertex is the value that the run leaves. -/
theorem value_of_isShortest (s : Solution F T O root g) (hw : Weighted g.toTopology) {v : VertexId}
    (hv : g.contains v = true) {x : W} (h : IsShortest g.toTopology root v x) :
    ∃ g', s.run.next.heldGraph? = some g' ∧ g'.value v = .ok x := by
  obtain ⟨g', hheld, -, hsize, hshortest⟩ := s.isShortest hw
  refine ⟨g', hheld, ?_⟩
  rw [h.unique (hshortest v) hw]
  exact value_eq_ok (Graph.contains_congr hsize ▸ hv)

/-- The value of every vertex is infinity or the sum of a walk from the root, and it is not above
the sum of any such walk.  If no weight lowers a distance, as none does that is not negative
(`nonNegative_of_weights`), it is the reference distance, and every other solution, with whatever
options and interleaving, has the same value. -/
theorem distances_exact (s : Solution F T O root g) (hw : ∀ e ∈ g.edges, IsWeight e.data) :
    ∃ g', s.run.next.heldGraph? = some g' ∧ g'.toTopology = g.toTopology ∧
      g'.vertexCount = g.vertexCount ∧
      ∀ v, g.contains v = true → ∃ x, g'.value v = .ok x ∧
        (x = Distance.infinity ∨ ∃ es, g.Walk root v es ∧ x = walkSum es) ∧
        (∀ es, g.Walk root v es → Distance.Le x (walkSum es)) ∧
        (NonNegative g.toTopology → x = bellmanFord g.toTopology root g.vertexCount v) ∧
        ∀ (F' T' O' : Type) (s' : Solution F' T' O' root g),
          ∃ g'', s'.run.next.heldGraph? = some g'' ∧ g''.value v = .ok x := by
  obtain ⟨g', hheld, htopology, hsize, hshortest⟩ := s.isShortest hw
  have hcontains : ∀ {g' : Graph W W}, g'.values.size = g.values.size → ∀ {v},
      g.contains v = true → g'.contains v = true := by
    intro g' hsize v hv
    rw [Graph.contains, hsize]
    exact hv
  have hroot := (initDistances_ok s.initialized).2.2.1
  refine ⟨g', hheld, htopology, hsize, fun v hv => ⟨distanceAt g' v,
    value_eq_ok (hcontains hsize hv), (hshortest v).bound, (hshortest v).least, fun hn => ?_,
    fun F' T' O' s' => ?_⟩⟩
  · have hgraph := s.reachable.sound.graph _ s.held
    obtain ⟨htopology', hsize', -⟩ := initDistances_ok s.initialized
    refine (hshortest v).unique (isShortest_bellmanFord hw hn ?_ (fun e he => ?_) v) hw
    · show root.toNat < g.values.size
      simpa [Graph.contains] using hroot
    · have hlt := hgraph.target_lt e (htopology' ▸ he)
      rw [hsize'] at hlt
      exact hlt
  · obtain ⟨g'', hheld', -, hsize', hshortest'⟩ := s'.isShortest hw
    refine ⟨g'', hheld', ?_⟩
    rw [(hshortest v).unique (hshortest' v) hw]
    exact value_eq_ok (hcontains hsize' hv)

/-- Two vertices and one edge. -/
def lane : Graph Float Float :=
  ((Graph.Operation.addEdge 0 1 1.5).edit.run
    ((Graph.Operation.ensureVertices 2 0).edit.run {}).2).2

theorem isWeight_lane : ∀ e ∈ lane.edges, IsWeight e.data := by
  intro e he
  rw [List.mem_singleton.mp (Array.mem_toList_iff.mpr he : e ∈ [⟨0, 1, 1.5⟩])]
  rfl

/-- The core on which a relaxation of vertex 0 is scheduled. -/
def laneCore : Core Unit Float Float Unit where
  options := .plain
  stage := .bound ((initDistances 0).run lane).2
  scheduler := ((Scheduler.empty .fifo .coalesce).schedule 0 () 1).1

theorem reachable_laneCore :
    laneCore.Reachable (relax : Behaviour Unit Float Float Unit Empty) :=
  .operation (.operation (.operation (.operation (.new (rfl : Core.withOptions .plain = .ok _))
    (.setGraph lane (.operation (.operation .empty (.ensureVertices 2 0)) (.addEdge 0 1 1.5))))
    (.editGraph (.fill Distance.infinity))) (.editGraph (.setValue 0 Distance.zero)))
    (.schedule 0 () 1)

/-- Its run by the sequential engine. -/
def laneSolution : Solution Unit Unit Empty 0 lane :=
  let m₀ : Machine Unit Float Float Unit Empty :=
    .start .plain (laneCore.boardOn ((initDistances 0).run lane).2)
  { behaviour := relax
    core := laneCore
    reachable := reachable_laneCore
    initial := _
    initialized := rfl
    held := rfl
    relaxes := fun _ _ => rfl
    rooted := ⟨_, List.mem_cons_self, rfl⟩
    run :=
      { first := m₀
        last := ((m₀.advance relax).advance relax).advance relax
        conclusion := _
        next := _
        launched := rfl
        reached := ((Machine.reaches_advance relax m₀).trans (Machine.reaches_advance ..)).trans
          (Machine.reaches_advance ..)
        concluded := rfl }
    report := _
    converged := rfl }

/-- Vertex 1 is as far away as the edge says. -/
theorem distances_exact_lane : (∀ e ∈ lane.edges, IsWeight e.data) ∧ NonNegative lane.toTopology ∧
    ∃ g', laneSolution.run.next.heldGraph? = some g' ∧ g'.value 1 = .ok 1.5 ∧
      (1.5 : Float) = bellmanFord lane.toTopology 0 2 1 := by
  have hedges : ∀ e ∈ lane.edges, e = ⟨0, 1, 1.5⟩ := by
    intro e he
    exact List.mem_singleton.mp (Array.mem_toList_iff.mpr he)
  have hw : ∀ e ∈ lane.edges, IsWeight e.data := by
    intro e he
    rw [hedges e he]
    rfl
  have hn : NonNegative lane.toTopology := by
    refine nonNegative_of_weights hw fun e he => ?_
    rw [hedges e he]
    decide
  obtain ⟨g', hheld, -, -, hvalues⟩ := laneSolution.distances_exact hw
  obtain ⟨x, hx, -, -, hbellman, -⟩ := hvalues 1 rfl
  have hvalue : g'.value 1 = .ok 1.5 := by
    obtain rfl := Option.some.inj hheld
    rfl
  obtain rfl := Except.ok.inj (hx.symm.trans hvalue)
  exact ⟨hw, hn, g', hheld, hvalue, hbellman hn⟩

end Solution

end ShortestPath

end VertexEngine
