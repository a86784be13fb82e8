import VertexEngine.Proofs.ShortestPath.Undisturbed

/-!
# Shortest paths before the end

What a run of relaxations has at a vertex is worth something at any moment, also when the run is
aborted or has just begun, and whatever was pending at its start: it is infinity or the sum of a
walk from the root, and it only gets better.

* `Setup` is a core on which relaxations are about to run.
* `Moves.relaxes_le` says that no value rises between two moments of a run.
* `Setup.bounds_throughout` is the result.
-/

namespace VertexEngine

open ShortestPath

variable {F W T O : Type} [Distance W] [LawfulDistance W] {root : VertexId}

/-- Between two moments of a run every value stays a bound, and none rises. -/
theorem Moves.relaxes_le {behaviour : Behaviour F W W T O} {s s' : Scene F W W T O}
    (hm : Moves behaviour s s') {r : Relaxation F W} (hr : r.Shows behaviour s)
    (h : r.Bounded root) : ∃ r' : Relaxation F W, r'.Shows behaviour s' ∧ r'.Bounded root ∧
      ∀ v, Distance.Le (distanceAt r'.graph v) (distanceAt r.graph v) := by
  let Lower (r' : Relaxation F W) : Prop :=
    r'.Bounded root ∧ ∀ v, Distance.Le (distanceAt r'.graph v) (distanceAt r.graph v)
  have hkeep : ∀ {r₁ r₂ : Relaxation F W}, r₁.Step r₂ → Lower r₁ → Lower r₂ :=
    fun hs hl => ⟨hs.bounded hl.1, fun v => (hs.le hl.1 v).trans (hl.2 v)⟩
  have hrefl : Lower r := ⟨h, fun v => .refl ((h.bound v).isDistance h.weighted)⟩
  exact Moves.relaxes hkeep (fun hl => hl.1.inside) hm hr hrefl

namespace ShortestPath

/-- A core on which relaxations are about to run: its graph has the first distances, and all pending
tasks relax. -/
structure Setup (F T O : Type) (root : VertexId) (g : Graph W W) where
  behaviour : Behaviour F W W T O
  core : Core F W W T
  reachable : core.Reachable behaviour
  initial : Graph W W
  initialized : (initDistances root).run g = (.ok (), initial)
  held : core.heldGraph? = some initial
  relaxes : ∀ t ∈ core.scheduler.queue.toList, behaviour t.update = relax t.update

namespace Setup

variable {g : Graph W W} (s : Setup F T O root g)

/-- The tasks that are pending when the run starts. -/
def pending : PendingList F :=
  s.core.scheduler.queue.pendingList

/-- The relaxation that the run starts with. -/
def start : Relaxation F W :=
  ⟨s.initial, s.pending, []⟩

theorem bounded_start (hw : Weighted g.toTopology) : s.start.Bounded root :=
  bounded_of_initDistances s.initialized (s.reachable.sound.graph _ s.held) hw _

omit [LawfulDistance W] in
theorem exists_launch (ht : s.core.syncs.Total) :
    ∃ first : Machine F W W T O, s.core.launch = .ok first := by
  obtain ⟨b, -, -, hl⟩ := Core.launch_of_total (O := O) (Core.stage_of_heldGraph s.held) ht
  exact ⟨_, hl s.core.options⟩

omit [LawfulDistance W] in
theorem launch_shows {first : Machine F W W T O} (hl : s.core.launch = .ok first) :
    s.start.Shows s.behaviour (first.scene s.pending) ∧ (first.scene s.pending).Unharmed := by
  have hsound := s.reachable.sound
  obtain ⟨p, hp⟩ := hsound.tracks
  obtain rfl := hp.queue.eq_pendingList
  obtain ⟨-, hshows, hhands, hunfailed⟩ :=
    Core.launch_shows hsound s.held hp (hp.queue.toList_eq ▸ s.relaxes) hl
  exact ⟨hshows, Board.Unfailed.unharmed hunfailed hhands⟩

omit [LawfulDistance W] in
/-- At any moment of the run the relaxation has the edges of the graph, and shows its values. -/
theorem shows_graph {first : Machine F W W T O} (hl : s.core.launch = .ok first)
    {scene : Scene F W W T O} (hm : Moves s.behaviour (first.scene s.pending) scene)
    {r : Relaxation F W} (hr : r.Shows s.behaviour scene) :
    r.graph.toTopology = g.toTopology ∧
      ∀ v, g.contains v = true → scene.board.graph.value v = .ok (distanceAt r.graph v) := by
  obtain ⟨hshows, -⟩ := s.launch_shows hl
  obtain ⟨htopology, hsize⟩ := Moves.topology hm
  obtain ⟨hinitial, hcount, -⟩ := initDistances_ok s.initialized
  rw [hr.graph, hshows.graph] at htopology hsize
  refine ⟨htopology.trans hinitial, fun v hv => ?_⟩
  rw [hr.graph]
  exact value_eq_ok (Graph.contains_congr (hsize.trans hcount) ▸ hv)

/-- At any moment of a run of relaxations, with whatever options and interleaving: no task has
failed, and the value of a vertex is infinity or the sum of a walk from the root, so it is a
distance and not below any that is below the sums of all such walks.  At no later moment of the run
is it greater.  Whenever the engine has made a step is such a moment, and a run in which workers can
be started and no sync panics ends well or as aborted, with the values that it had then. -/
theorem bounds_throughout (hw : ∀ e ∈ g.edges, IsWeight e.data) (ht : s.core.syncs.Total) :
    ∃ first : Machine F W W T O, s.core.launch = .ok first ∧
      (∀ scene, Moves s.behaviour (first.scene s.pending) scene → scene.Unharmed ∧
        ∀ v, g.contains v = true → ∃ x, scene.board.graph.value v = .ok x ∧
          (x = Distance.infinity ∨ ∃ es, g.Walk root v es ∧ x = walkSum es) ∧ IsDistance x ∧
          (∀ d, IsDistance d → (∀ es, g.Walk root v es → Distance.Le d (walkSum es)) →
            Distance.Le d x) ∧
          ∀ later, Moves s.behaviour scene later →
            ∃ y, later.board.graph.value v = .ok y ∧ Distance.Le y x) ∧
      (∀ m m', first.Reaches s.behaviour m → m.Reaches s.behaviour m' →
        ∃ p p', Moves s.behaviour (first.scene s.pending) (m.scene p) ∧
          Moves s.behaviour (m.scene p) (m'.scene p')) ∧
      ∀ deeds m conclusion next, first.Passes s.behaviour deeds m →
        s.core.conclude? m = some (conclusion, next) →
        (conclusion = .converged (s.core.report m.board) ∨ conclusion = .stopped .aborted) ∧
          next.heldGraph? = some m.board.graph := by
  obtain ⟨first, hl⟩ := s.exists_launch ht
  obtain ⟨hshows, hunharmed⟩ := s.launch_shows hl
  have hbounded := s.bounded_start hw
  have hconsistent := s.reachable.consistent
  obtain ⟨ho, hv⟩ := hconsistent.launch hl
  refine ⟨first, hl,
    fun scene hm => ⟨Moves.unharmed hm hshows hbounded hv hunharmed, fun v hv => ?_⟩,
    fun m m' hr hr' => ?_, fun deeds m conclusion next hp hconclude => ?_⟩
  · obtain ⟨r, hr, hbounded', -⟩ := Moves.relaxes_le hm hshows hbounded
    obtain ⟨hsame, hvalue⟩ := s.shows_graph hl hm hr
    have hbound : IsBound g.toTopology root v (distanceAt r.graph v) := hsame ▸ hbounded'.bound v
    refine ⟨_, hvalue v hv, hbound, hbound.isDistance hw, fun d hd hleast => ?_,
      fun later hlater => ?_⟩
    · rcases hbound with hinfinity | ⟨es, hwalk, hsum⟩
      · rw [hinfinity]
        exact Distance.le_infinity hd
      · rw [hsum]
        exact hleast es hwalk
    · obtain ⟨r', hr', -, hle⟩ := Moves.relaxes_le hlater hr hbounded'
      exact ⟨_, (s.shows_graph hl (hm.trans hlater) hr').2 v hv, hle v⟩
  · obtain ⟨p, hm, ho'⟩ := hr.moves ho
    obtain ⟨p', hm', -⟩ := hr'.moves ho'
    exact ⟨p, p', hm, hm'⟩
  · obtain ⟨p, hm, -⟩ := hp.reaches.moves ho
    have hunharmed' := Moves.unharmed hm hshows hbounded hv hunharmed
    refine ⟨?_, ?_⟩
    · rcases hconsistent.conclusion_of_unfailed ht hl hp hconclude hunharmed'.board with h | ⟨h, -⟩
      · exact .inl h
      · exact .inr h
    · cases Core.concludes_of_eq_some hconclude <;> rfl

/-- The core on which relaxations of both vertices of the lane are scheduled, for two workers. -/
def pairCore : Core Unit Float Float Unit where
  options := { engine := .threaded, ncpus := 2 }
  stage := .bound ((initDistances 0).run Solution.lane).2
  scheduler := (((Scheduler.empty .fifo .coalesce).schedule 0 () 1).1.schedule 1 () 1).1

theorem reachable_pairCore :
    pairCore.Reachable (relax : Behaviour Unit Float Float Unit Empty) :=
  .operation (.operation (.operation (.operation (.operation
    (.new (rfl : Core.withOptions pairCore.options = .ok _))
    (.setGraph Solution.lane
      (.operation (.operation .empty (.ensureVertices 2 0)) (.addEdge 0 1 1.5))))
    (.editGraph (.fill Distance.infinity))) (.editGraph (.setValue 0 Distance.zero)))
    (.schedule 0 () 1)) (.schedule 1 () 1)

theorem initialized_lane :
    (initDistances 0).run Solution.lane = (.ok (), ((initDistances 0).run Solution.lane).2) :=
  rfl

def pairSetup : Setup Unit Unit Empty 0 Solution.lane where
  behaviour := relax
  core := pairCore
  reachable := reachable_pairCore
  initial := ((initDistances 0).run Solution.lane).2
  initialized := initialized_lane
  held := rfl
  relaxes := fun _ _ => rfl

/-- Both workers have begun: the second one has read the value of its vertex. -/
def pairBegun : Threaded.Pool Unit Float Float Unit Empty :=
  (Threaded.Pool.start ((pairCore.boardOn ((initDistances 0).run Solution.lane).2).note
    (.loopStarted .threaded)) 2).interleave relax
      [.worker 0, .worker 0, .worker 1, .worker 1, .worker 1]

/-- An abort is requested, and the workers come to their ends. -/
def pairAborted : Threaded.Pool Unit Float Float Unit Empty :=
  let aborting := { pairBegun with board := { pairBegun.board with abort := true } }
  aborting.interleave relax
    (List.replicate 11 (.worker 0) ++ List.replicate 10 (.worker 1) ++ List.replicate 3 .pool)

set_option maxRecDepth 4000 in
/-- What the aborted run leaves are numbers, and none is above what was there before the abort. -/
theorem bounds_throughout_pair :
    (∀ e ∈ Solution.lane.edges, IsWeight e.data) ∧ pairCore.syncs.Total ∧
    ∃ next g', pairCore.conclude? (.threaded pairAborted) = some (.stopped .aborted, next) ∧
      next.heldGraph? = some g' ∧ ∀ v, Solution.lane.contains v = true → ∃ x y,
        g'.value v = .ok x ∧ x.isNaN = false ∧ pairBegun.board.graph.value v = .ok y ∧
        Distance.Le x y := by
  obtain ⟨first, hl, hmoments, hsteps, hend⟩ :=
    pairSetup.bounds_throughout Solution.isWeight_lane nofun
  obtain rfl := Except.ok.inj ((rfl : pairCore.launch = .ok _).symm.trans hl)
  have hbegun : Machine.Passes relax _ _ (.threaded pairBegun) := Machine.passes_interleave ..
  have haborted : Machine.Passes relax _ _ (.threaded pairAborted) := Machine.passes_interleave ..
  have hafter := (Machine.Passes.single (.abort (.threaded pairBegun))).trans haborted
  have hconclude : pairCore.conclude? (.threaded pairAborted) = some (.stopped .aborted, _) := rfl
  obtain ⟨p, p', hm, hm'⟩ := hsteps _ _ hbegun.reaches hafter.reaches
  obtain ⟨-, hheld⟩ := hend _ _ _ _ (hbegun.trans hafter) hconclude
  refine ⟨Solution.isWeight_lane, nofun, _, _, hconclude, hheld, fun v hv => ?_⟩
  obtain ⟨y, hy, -, -, -, hlater⟩ := (hmoments _ hm).2 v hv
  obtain ⟨x, hx, hle⟩ := hlater _ hm'
  exact ⟨x, y, hx, Binary64.isNaN_eq_false hle.left, hy, hle⟩

end Setup

end ShortestPath

end VertexEngine
