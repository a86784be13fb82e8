import VertexEngine.Proofs.Graph.Adjacency
import VertexEngine.Proofs.ShortestPath.Interrupted
import VertexEngine.Proofs.ShortestPath.Trail
import VertexEngine.Proofs.ShortestPath.Whole

/-!
# Shortest-path runs come to an end

The queue may grow with every relaxation, and a relaxation may change no value and yet ask for
others.  What makes the sequential engine stop all the same is that a vertex is asked for only if it
can be improved, and that it stays so until it is relaxed, as long as no other value falls.

So each turn either lowers a value, which can happen only so often, or leaves all values as they are
and takes one of the tasks out that lower nothing, without any new ones of these.

* `remaining` are the two numbers, and `Trailed.lex_relax` says that a relaxation makes them less.
* `Ongoing` is what the loop keeps, and `Ongoing.turn` is about one turn.
* `Ongoing.exists_end` follows by induction, and `Setup.terminates` is the result.
-/

namespace VertexEngine.ShortestPath

open Distance

variable {F W T O : Type} [Distance W]

/-! ## Requests -/

section

variable {value : VertexId → W} {update : F} {distance : W} {es : List (Edge W)}
  {p : PendingList F}

/-- Only vertices that get closer are asked for. -/
theorem countP_tried {P : VertexId → Bool} (hP : ∀ e ∈ es,
      lt (add distance e.data) (value e.target) = true → P e.target = false) :
    (tried value update distance es p).tasks.countP (fun t => P t.vertex) =
      p.tasks.countP fun t => P t.vertex := by
  induction es generalizing p with
  | nil => rfl
  | cons e rest ih =>
    obtain ⟨he, hrest⟩ := List.forall_mem_cons.mp hP
    rw [tried, List.foldl_cons, ← tried, ih hrest]
    split
    · rename_i hlt
      exact PendingList.countP_push (he hlt)
    · rfl

/-- Requests bring no vertex in but the targets, and no function but their own. -/
theorem forall_tried {Q : VertexId → Prop} {R : F → Prop} (hQ : ∀ e ∈ es, Q e.target)
    (hR : R update) (hp : ∀ t ∈ p.tasks, Q t.vertex ∧ R t.update) :
    ∀ t ∈ (tried value update distance es p).tasks, Q t.vertex ∧ R t.update := by
  induction es generalizing p with
  | nil => exact hp
  | cons e rest ih =>
    obtain ⟨he, hrest⟩ := List.forall_mem_cons.mp hQ
    rw [tried, List.foldl_cons, ← tried]
    refine ih hrest ?_
    split
    · intro t ht
      rcases PendingList.exists_of_mem_push ht with ⟨hv, hu⟩ | ⟨t', ht', hv, hu | hu⟩
      · exact ⟨hv ▸ he, hu ▸ hR⟩
      · exact ⟨hv ▸ (hp t' ht').1, hu ▸ hR⟩
      · exact ⟨hv ▸ (hp t' ht').1, hu ▸ (hp t' ht').2⟩
    · exact hp

end

theorem distanceAt_withValue {g : Graph W W} {v : VertexId} (hv : g.contains v = true) (x : W) :
    distanceAt (g.withValue v x) = Function.update (distanceAt g) v x := by
  funext u
  by_cases hu : u = v
  · rw [hu, distanceAt_withValue_self hv, Function.update_self]
  · rw [distanceAt_withValue_of_ne hu, Function.update_of_ne hu]

/-! ## Two numbers -/

/-- The number of pending tasks whose relaxation would lower nothing. -/
def idleTasks (t : Topology W) (value : VertexId → W) (p : PendingList F) : Nat :=
  p.tasks.countP fun u => !improvable t value u.vertex

/-- How far all values together can still fall, and the number of idle tasks. -/
def remaining (g : Graph W W) (p : PendingList F) : Nat × Nat :=
  (potential (walkSums g.toTopology g.vertexCount) g.vertexIds (distanceAt g),
    idleTasks g.toTopology (distanceAt g) p)

variable [LawfulDistance W] {t : Topology W} {root : VertexId}

/-- A relaxation keeps the trails. -/
theorem Trailed.relax {value : VertexId → W} (h : Trailed t root value) (hw : Weighted t)
    (hn : NonNegative t) (v : VertexId) :
    Trailed t root (Function.update value v (relaxed t value v)) := by
  have hd := h.isDistance hw
  rcases (relaxed_spec hd hw v).2.2 with hsame | ⟨e, he, rfl, hsum⟩
  · rw [hsame, Function.update_eq_self]
    exact h
  · cases hlt : improvable t value e.target with
    | false =>
      rw [relaxed_of_not_improvable hd hw hlt, Function.update_eq_self]
      exact h
    | true =>
      rw [improvable, hsum] at hlt
      rw [hsum]
      exact h.improve hw hn he hlt

/-- A relaxation lowers a value, or else an idle task is gone and none has come. -/
theorem Trailed.lex_relax {value : VertexId → W} (h : Trailed t root value) (hw : Weighted t)
    (hn : NonNegative t) {n : Nat} (hroot : root.toNat < n)
    (htarget : ∀ e ∈ t.edges, e.target.toNat < n) {p : PendingList F} {u : Task F}
    {rest : List (Task F)} (hp : p.tasks = u :: rest) {ids : List VertexId} (hu : u.vertex ∈ ids)
    {new : W} (hnew : relaxed t value u.vertex = new) {value' : VertexId → W}
    (hvalue' : value' = Function.update value u.vertex new) :
    Prod.Lex (· < ·) (· < ·)
      (potential (walkSums t n) ids value', idleTasks t value'
        (tried value' u.update new (outEdges t u.vertex) { p with tasks := rest }))
      (potential (walkSums t n) ids value, idleTasks t value p) := by
  have hd := h.isDistance hw
  subst hnew
  cases hlt : improvable t value u.vertex with
  | true =>
    subst hvalue'
    have hfalls := update_le hd (relaxed_spec hd hw u.vertex).1
    refine .left _ _ (h.potential_lt (h.relax hw hn u.vertex) hw hroot htarget hu hfalls ?_)
    rw [Function.update_self]
    exact hlt
  | false =>
    rw [relaxed_of_not_improvable hd hw hlt] at hvalue' ⊢
    rw [Function.update_eq_self] at hvalue'
    subst hvalue'
    refine .right _ ?_
    -- The edges that are tried with success lead to vertices that can be improved.
    have hcount : idleTasks t value' (tried value' u.update (value' u.vertex)
        (outEdges t u.vertex) { p with tasks := rest }) =
          rest.countP fun u => !improvable t value' u.vertex := by
      refine countP_tried (P := fun v => !improvable t value' v) fun e he hcloser => ?_
      obtain ⟨hedge, hsource⟩ := mem_outEdges.mp he
      rw [← hsource] at hcloser
      rw [improvable_of_lt hd hw hedge hcloser]
      rfl
    rw [hcount, idleTasks, hp, List.countP_cons_of_pos (by simp [hlt])]
    exact Nat.lt_succ_self _

/-! ## The loop -/

/-- What the sequential loop keeps in a run of relaxations. -/
structure Ongoing (behaviour : Behaviour F W W T O) (root : VertexId) (b : Board F W W T O)
    (p : PendingList F) : Prop where
  abort : b.abort = false
  syncs : b.syncs.Total
  graph : b.graph.WellFormed
  rooted : b.graph.contains root = true
  weighted : Weighted b.graph.toTopology
  nonNegative : NonNegative b.graph.toTopology
  trailed : Trailed b.graph.toTopology root (distanceAt b.graph)
  queue : Represents b.scheduler.queue p
  tasks : ∀ t ∈ p.tasks, b.graph.contains t.vertex = true ∧ behaviour t.update = relax t.update

namespace Ongoing

variable {behaviour : Behaviour F W W T O} {b : Board F W W T O} {p : PendingList F}

/-- A turn lowers a value, or else it takes out a task that lowers nothing and brings none in. -/
theorem turn (h : Ongoing behaviour root b p) {u : Task F} {rest : List (Task F)}
    (hp : p.tasks = u :: rest) : ∃ b' p', Sequential.turn behaviour b = (b', .running) ∧
      Ongoing behaviour root b' p' ∧
      Prod.Lex (· < ·) (· < ·) (remaining b'.graph p') (remaining b.graph p) := by
  obtain ⟨⟨hu, hrelax⟩, hrest⟩ := List.forall_mem_cons.mp (hp ▸ h.tasks)
  obtain ⟨new, hnew⟩ : ∃ new, relaxed b.graph.toTopology (distanceAt b.graph) u.vertex = new :=
    ⟨_, rfl⟩
  obtain ⟨b', hturn, habort, hsyncs, hgraph, hqueue⟩ :=
    Sequential.turn_relax h.abort h.syncs h.graph h.queue hp hu hrelax hnew
  have htopology : b'.graph.toTopology = b.graph.toTopology := by rw [hgraph]; rfl
  have hsize : b'.graph.values.size = b.graph.values.size := by
    rw [hgraph]
    exact Array.size_setIfInBounds
  have hcontains : b'.graph.contains = b.graph.contains := Graph.contains_congr hsize
  have hvalues : distanceAt b'.graph = Function.update (distanceAt b.graph) u.vertex new := by
    rw [hgraph, distanceAt_withValue hu]
  refine ⟨b', _, hturn, ⟨habort, hsyncs, h.graph.of_topology htopology hsize, hcontains ▸ h.rooted,
    htopology ▸ h.weighted, htopology ▸ h.nonNegative, ?_, hqueue, ?_⟩, ?_⟩
  · rw [htopology, hvalues, ← hnew]
    exact h.trailed.relax h.weighted h.nonNegative u.vertex
  · rw [hcontains]
    refine forall_tried (Q := (b.graph.contains · = true)) (R := fun f => behaviour f = relax f)
      (fun e he => ?_) hrelax hrest
    exact h.graph.contains_target (mem_outEdges.mp he).1
  · have hids : b'.graph.vertexIds = b.graph.vertexIds := by
      rw [Graph.vertexIds, hsize]
      rfl
    rw [remaining, htopology, hids, Graph.vertexCount, hsize]
    exact h.trailed.lex_relax h.weighted h.nonNegative (of_decide_eq_true h.rooted)
      h.graph.target_lt hp (Graph.mem_vertexIds hu) hnew hvalues

/-- The loop comes to an end, and ends well. -/
theorem exists_end {b : Board F W W T O} {p : PendingList F} (h : Ongoing behaviour root b p) :
    ∃ steps last, (Machine.sequential b .running).advanceBy behaviour steps =
      .sequential last (.ended (.ok ())) := by
  -- The induction is on what remains before the turn.
  cases hp : p.tasks with
  | nil =>
    have hturn : (Sequential.turn behaviour b).2 = .ended (.ok ()) :=
      Sequential.turn_drained h.abort h.queue hp
    refine ⟨1, (Sequential.turn behaviour b).1, ?_⟩
    rw [← hturn]
    rfl
  | cons u rest =>
    obtain ⟨b', p', hturn, h', hless⟩ := h.turn hp
    obtain ⟨steps, last, hlast⟩ := h'.exists_end
    refine ⟨steps + 1, last, ?_⟩
    rw [← hlast, Machine.advanceBy, Machine.status, Machine.advance, hturn]
termination_by remaining b.graph p
decreasing_by exact hless

end Ongoing

/-! ## Runs -/

/-- The first distances are sums of trails. -/
theorem trailed_of_initDistances {g g' : Graph W W}
    (h : (initDistances root).run g = (.ok (), g')) :
    Trailed g'.toTopology root (distanceAt g') := by
  obtain ⟨-, -, -, hroot, hother⟩ := initDistances_ok h
  intro v
  by_cases hv : v = root
  · subst hv
    refine .inr ⟨[], ⟨.stay, List.nodup_singleton _, fun {u front back} hes hfront => ?_⟩, hroot⟩
    obtain ⟨rfl, -⟩ := List.append_eq_nil_iff.mp hes.symm
    rw [hfront.eq_root, hroot]
    exact .refl LawfulDistance.isDistance_zero
  · exact .inl (hother v hv)

namespace Setup

variable {g : Graph W W} (s : Setup F T O root g)

/-- A sequential run starts with its pending tasks, and with none taken. -/
theorem exists_ongoing (hw : Weighted g.toTopology) (hn : NonNegative g.toTopology)
    (he : s.core.options.engine = .sequential) (ha : s.core.abort = false)
    (ht : s.core.syncs.Total) : ∃ b, s.core.launch = .ok (.sequential b .running) ∧ b.tasks = [] ∧
      Ongoing s.behaviour root b s.pending := by
  obtain ⟨c, -, htotal, hlaunch⟩ :=
    Core.launch_of_total (O := O) (Core.stage_of_heldGraph s.held) ht
  have hl : s.core.launch = .ok (.sequential (c.note (.loopStarted .sequential)) .running) := by
    refine (hlaunch s.core.options).trans ?_
    unfold Machine.start
    rw [he]
  have hconsistent := s.reachable.consistent
  obtain ⟨p, hp⟩ := hconsistent.tracks
  obtain ⟨g', hg', -, -, hquiet, -⟩ := Core.launch_eq_ok hl hconsistent.toSound hp
  obtain rfl : s.initial = g' := Option.some.inj (s.held.symm.trans hg')
  have hgraph : (c.note (.loopStarted .sequential)).graph = s.initial := hquiet.graph
  have htasks : (c.note (.loopStarted .sequential)).tasks = [] := hquiet.tasks
  obtain ⟨ho, hv⟩ := hconsistent.launch hl
  obtain ⟨htopology, hsize, hroot, -⟩ := initDistances_ok s.initialized
  refine ⟨_, hl, htasks, ⟨Core.launch_unaborted ha hl, htotal, ?_, ?_, ?_, ?_, ?_, ho.tracks.queue,
    fun t ht => ⟨hv.pending t ht, s.relaxes t ht⟩⟩⟩
  · rw [hgraph]
    exact hconsistent.graph _ s.held
  · rw [hgraph, Graph.contains_congr hsize]
    exact hroot
  · rw [hgraph, htopology]
    exact hw
  · rw [hgraph, htopology]
    exact hn
  · rw [hgraph]
    exact trailed_of_initDistances s.initialized

/-- A sequential run of relaxations, with whatever tasks it starts and whichever scheduler and
policy it has, takes only so many tasks and converges, if nobody requests an abort and no sync
panics: from wherever it has come to it goes on to its end.  Of addition nothing is used but that it
keeps the order on the left and stays at infinity, and that no weight lowers a distance. -/
theorem terminates (hw : ∀ e ∈ g.edges, IsWeight e.data) (hn : NonNegative g.toTopology)
    (he : s.core.options.engine = .sequential) (ha : s.core.abort = false)
    (ht : s.core.syncs.Total) :
    ∃ (first : Machine F W W T O) (steps : Nat) (report : RunReport) (next : Core F W W T),
      s.core.launch = .ok first ∧
      s.core.conclude? (first.advanceBy s.behaviour steps) = some (.converged report, next) ∧
      ∀ m, first.WorksTo s.behaviour m →
        m.WorksTo s.behaviour (first.advanceBy s.behaviour steps) ∧
          m.board.tasks.length ≤ steps := by
  obtain ⟨b, hl, htasks, hongoing⟩ := s.exists_ongoing hw hn he ha ht
  obtain ⟨steps, last, hlast⟩ := hongoing.exists_end
  refine ⟨_, steps, s.core.report last, s.core.afterRun last (.ok ()), hl, ?_, fun m hm => ?_⟩
  · rw [hlast]
    rfl
  · have hended :
        ((Machine.sequential b .running).advanceBy s.behaviour steps).status ≠ .running := by
      rw [hlast]
      exact nofun
    obtain ⟨hworks, hle⟩ := hm.of_advanceBy hended
    rw [htasks, List.length_nil, Nat.zero_add] at hle
    exact ⟨hworks, hle⟩

/-- Two vertices on a cycle without length, and an edge from one of them to itself. -/
def ring : Graph Float Float :=
  ((Graph.Operation.addEdge 0 0 0.0).edit.run ((Graph.Operation.addEdge 1 0 0.0).edit.run
    ((Graph.Operation.addEdge 0 1 1.5).edit.run
      ((Graph.Operation.ensureVertices 2 0).edit.run {}).2).2).2).2

theorem weights_ring : ∀ e ∈ ring.edges, IsWeight e.data ∧ 0.0 ≤ e.data := by
  intro e he
  have hedges : e ∈ [(⟨0, 1, 1.5⟩ : Edge Float), ⟨1, 0, 0.0⟩, ⟨0, 0, 0.0⟩] :=
    Array.mem_toList_iff.mpr he
  fin_cases hedges
  · exact ⟨rfl, by decide⟩
  · exact ⟨rfl, by decide⟩
  · exact ⟨rfl, by decide⟩

/-- The core on which two relaxations of vertex 0 are scheduled, which are not merged. -/
def ringCore : Core Unit Float Float Unit where
  options := { engine := .sequential, ncpus := 1, policy := .multiset }
  stage := .bound ((initDistances 0).run ring).2
  scheduler := (((Scheduler.empty .fifo .multiset).schedule 0 () 1).1.schedule 0 () 1).1

theorem reachable_ringCore :
    ringCore.Reachable (relax : Behaviour Unit Float Float Unit Empty) :=
  .operation (.operation (.operation (.operation (.operation
    (.new (rfl : Core.withOptions ringCore.options = .ok _))
    (.setGraph ring (.operation (.operation (.operation (.operation .empty (.ensureVertices 2 0))
      (.addEdge 0 1 1.5)) (.addEdge 1 0 0.0)) (.addEdge 0 0 0.0))))
    (.editGraph (.fill Distance.infinity))) (.editGraph (.setValue 0 Distance.zero)))
    (.schedule 0 () 1)) (.schedule 0 () 1)

def ringSetup : Setup Unit Unit Empty 0 ring where
  behaviour := relax
  core := ringCore
  reachable := reachable_ringCore
  initial := ((initDistances 0).run ring).2
  initialized := rfl
  held := rfl
  relaxes := fun _ _ => rfl

def ringStart : Machine Unit Float Float Unit Empty :=
  .start ringCore.options (ringCore.boardOn ((initDistances 0).run ring).2)

def ringEnd : Machine Unit Float Float Unit Empty :=
  ringStart.advanceBy relax 5

set_option maxRecDepth 4000 in
/-- Both relaxations of vertex 0 ask for one of vertex 1, and the second of these changes nothing
either; then the run is over. -/
theorem terminates_ring : (∀ e ∈ ring.edges, IsWeight e.data) ∧ NonNegative ring.toTopology ∧
    ringCore.options.engine = .sequential ∧ ringCore.abort = false ∧ ringCore.syncs.Total ∧
    ∃ steps report next, ringCore.launch = .ok ringStart ∧
      ringCore.conclude? (ringStart.advanceBy relax steps) = some (.converged report, next) ∧
      report.updates = 4 ∧ 4 ≤ steps := by
  have hw : ∀ e ∈ ring.edges, IsWeight e.data := fun e he => (weights_ring e he).1
  have hn : NonNegative ring.toTopology :=
    nonNegative_of_weights hw fun e he => (weights_ring e he).2
  obtain ⟨first, steps, report, next, hl, hconclude, hruns⟩ :=
    ringSetup.terminates hw hn rfl rfl nofun
  obtain rfl : ringStart = first := Except.ok.inj ((rfl : ringCore.launch = .ok _).symm.trans hl)
  obtain ⟨hworks, hle⟩ := hruns ringEnd (Machine.worksTo_advanceBy relax 5 ringStart)
  refine ⟨hw, hn, rfl, rfl, nofun, steps, report, next, rfl, hconclude, ?_, hle⟩
  rcases hworks.cases_head with hsame | ⟨c, hc, -⟩
  · have hend : ringCore.conclude? ringEnd =
        some (.converged (ringCore.report ringEnd.board), _) := rfl
    have hconclude' : ringCore.conclude? ringEnd = _ := hsame ▸ hconclude
    cases hend.symm.trans hconclude'
    rfl
  · cases (rfl : ringEnd.status = .ended (.ok ())).symm.trans hc.running

end Setup

end VertexEngine.ShortestPath
