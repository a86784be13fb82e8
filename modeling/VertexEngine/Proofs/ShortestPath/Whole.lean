import VertexEngine.Proofs.Run.Undisturbed
import VertexEngine.Proofs.ShortestPath.Relaxation

/-!
# A relaxation as a whole

The sequential engine lets every task run to its end, so a relaxation sees one graph and nobody
disturbs it.  What it does can then be said at once: it gives its vertex the best value that its
neighbours offer, and asks for an update of each neighbour that the new value makes closer.

* `relaxed` is the value that a relaxation gives to its vertex, and `relaxed_spec` says which one
  that is.
* `improvable` says whether it differs from the one that the vertex has.
* `execute_relax` is the effect of a relaxation on a board, and `Sequential.turn_relax` that of a
  turn of the loop.
-/

namespace VertexEngine

namespace ShortestPath

open Distance

variable {F W T O : Type} [Distance W]

/-! ## Values -/

/-- The best of a distance and of the ways through the given edges. -/
def pulled (value : VertexId → W) (best : W) (es : List (Edge W)) : W :=
  es.foldl (fun best e => min best (add (value e.source) e.data)) best

/-- The value that a relaxation of the vertex gives to it. -/
def relaxed (t : Topology W) (value : VertexId → W) (v : VertexId) : W :=
  pulled value (value v) (inEdges t v)

/-- Whether a relaxation of the vertex would lower its value. -/
def improvable (t : Topology W) (value : VertexId → W) (v : VertexId) : Bool :=
  lt (relaxed t value v) (value v)

section

variable [LawfulDistance W] {t : Topology W} {value : VertexId → W}

theorem pulled_spec (hd : ∀ u, IsDistance (value u)) {es : List (Edge W)}
    (hw : ∀ e ∈ es, IsWeight e.data) {best : W} (hb : IsDistance best) :
    Le (pulled value best es) best ∧
      (∀ e ∈ es, Le (pulled value best es) (add (value e.source) e.data)) ∧
      (pulled value best es = best ∨
        ∃ e ∈ es, pulled value best es = add (value e.source) e.data) := by
  induction es generalizing best with
  | nil => exact ⟨.refl hb, by simp, .inl rfl⟩
  | cons e rest ih =>
    have hthrough : IsDistance (add (value e.source) e.data) :=
      LawfulDistance.isDistance_add (hd e.source) (hw e List.mem_cons_self)
    have hleft := min_le_left hb hthrough
    have hright := min_le_right hb hthrough
    obtain ⟨hle, hall, hcases⟩ := ih (fun e' he' => hw e' (List.mem_cons_of_mem _ he')) hleft.left
    refine ⟨hle.trans hleft, fun e' he' => ?_, ?_⟩
    · rcases List.mem_cons.mp he' with rfl | hrest
      · exact hle.trans hright
      · exact hall e' hrest
    · rcases hcases with hbest | ⟨e', he', hsum⟩
      · rcases min_cases hb hthrough with ⟨hmin, -⟩ | ⟨hmin, -⟩
        · exact .inl (hbest.trans hmin)
        · exact .inr ⟨e, List.mem_cons_self, hbest.trans hmin⟩
      · exact .inr ⟨e', List.mem_cons_of_mem _ he', hsum⟩

/-- It is the least of what the vertex has and of what the edges into it offer. -/
theorem relaxed_spec (hd : ∀ u, IsDistance (value u)) (hw : Weighted t) (v : VertexId) :
    Le (relaxed t value v) (value v) ∧
      (∀ e ∈ t.edges, e.target = v → Le (relaxed t value v) (add (value e.source) e.data)) ∧
      (relaxed t value v = value v ∨
        ∃ e ∈ t.edges, e.target = v ∧ relaxed t value v = add (value e.source) e.data) := by
  have hin : ∀ e ∈ inEdges t v, IsWeight e.data := fun e he => hw e (mem_inEdges.mp he).1
  obtain ⟨hle, hall, hcases⟩ := pulled_spec hd hin (hd v)
  refine ⟨hle, fun e he htarget => hall e (mem_inEdges.mpr ⟨he, htarget⟩), hcases.imp id ?_⟩
  rintro ⟨e, he, hsum⟩
  exact ⟨e, (mem_inEdges.mp he).1, (mem_inEdges.mp he).2, hsum⟩

theorem relaxed_of_not_improvable (hd : ∀ u, IsDistance (value u)) (hw : Weighted t) {v : VertexId}
    (h : improvable t value v = false) : relaxed t value v = value v := by
  have hle := (relaxed_spec hd hw v).1
  exact hle.antisymm ⟨hle.right, hle.left, h⟩

/-- The target of an edge that makes it closer is improvable. -/
theorem improvable_of_lt (hd : ∀ u, IsDistance (value u)) (hw : Weighted t) {e : Edge W}
    (he : e ∈ t.edges) (h : lt (add (value e.source) e.data) (value e.target) = true) :
    improvable t value e.target = true :=
  lt_of_le_of_lt ((relaxed_spec hd hw e.target).2.1 e he rfl) h (hd e.target)

end

/-! ## Boards -/

/-- The pending tasks after these edges were tried from a vertex at this distance. -/
def tried (value : VertexId → W) (update : F) (distance : W) (es : List (Edge W))
    (p : PendingList F) : PendingList F :=
  es.foldl (fun p e =>
    if lt (add distance e.data) (value e.target) then
      (p.push e.target update Priority.default).1
    else p) p

section

variable {b : Board F W W T O} {x : Execution F} {p : PendingList F} {t : Topology W}
  {rest : List (Edge W)}

/-- The edges into the vertex are followed, and the best distance is written. -/
theorem run_pulling (hrest : ∀ e ∈ rest, b.graph.contains e.source = true) (best : W) {d : W}
    (hd : pulled (distanceAt b.graph) best rest = d) :
    b.run x ((Progress.pulling best rest).program x.task.update t x.task.vertex) =
      Board.run { b with graph := b.graph.withValue x.task.vertex d } x
        ((Progress.pushing d (outEdges t x.task.vertex)).program x.task.update t
          x.task.vertex) := by
  induction rest generalizing best with
  | nil =>
    obtain ⟨next, hprogram, hnext⟩ := program_pulling_nil (F := F) (T := T) (O := O) x.task.update
      x.task.vertex best t
    subst hd
    rw [hprogram, pulled, List.foldl_nil, ← hnext]
    rfl
  | cons e rest ih =>
    obtain ⟨next, hprogram, hnext⟩ := program_pulling_cons (F := F) (T := T) (O := O) x.task.update
      x.task.vertex best e rest t
    rw [hprogram, Board.run]
    simp only [Board.perform]
    rw [value_eq_ok (hrest e List.mem_cons_self), hnext]
    exact ih (fun e' he' => hrest e' (List.mem_cons_of_mem _ he')) _ hd

/-- The edges out of the vertex are tried. -/
theorem run_pushing (hrest : ∀ e ∈ rest, b.graph.contains e.target = true) (distance : W)
    (hq : Represents b.scheduler.queue p) :
    ∃ b', b.run x ((Progress.pushing distance rest).program x.task.update t x.task.vertex) =
        (.finished, b') ∧
      Represents b'.scheduler.queue (tried (distanceAt b.graph) x.task.update distance rest p) ∧
      b'.graph = b.graph ∧ b'.abort = b.abort ∧ b'.syncs = b.syncs := by
  induction rest generalizing b x p with
  | nil => exact ⟨b.note (.updated x.task.vertex), rfl, hq, rfl, rfl, rfl⟩
  | cons e rest ih =>
    obtain ⟨next, hprogram, hnext⟩ := program_pushing_cons (F := F) (T := T) (O := O) x.task.update
      x.task.vertex distance e rest t
    obtain ⟨htarget, hrest⟩ := List.forall_mem_cons.mp hrest
    rw [hprogram, Board.run]
    simp only [Board.perform]
    rw [value_eq_ok htarget, hnext, tried, List.foldl_cons]
    cases lt (add distance e.data) (distanceAt b.graph e.target) with
    | false => exact ih hrest hq
    | true =>
      obtain ⟨next', hprogram', hnext'⟩ := program_asking (F := F) (T := T) (O := O) x.task.update
        x.task.vertex distance e rest t
      have hcheck : b.checkRequest e.target Priority.default = .ok () := by
        rw [Board.checkRequest, Graph.check, if_pos htarget]
        rfl
      rw [if_pos rfl, if_pos rfl, hprogram', Board.run]
      simp only [Board.perform, hcheck]
      rw [hnext']
      exact ih (b := (b.note (.requested x.task.vertex e.target)).schedule e.target x.task.update
        Priority.default) (x := { x with scheduled := x.scheduled + 1 }) hrest
        (hq.push e.target x.task.update Priority.default).2

/-- A relaxation gives its vertex the relaxed value, and asks for an update of every vertex that
this makes closer. -/
theorem execute_relax {behaviour : Behaviour F W W T O} (hg : b.graph.WellFormed) {u : Task F}
    (hv : b.graph.contains u.vertex = true) (hu : behaviour u.update = relax u.update)
    (hq : Represents b.scheduler.queue p) {d : W}
    (hd : relaxed b.graph.toTopology (distanceAt b.graph) u.vertex = d) :
    ∃ b', b.execute behaviour u = (.finished, b') ∧
      Represents b'.scheduler.queue
        (tried (distanceAt b'.graph) u.update d (outEdges b.graph.toTopology u.vertex) p) ∧
      b'.graph = b.graph.withValue u.vertex d ∧ b'.abort = b.abort ∧ b'.syncs = b.syncs := by
  have hsource : ∀ e ∈ inEdges b.graph.toTopology u.vertex, b.graph.contains e.source = true :=
    fun e he => hg.contains_source (mem_inEdges.mp he).1
  have htarget : ∀ e ∈ outEdges b.graph.toTopology u.vertex,
      (b.graph.withValue u.vertex d).contains e.target = true := by
    intro e he
    rw [Graph.contains_withValue]
    exact hg.contains_target (mem_outEdges.mp he).1
  obtain ⟨next, hprogram, hnext⟩ := program_fresh (T := T) (O := O) u.update u.vertex hg hv
  obtain ⟨b', hrun, hq', hgraph, habort, hsyncs⟩ := run_pushing (x := ⟨u, 0⟩)
    (b := { b with graph := b.graph.withValue u.vertex d }) (t := b.graph.toTopology) htarget d hq
  refine ⟨b', ?_, by rw [hgraph]; exact hq', hgraph, habort, hsyncs⟩
  calc b.execute behaviour u
      = b.run ⟨u, 0⟩ (Progress.fresh.program u.update b.graph.toTopology u.vertex) := by
        rw [Board.execute, Board.load_eq_ok hv, hu]
        rfl
    _ = b.run ⟨u, 0⟩ ((Progress.pulling (distanceAt b.graph u.vertex)
          (inEdges b.graph.toTopology u.vertex)).program u.update b.graph.toTopology u.vertex) := by
        rw [hprogram, Board.run]
        simp only [Board.perform]
        rw [value_eq_ok hv, hnext]
    _ = _ := run_pulling (x := ⟨u, 0⟩) hsource _ hd
    _ = (.finished, b') := hrun

end

end ShortestPath

open ShortestPath

/-! ## Turns -/

section

variable {F W T O : Type} [Distance W] {behaviour : Behaviour F W W T O} {b : Board F W W T O}
  {p : PendingList F}

omit [Distance W] in
/-- A turn that finds nothing to do ends the run well. -/
theorem Sequential.turn_drained (ha : b.abort = false) (hq : Represents b.scheduler.queue p)
    (hp : p.tasks = []) : (turn behaviour b).2 = .ended (.ok ()) := by
  obtain ⟨hfound, -⟩ := Scheduler.next_of_represents hq
  rw [hp, List.head?_nil] at hfound
  rw [turn, if_neg (ne_true_of_eq_false ha), ← Prod.eta b.scheduler.next, hfound]

/-- A turn of a run of relaxations relaxes the vertex of the first task, and the run goes on. -/
theorem Sequential.turn_relax (ha : b.abort = false) (hs : b.syncs.Total)
    (hg : b.graph.WellFormed) (hq : Represents b.scheduler.queue p) {u : Task F}
    {rest : List (Task F)} (hp : p.tasks = u :: rest) (hv : b.graph.contains u.vertex = true)
    (hu : behaviour u.update = relax u.update) {d : W}
    (hd : relaxed b.graph.toTopology (distanceAt b.graph) u.vertex = d) :
    ∃ b', turn behaviour b = (b', .running) ∧ b'.abort = false ∧ b'.syncs.Total ∧
      b'.graph = b.graph.withValue u.vertex d ∧
      Represents b'.scheduler.queue (tried (distanceAt b'.graph) u.update d
        (outEdges b.graph.toTopology u.vertex) { p with tasks := rest }) := by
  obtain ⟨hfound, hrest⟩ := Scheduler.next_of_represents hq
  rw [hp, List.head?_cons] at hfound
  rw [hp, List.tail_cons] at hrest
  obtain ⟨b', hexecute, hq', hgraph, habort, hsyncs⟩ := execute_relax
    (b := { b with scheduler := b.scheduler.next.2 }.note (.dispatched u)) hg hv hu hrest hd
  have hturn : turn behaviour b = settle b' u.vertex .finished := by
    rw [turn, if_neg (ne_true_of_eq_false ha), ← Prod.eta b.scheduler.next, hfound]
    simp only [hexecute]
  obtain ⟨c, hsettle, hquiet, hscheduler, htotal⟩ :=
    Sequential.settle_of_total (b := b') (hsyncs ▸ hs) u.vertex
  have hgraph' : c.graph = b'.graph := hquiet.graph
  have habort' : c.abort = b'.abort := by
    rw [← abort_settle b' u.vertex .finished, hsettle]
  refine ⟨c, hturn.trans hsettle, habort'.trans (habort.trans ha), htotal, hgraph'.trans hgraph, ?_⟩
  rw [hscheduler, hgraph']
  exact hq'

end

end VertexEngine
