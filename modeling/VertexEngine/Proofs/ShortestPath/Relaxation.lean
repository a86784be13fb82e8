import VertexEngine.Proofs.Queue.Request
import VertexEngine.Proofs.Run.Scene
import VertexEngine.Proofs.ShortestPath.Walk

/-!
# Relaxations in progress

A run whose tasks all relax is seen here without programs, workers and events.  A `Relaxation` has
the values, the pending tasks, and for every task that a worker runs its `Progress`: which edges are
still to be looked at, and what was found so far.

* `Progress.program` is what is left of the program, and the lemmas after it say what it asks next.
* `Relaxation.Step` is everything that one visible step can do.
* `ask_step` says that no question of the program does anything else.
-/

namespace VertexEngine

namespace ShortestPath

open Distance

variable {F W T O : Type} [Distance W]

/-! ## Progress -/

/-- The edges that enter a vertex. -/
def inEdges (t : Topology W) (v : VertexId) : List (Edge W) :=
  t.edges.toList.filter fun e => e.target == v

/-- The edges that leave a vertex. -/
def outEdges (t : Topology W) (v : VertexId) : List (Edge W) :=
  t.edges.toList.filter fun e => e.source == v

omit [Distance W] in
theorem mem_inEdges {t : Topology W} {v : VertexId} {e : Edge W} :
    e ∈ inEdges t v ↔ e ∈ t.edges ∧ e.target = v := by
  simp [inEdges]

omit [Distance W] in
theorem mem_outEdges {t : Topology W} {v : VertexId} {e : Edge W} :
    e ∈ outEdges t v ↔ e ∈ t.edges ∧ e.source = v := by
  simp [outEdges]

/-- How far the relaxation of a vertex has come. -/
inductive Progress (W : Type) where
  /-- Nothing was read yet. -/
  | fresh
  /-- The best distance so far, and the edges into the vertex that are still to be followed. -/
  | pulling (best : W) (rest : List (Edge W))
  /-- The distance that was written, and the edges out of the vertex that are still to be tried. -/
  | pushing (distance : W) (rest : List (Edge W))
  /-- The target of this edge gets closer, and an update of it is still to be asked for. -/
  | asking (distance : W) (e : Edge W) (rest : List (Edge W))

/-- What is left of the program. -/
def Progress.program (update : F) (t : Topology W) (v : VertexId) :
    Progress W → Program F W T O Unit
  | fresh => relax update t v
  | pulling best rest => do
    let distance ← pull best rest
    Program.write distance
    push update distance (outEdges t v)
  | pushing distance rest => push update distance rest
  | asking distance e rest => do
    Program.schedule e.target update Priority.default
    push update distance rest

section

variable (update : F) (v : VertexId) (best distance : W) (e : Edge W) (rest : List (Edge W))

theorem program_fresh {g : Graph W W} (hg : g.WellFormed) (hv : g.contains v = true) :
    ∃ next, (Progress.fresh.program update g.toTopology v : Program F W T O Unit) =
      .ask (.read v) next ∧ ∀ x, next (.ok x) =
        (Progress.pulling x (inEdges g.toTopology v)).program update g.toTopology v := by
  obtain ⟨incoming, hin, hins⟩ := hg.incomingEdges hv
  obtain ⟨outgoing, hout, houts⟩ := hg.outgoingEdges hv
  refine ⟨_, rfl, fun x => ?_⟩
  show (do
    let incoming ← Program.ofExcept (g.toTopology.incomingEdges v)
    let distance ← pull x incoming.toList
    Program.write distance
    let outgoing ← Program.ofExcept (g.toTopology.outgoingEdges v)
    push update distance outgoing.toList : Program F W T O Unit) = _
  rw [hin, hout, Progress.program, inEdges, outEdges, ← hins, ← houts]
  rfl

theorem program_pulling_cons (t : Topology W) :
    ∃ next, ((Progress.pulling best (e :: rest)).program update t v : Program F W T O Unit) =
      .ask (.read e.source) next ∧ ∀ x, next (.ok x) =
        (Progress.pulling (min best (add x e.data)) rest).program update t v :=
  ⟨_, rfl, fun _ => rfl⟩

theorem program_pulling_nil (t : Topology W) :
    ∃ next, ((Progress.pulling best []).program update t v : Program F W T O Unit) =
      .ask (.write best) next ∧ next () =
        (Progress.pushing best (outEdges t v)).program update t v :=
  ⟨_, rfl, rfl⟩

theorem program_pushing_cons (t : Topology W) :
    ∃ next, ((Progress.pushing distance (e :: rest)).program update t v : Program F W T O Unit) =
      .ask (.read e.target) next ∧ ∀ x, next (.ok x) =
        (if lt (add distance e.data) x then Progress.asking distance e rest
          else .pushing distance rest).program update t v := by
  refine ⟨_, rfl, fun x => ?_⟩
  show (do
    if lt (add distance e.data) x then
      Program.schedule e.target update Priority.default
    push update distance rest : Program F W T O Unit) = _
  cases lt (add distance e.data) x with
  | true => rfl
  | false => rfl

theorem program_asking (t : Topology W) :
    ∃ next, ((Progress.asking distance e rest).program update t v : Program F W T O Unit) =
      .ask (.schedule e.target update Priority.default) next ∧ next (.ok ()) =
        (Progress.pushing distance rest).program update t v :=
  ⟨_, rfl, rfl⟩

end

/-- The edges that are still to be looked at. -/
def Progress.edges : Progress W → List (Edge W)
  | fresh => []
  | pulling _ rest => rest
  | pushing _ rest => rest
  | asking _ e rest => e :: rest

/-! ## Steps -/

/-- A task that a worker runs. -/
structure Job (F W : Type) where
  task : Task F
  progress : Progress W

/-- What matters of a run whose tasks all relax. -/
structure Relaxation (F W : Type) where
  graph : Graph W W
  pending : PendingList F
  jobs : List (Job F W)

/-- The value of a vertex; infinity for a number that is no vertex. -/
def distanceAt (g : Graph W W) (v : VertexId) : W :=
  (g.values[v.toNat]?).getD infinity

theorem value_eq_ok {g : Graph W W} {v : VertexId} (hv : g.contains v = true) :
    g.value v = .ok (distanceAt g v) := by
  have hlt : v.toNat < g.values.size := by simpa [Graph.contains] using hv
  rw [Graph.value, distanceAt, Array.getElem?_eq_getElem hlt]
  rfl

theorem distanceAt_withValue_self {g : Graph W W} {v : VertexId} (hv : g.contains v = true)
    {x : W} : distanceAt (g.withValue v x) v = x := by
  have hlt : v.toNat < g.values.size := by simpa [Graph.contains] using hv
  simp [distanceAt, Graph.withValue, hlt]

theorem distanceAt_withValue_of_ne {g : Graph W W} {v w : VertexId} (h : w ≠ v) {x : W} :
    distanceAt (g.withValue v x) w = distanceAt g w := by
  have hne : v.toNat ≠ w.toNat := fun heq => h (UInt32.toNat_inj.mp heq.symm)
  rw [distanceAt, Graph.withValue, Array.getElem?_setIfInBounds_ne hne]
  rfl

namespace Relaxation

/-- What one visible step can do. -/
inductive Step : Relaxation F W → Relaxation F W → Prop
  | idle (r : Relaxation F W) : Step r r
  /-- A worker gets a task. -/
  | take {g : Graph W W} {p : PendingList F} {before after : List (Job F W)}
    {held : List VertexId} {t : Task F} (ht : Scheduler.firstFree held p = some t)
    (hv : g.contains t.vertex = true)
    (hfree : t.vertex ∉ (before ++ after).map (·.task.vertex)) :
    Step ⟨g, p, before ++ after⟩
      ⟨g, Scheduler.withoutFirstFree held p, before ++ ⟨t, .fresh⟩ :: after⟩
  /-- A task whose vertex does not exist comes to nothing. -/
  | drop {g : Graph W W} {p : PendingList F} {jobs : List (Job F W)}
    {held : List VertexId} {t : Task F} (ht : Scheduler.firstFree held p = some t)
    (hv : g.contains t.vertex = false) :
    Step ⟨g, p, jobs⟩ ⟨g, Scheduler.withoutFirstFree held p, jobs⟩
  | start (g : Graph W W) (p : PendingList F) (before after : List (Job F W)) (t : Task F) :
    Step ⟨g, p, before ++ ⟨t, .fresh⟩ :: after⟩
      ⟨g, p, before ++
        ⟨t, .pulling (distanceAt g t.vertex) (inEdges g.toTopology t.vertex)⟩ :: after⟩
  | pull (g : Graph W W) (p : PendingList F) (before after : List (Job F W)) (t : Task F)
    (best : W) (e : Edge W) (rest : List (Edge W)) :
    Step ⟨g, p, before ++ ⟨t, .pulling best (e :: rest)⟩ :: after⟩
      ⟨g, p, before ++
        ⟨t, .pulling (min best (add (distanceAt g e.source) e.data)) rest⟩ :: after⟩
  | write (g : Graph W W) (p : PendingList F) (before after : List (Job F W)) (t : Task F)
    (best : W) :
    Step ⟨g, p, before ++ ⟨t, .pulling best []⟩ :: after⟩
      ⟨g.withValue t.vertex best, p,
        before ++ ⟨t, .pushing best (outEdges g.toTopology t.vertex)⟩ :: after⟩
  /-- An edge is tried that makes its target closer. -/
  | improve (g : Graph W W) (p : PendingList F) (before after : List (Job F W)) (t : Task F)
    (distance : W) (e : Edge W) (rest : List (Edge W))
    (h : lt (add distance e.data) (distanceAt g e.target) = true) :
    Step ⟨g, p, before ++ ⟨t, .pushing distance (e :: rest)⟩ :: after⟩
      ⟨g, p, before ++ ⟨t, .asking distance e rest⟩ :: after⟩
  /-- An edge is tried that does not. -/
  | pass (g : Graph W W) (p : PendingList F) (before after : List (Job F W)) (t : Task F)
    (distance : W) (e : Edge W) (rest : List (Edge W))
    (h : lt (add distance e.data) (distanceAt g e.target) = false) :
    Step ⟨g, p, before ++ ⟨t, .pushing distance (e :: rest)⟩ :: after⟩
      ⟨g, p, before ++ ⟨t, .pushing distance rest⟩ :: after⟩
  | ask (g : Graph W W) (p : PendingList F) (before after : List (Job F W)) (t : Task F)
    (distance : W) (e : Edge W) (rest : List (Edge W)) :
    Step ⟨g, p, before ++ ⟨t, .asking distance e rest⟩ :: after⟩
      ⟨g, (p.push e.target t.update Priority.default).1,
        before ++ ⟨t, .pushing distance rest⟩ :: after⟩
  | finish (g : Graph W W) (p : PendingList F) (before after : List (Job F W)) (t : Task F)
    (distance : W) :
    Step ⟨g, p, before ++ ⟨t, .pushing distance []⟩ :: after⟩ ⟨g, p, before ++ after⟩

/-- The graph is well formed, and the jobs are about its vertices and edges. -/
structure Inside (r : Relaxation F W) : Prop where
  graph : r.graph.WellFormed
  vertex : ∀ job ∈ r.jobs, r.graph.contains job.task.vertex = true
  edges : ∀ job ∈ r.jobs, ∀ e ∈ job.progress.edges, e ∈ r.graph.edges

end Relaxation

section

variable {before after : List (Job F W)} {own : Job F W}

omit [Distance W] in
theorem mem_jobs {job : Job F W} :
    job ∈ before ++ own :: after ↔ job = own ∨ job ∈ before ++ after := by
  rw [List.perm_middle.mem_iff, List.mem_cons]

omit [Distance W] in
theorem own_mem : own ∈ before ++ own :: after :=
  mem_jobs.mpr (.inl rfl)

omit [Distance W] in
/-- A property of all jobs, taken apart at one of them. -/
theorem forall_jobs {P : Job F W → Prop} :
    (∀ job ∈ before ++ own :: after, P job) ↔ P own ∧ ∀ job ∈ before ++ after, P job := by
  constructor
  · intro h
    exact ⟨h own own_mem, fun job hjob => h job (mem_jobs.mpr (.inr hjob))⟩
  · rintro ⟨hown, hothers⟩ job hjob
    rcases mem_jobs.mp hjob with rfl | hother
    · exact hown
    · exact hothers job hother

omit [Distance W] in
theorem nodup_jobs : ((before ++ own :: after).map (·.task.vertex)).Nodup ↔
    own.task.vertex ∉ (before ++ after).map (·.task.vertex) ∧
      ((before ++ after).map (·.task.vertex)).Nodup := by
  rw [(List.perm_middle.map _).nodup_iff, List.map_cons, List.nodup_cons]

end

/-! ## Steps and programs -/

/-- A step brings no function in. -/
theorem Relaxation.Step.updates {r r' : Relaxation F W} (h : r.Step r') {P : F → Prop}
    (htasks : ∀ t ∈ r.pending.tasks, P t.update) (hjobs : ∀ job ∈ r.jobs, P job.task.update) :
    (∀ t ∈ r'.pending.tasks, P t.update) ∧ ∀ job ∈ r'.jobs, P job.task.update := by
  cases h with
  | idle => exact ⟨htasks, hjobs⟩
  | take ht _ _ =>
    have hnew := htasks _ (List.mem_of_find?_eq_some ht)
    exact ⟨fun u hu => htasks u (List.mem_of_mem_eraseP hu), forall_jobs.mpr ⟨hnew, hjobs⟩⟩
  | drop ht _ => exact ⟨fun u hu => htasks u (List.mem_of_mem_eraseP hu), hjobs⟩
  | ask g p before after t distance e rest =>
    obtain ⟨hown, hothers⟩ := forall_jobs.mp hjobs
    refine ⟨fun u hu => ?_, forall_jobs.mpr ⟨hown, hothers⟩⟩
    rcases PendingList.exists_of_mem_push hu with ⟨-, hupdate⟩ | ⟨u', hu', -, hupdate | hupdate⟩
    · exact hupdate ▸ hown
    · exact hupdate ▸ hown
    · exact hupdate ▸ htasks u' hu'
  | finish => exact ⟨htasks, (forall_jobs.mp hjobs).2⟩
  | _ =>
    -- The job goes on with the task that it had.
    obtain ⟨hown, hothers⟩ := forall_jobs.mp hjobs
    exact ⟨htasks, forall_jobs.mpr ⟨hown, hothers⟩⟩

section

variable {g : Graph W W} {x : Execution F}

/-- What a question of the program does, and how it goes on with the answer. -/
theorem ask_step (hg : g.WellFormed) (hv : g.contains x.task.vertex = true)
    {progress : Progress W} (hedges : ∀ e ∈ progress.edges, e ∈ g.edges)
    {b : Board F W W T O} (hb : b.graph = g)
    {action : Action F W O} {next : action.Answer T → Program F W T O Unit}
    (h : progress.program x.task.update g.toTopology x.task.vertex = .ask action next) :
    ∃ progress', next (b.perform x action).1 =
        progress'.program x.task.update g.toTopology x.task.vertex ∧
      (b.perform x action).2.2.graph.toTopology = g.toTopology ∧
      ∀ p before after, Relaxation.Step ⟨g, p, before ++ ⟨x.task, progress⟩ :: after⟩
        ⟨(b.perform x action).2.2.graph, b.afterAction action p,
          before ++ ⟨x.task, progress'⟩ :: after⟩ := by
  subst hb
  cases progress with
  | fresh =>
    obtain ⟨next', hprogram, hnext⟩ := program_fresh x.task.update x.task.vertex hg hv
    rw [hprogram] at h
    cases h
    refine ⟨_, ?_, rfl, fun p before after => .start b.graph p before after x.task⟩
    show next' (b.graph.value x.task.vertex) = _
    rw [value_eq_ok hv, hnext]
  | pulling best rest =>
    cases rest with
    | nil =>
      obtain ⟨next', hprogram, hnext⟩ :=
        program_pulling_nil x.task.update x.task.vertex best b.graph.toTopology
      rw [hprogram] at h
      cases h
      exact ⟨_, hnext, rfl, fun p before after => .write b.graph p before after x.task best⟩
    | cons e rest =>
      obtain ⟨next', hprogram, hnext⟩ :=
        program_pulling_cons x.task.update x.task.vertex best e rest b.graph.toTopology
      rw [hprogram] at h
      cases h
      refine ⟨_, ?_, rfl, fun p before after => .pull b.graph p before after x.task best e rest⟩
      show next' (b.graph.value e.source) = _
      rw [value_eq_ok (hg.contains_source (hedges e List.mem_cons_self)), hnext]
  | pushing distance rest =>
    cases rest with
    | nil => cases h
    | cons e rest =>
      obtain ⟨next', hprogram, hnext⟩ :=
        program_pushing_cons x.task.update x.task.vertex distance e rest b.graph.toTopology
      rw [hprogram] at h
      cases h
      have htarget := hg.contains_target (hedges e List.mem_cons_self)
      have hanswer := hnext (distanceAt b.graph e.target)
      rw [← value_eq_ok htarget] at hanswer
      cases hlt : lt (add distance e.data) (distanceAt b.graph e.target) with
      | true =>
        rw [hlt, if_pos rfl] at hanswer
        exact ⟨_, hanswer, rfl, fun p before after =>
          .improve b.graph p before after x.task distance e rest hlt⟩
      | false =>
        rw [hlt, if_neg Bool.false_ne_true] at hanswer
        exact ⟨_, hanswer, rfl, fun p before after =>
          .pass b.graph p before after x.task distance e rest hlt⟩
  | asking distance e rest =>
    obtain ⟨next', hprogram, hnext⟩ :=
      program_asking x.task.update x.task.vertex distance e rest b.graph.toTopology
    rw [hprogram] at h
    cases h
    have htarget := hg.contains_target (hedges e List.mem_cons_self)
    have hcheck : b.checkRequest e.target Priority.default = .ok () := by
      rw [Board.checkRequest, Graph.check, if_pos htarget]
      rfl
    refine ⟨.pushing distance rest, ?_, ?_, fun p before after => ?_⟩
    · simp only [Board.perform, hcheck]
      exact hnext
    · simp only [Board.perform, hcheck]
      rfl
    · simp only [Board.perform, Board.afterAction, Board.request?, hcheck]
      exact .ask b.graph p before after x.task distance e rest

/-- A program that is not done asks something, and one that is has tried every edge. -/
theorem program_cases (hg : g.WellFormed) (hv : g.contains x.task.vertex = true)
    (progress : Progress W) : (∃ distance, progress = .pushing distance []) ∨
      ∃ action next, (progress.program x.task.update g.toTopology x.task.vertex :
        Program F W T O Unit) = .ask action next := by
  cases progress with
  | fresh =>
    obtain ⟨next, hprogram, -⟩ := program_fresh x.task.update x.task.vertex hg hv
    exact .inr ⟨_, next, hprogram⟩
  | pulling best rest =>
    cases rest with
    | nil => exact .inr ⟨_, _, rfl⟩
    | cons e rest => exact .inr ⟨_, _, rfl⟩
  | pushing distance rest =>
    cases rest with
    | nil => exact .inl ⟨distance, rfl⟩
    | cons e rest => exact .inr ⟨_, _, rfl⟩
  | asking distance e rest => exact .inr ⟨_, _, rfl⟩

end

end ShortestPath

end VertexEngine
