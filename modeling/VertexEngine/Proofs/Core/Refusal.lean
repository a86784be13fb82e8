import VertexEngine.Proofs.Core.Lifecycle
import VertexEngine.Proofs.Graph.Adjacency
import VertexEngine.Proofs.Graph.Refusal

/-!
# Calls of a core that are refused

Every call of a core looks before it writes, so a call that is refused has changed nothing, and a
batch of tasks is scheduled as a whole or not at all.

* `Operation.atomic` says so of every operation, and `atomic_begin` of the start of a run.
* `withTasks` is the core with a batch of tasks, `batchFault?` is what a batch is refused for, and
  `run_scheduleMany` is the scheduling of a batch as one equation.
* `Reachable.all_or_nothing` is the result.
-/

namespace VertexEngine

namespace Core

variable {F V E T O α : Type} {behaviour : Behaviour F V E T O} {core : Core F V E T}

/-- Starts a run; the core is as it was until the run is concluded. -/
def begin : Call F V E T (Machine F V E T O) := do
  let core ← get
  core.launch

/-! ## Looking at a core -/

theorem looks_checkAlive : Looks (checkAlive : Call F V E T Unit) := by
  refine .get_bind fun core => ?_
  split
  · exact .throw _
  · exact .pure _

theorem looks_getGraph : Looks (getGraph : Call F V E T (Graph V E)) := by
  refine .bind looks_checkAlive fun _ => .get_bind fun core => ?_
  split
  · exact .pure _
  · exact .throw _

/-- A call that works on the graph is refused if there is none. -/
theorem run_getGraph_bind (f : Graph V E → Call F V E T α) (core : Core F V E T) :
    (getGraph >>= f).run core =
      match core.stage with
      | .destroyed => (.error .useAfterDestroy, core)
      | .ready => (.error .graphNotBound, core)
      | .bound g => (f g).run core := by
  obtain ⟨options, stage, scheduler⟩ := core
  cases stage with
  | ready => rfl
  | bound g => rfl
  | destroyed => rfl

theorem run_getGraph_bind_of_some {g : Graph V E} (hg : core.heldGraph? = some g)
    (f : Graph V E → Call F V E T α) : (getGraph >>= f).run core = (f g).run core := by
  rw [run_getGraph_bind, stage_of_heldGraph hg]

theorem run_getGraph_bind_of_none (hg : core.heldGraph? = none) (f : Graph V E → Call F V E T α) :
    ∃ e, (getGraph >>= f).run core = (.error e, core) := by
  rw [run_getGraph_bind]
  unfold heldGraph? at hg
  cases hstage : core.stage with
  | ready => exact ⟨_, rfl⟩
  | destroyed => exact ⟨_, rfl⟩
  | bound g =>
    rw [hstage] at hg
    cases hg

/-! ## Operations and the start of a run -/

/-- An answer that is not looked at makes no difference. -/
theorem atomic_drop {c : Call F V E T α} (h : Atomic c) :
    Atomic (c >>= fun _ => pure () : Call F V E T Unit) :=
  h.bind_succeeds fun _ => .pure ()

/-- A change after the only look at the core. -/
theorem atomic_modify {change : Core F V E T → Core F V E T} {answer : Core F V E T → α} :
    Atomic (do
      checkAlive
      let core ← get
      modify change
      return answer core : Call F V E T α) :=
  .look_bind looks_checkAlive fun _ => .get_bind fun _ =>
    (Succeeds.bind (.modify _) fun _ => .pure _).atomic

theorem atomic_scheduleMany (vertices : List VertexId) (update : F) (priority : Float) :
    Atomic (scheduleMany vertices update priority : Call F V E T Nat) :=
  .look_bind looks_getGraph fun _ => .check_bind fun _ =>
    .look_bind (.forM fun _ => .check _) fun _ =>
      (Succeeds.bind (.forM fun _ => .modify _) fun _ => .pure _).atomic

/-- The graph is put back as the edit has left it, which is as it was if the edit was refused. -/
theorem atomic_editGraph (op : Graph.Operation V E) :
    Atomic (Core.editGraph op.edit : Call F V E T Unit) := by
  intro core e he
  cases hg : core.heldGraph? with
  | none =>
    obtain ⟨_, hrun⟩ := run_getGraph_bind_of_none hg _
    exact congrArg Prod.snd hrun
  | some g =>
    have hstage := stage_of_heldGraph hg
    rw [run_editGraph op.edit hstage] at he ⊢
    rw [op.atomic g e he, ← hstage]

/-- An operation that is refused leaves the core as it was. -/
theorem Operation.atomic (op : Operation F V E T) : Atomic op.call := by
  cases op with
  | setOptions options =>
    refine .look_bind looks_checkAlive fun _ => .get_bind fun core => ?_
    split
    · exact .throw_bind _ _
    · exact .check_bind fun _ => (Succeeds.set _).atomic
  | setGraph g _ => exact atomic_drop atomic_modify
  | editGraph op => exact atomic_editGraph op
  | takeGraph => exact atomic_drop atomic_modify
  | schedule v update priority =>
    exact .look_bind looks_getGraph fun _ => .check_bind fun _ => .check_bind fun _ =>
      (Succeeds.modify _).atomic
  | scheduleMany vertices update priority =>
    exact atomic_drop (atomic_scheduleMany vertices update priority)
  | scheduleAll update priority =>
    exact atomic_drop (.look_bind looks_getGraph fun g =>
      atomic_scheduleMany g.vertexIds update priority)
  | reset => exact atomic_drop atomic_modify
  | requestAbort => exact (Succeeds.modify _).atomic
  | setSync elsewhere spec =>
    exact .get_bind fun _ => .look_bind looks_checkAlive fun _ => (Succeeds.modify _).atomic
  | syncNow id =>
    refine atomic_drop (.look_bind looks_getGraph fun g => .get_bind fun core => ?_)
    split
    · exact (Looks.throw _).atomic
    · exact (Succeeds.bind (.set _) fun _ => .pure _).atomic
  | destroy => exact atomic_drop atomic_modify

theorem atomic_begin : Atomic (begin : Call F V E T (Machine F V E T O)) :=
  .get_bind fun _ => (Looks.check _).atomic

theorem heldGraph?_of_begin {e : EngineError}
    (h : ((begin : Call F V E T (Machine F V E T O)).run core).1 = .error e) :
    core.heldGraph? = none := by
  have hrun : ((begin : Call F V E T (Machine F V E T O)).run core).1 = core.launch := by
    show ((liftM (core.launch : Except EngineError (Machine F V E T O)) :
      Call F V E T (Machine F V E T O)).run core).1 = core.launch
    cases (core.launch : Except EngineError (Machine F V E T O)) with
    | ok _ => rfl
    | error _ => rfl
  rw [hrun] at h
  rcases launch_eq_error.mp h with ⟨hstage, -⟩ | ⟨hstage, -⟩
  · rw [heldGraph?, hstage]
  · rw [heldGraph?, hstage]

/-! ## Batches -/

/-- The core with a task for each of the vertices, in this order. -/
def withTasks (core : Core F V E T) (vertices : List VertexId) (update : F) (priority : Float) :
    Core F V E T :=
  { core with
    scheduler := vertices.foldl (fun s v => (s.schedule v update priority).1) core.scheduler }

/-- What a batch of tasks is refused for: no graph, the priority, or the first number that is no
vertex. -/
def batchFault? (core : Core F V E T) (vertices : List VertexId) (priority : Float) :
    Option EngineError :=
  match core.stage with
  | .destroyed => some .useAfterDestroy
  | .ready => some .graphNotBound
  | .bound g =>
    if priority.isFinite then (vertices.find? (!g.contains ·)).map .notFound
    else some (.invalidPriority priority)

/-- Whether tasks for these vertices, with this priority, may be scheduled. -/
def Accepts (core : Core F V E T) (vertices : List VertexId) (priority : Float) : Prop :=
  ∃ g, core.heldGraph? = some g ∧ priority.isFinite = true ∧ ∀ v ∈ vertices, g.contains v = true

theorem accepts_iff {vertices : List VertexId} {priority : Float} :
    core.Accepts vertices priority ↔ core.batchFault? vertices priority = none := by
  unfold Accepts heldGraph? batchFault?
  cases core.stage with
  | destroyed => simp
  | ready => simp
  | bound g =>
    by_cases hp : priority.isFinite = true
    · simp [hp]
    · simp [hp]

theorem run_checkAll (g : Graph V E) (vertices : List VertexId) (core : Core F V E T) :
    (vertices.forM fun v => (g.check v : Call F V E T Unit)).run core =
      match vertices.find? (!g.contains ·) with
      | some v => (.error (.notFound v), core)
      | none => (.ok (), core) := by
  induction vertices with
  | nil => rfl
  | cons v vertices ih =>
    show ((liftM (g.check v) : Call F V E T Unit) >>= fun _ =>
      vertices.forM fun v => (g.check v : Call F V E T Unit)).run core = _
    by_cases hv : g.contains v = true
    · rw [Graph.check, if_pos hv, List.find?_cons_of_neg (by simp [hv])]
      exact ih
    · rw [Graph.check, if_neg hv, List.find?_cons_of_pos (by simp [hv])]
      rfl

theorem run_enqueueAll (vertices : List VertexId) (update : F) (priority : Float)
    (core : Core F V E T) :
    (vertices.forM fun v => (enqueue v update priority : Call F V E T Unit)).run core =
      (.ok (), core.withTasks vertices update priority) := by
  induction vertices generalizing core with
  | nil => rfl
  | cons v vertices ih =>
    exact ih { core with scheduler := (core.scheduler.schedule v update priority).1 }

/-- A batch is scheduled as a whole, or not at all. -/
theorem run_scheduleMany (core : Core F V E T) (vertices : List VertexId) (update : F)
    (priority : Float) :
    (scheduleMany vertices update priority).run core =
      match core.batchFault? vertices priority with
      | some e => (.error e, core)
      | none => (.ok vertices.length, core.withTasks vertices update priority) := by
  unfold scheduleMany batchFault?
  rw [run_getGraph_bind]
  cases core.stage with
  | ready => rfl
  | destroyed => rfl
  | bound g =>
    have hcheck : (vertices.forM fun v => (g.check v : Call F V E T Unit)).run core = _ :=
      run_checkAll g vertices core
    dsimp only
    by_cases hp : priority.isFinite = true
    · rw [Priority.check, if_pos hp, if_pos hp]
      cases hfind : vertices.find? (!g.contains ·) with
      | some v =>
        rw [hfind] at hcheck
        refine (run_bind_of_error (congrArg Prod.fst hcheck)).trans ?_
        rw [hcheck]
        rfl
      | none =>
        rw [hfind] at hcheck
        refine (run_bind_of_ok (congrArg Prod.fst hcheck)).trans ?_
        rw [hcheck]
        refine (run_bind_of_ok (congrArg Prod.fst (run_enqueueAll ..))).trans ?_
        rw [run_enqueueAll]
        rfl
    · rw [Priority.check, if_neg hp, if_neg hp]
      rfl

/-- Scheduling one by one comes to the same. -/
theorem run_scheduleEach {vertices : List VertexId} {priority : Float} (update : F)
    (h : core.Accepts vertices priority) :
    (vertices.forM fun v => schedule v update priority).run core =
      (.ok (), core.withTasks vertices update priority) := by
  obtain ⟨g, hg, hp, hv⟩ := h
  induction vertices generalizing core with
  | nil => rfl
  | cons v vertices ih =>
    have hfirst : (schedule v update priority).run core =
        (.ok (), { core with scheduler := (core.scheduler.schedule v update priority).1 }) := by
      unfold schedule
      rw [run_getGraph_bind_of_some hg, Graph.check, if_pos (hv v List.mem_cons_self),
        Priority.check, if_pos hp]
      rfl
    refine (run_bind_of_ok (congrArg Prod.fst hfirst)).trans ?_
    rw [hfirst]
    refine ih ?_ fun w hw => hv w (List.mem_cons_of_mem v hw)
    exact hg

/-- The tasks of a batch are merged with those that are pending, one after the other. -/
theorem Sound.pendingList_withTasks (h : core.Sound) (vertices : List VertexId) (update : F)
    (priority : Float) :
    (core.withTasks vertices update priority).scheduler.queue.pendingList =
      vertices.foldl (fun p v => (p.push v update priority).1)
        core.scheduler.queue.pendingList := by
  have hfold : ∀ (s : Scheduler F) (p : PendingList F), s.Tracks p [] →
      (vertices.foldl (fun s v => (s.schedule v update priority).1) s).Tracks
        (vertices.foldl (fun p v => (p.push v update priority).1) p) [] := by
    induction vertices with
    | nil => exact fun _ _ hp => hp
    | cons v vertices ih => exact fun s p hp => ih _ _ (hp.schedule v update priority)
  obtain ⟨p, hp⟩ := h.tracks
  rw [← hp.queue.eq_pendingList]
  exact (hfold _ _ hp).queue.eq_pendingList.symm

/-- What a batch of tasks that was scheduled leaves behind. -/
structure Scheduled (core : Core F V E T) (vertices : List VertexId) (update : F)
    (priority : Float) (core' : Core F V E T) : Prop where
  /-- The tasks might as well have been scheduled one by one. -/
  each : (vertices.forM fun v => schedule v update priority).run core = (.ok (), core')
  pending : core'.scheduler.queue.pendingList =
    vertices.foldl (fun p v => (p.push v update priority).1) core.scheduler.queue.pendingList
  others : core' = { core with scheduler := core'.scheduler }

theorem Sound.scheduleMany_exact (h : core.Sound) (vertices : List VertexId) (update : F)
    (priority : Float) :
    ((∃ n core', (scheduleMany vertices update priority).run core = (.ok n, core')) ↔
      core.Accepts vertices priority) ∧
    ∀ n core', (scheduleMany vertices update priority).run core = (.ok n, core') →
      n = vertices.length ∧ core.Scheduled vertices update priority core' := by
  rw [accepts_iff, run_scheduleMany]
  cases hfault : core.batchFault? vertices priority with
  | none =>
    refine ⟨iff_of_true ⟨_, _, rfl⟩ rfl, ?_⟩
    intro n core' hok
    cases hok
    exact ⟨rfl, run_scheduleEach update (accepts_iff.mpr hfault),
      h.pendingList_withTasks _ _ _, rfl⟩
  | some e =>
    refine ⟨iff_of_false ?_ (Option.some_ne_none e), ?_⟩
    · rintro ⟨n, core', hok⟩
      cases hok
    · intro n core' hok
      cases hok

/-- Every vertex of a well-formed graph is one, so only the graph and the priority are left to be
checked. -/
theorem Sound.scheduleAll_exact (h : core.Sound) (update : F) (priority : Float) :
    ((∃ n core', (scheduleAll update priority).run core = (.ok n, core')) ↔
      (∃ g, core.heldGraph? = some g) ∧ priority.isFinite = true) ∧
    ∀ n core', (scheduleAll update priority).run core = (.ok n, core') →
      ∃ g, core.heldGraph? = some g ∧ n = g.vertexCount ∧
        core.Scheduled g.vertexIds update priority core' := by
  unfold scheduleAll
  cases hg : core.heldGraph? with
  | none =>
    obtain ⟨e, hrun⟩ := run_getGraph_bind_of_none hg fun g =>
      (scheduleMany g.vertexIds update priority : Call F V E T Nat)
    rw [hrun]
    refine ⟨iff_of_false ?_ ?_, ?_⟩
    · rintro ⟨n, core', hok⟩
      cases hok
    · rintro ⟨⟨g, hg'⟩, -⟩
      cases hg'
    · intro n core' hok
      cases hok
  | some g =>
    rw [run_getGraph_bind_of_some hg]
    obtain ⟨hiff, hok⟩ := h.scheduleMany_exact g.vertexIds update priority
    have hvertices : ∀ v ∈ g.vertexIds, g.contains v = true := by
      intro v hv
      exact Graph.contains_of_mem_vertexIds (h.graph g hg).values_size hv
    refine ⟨hiff.trans ⟨?_, ?_⟩, ?_⟩
    · rintro ⟨-, -, hp, -⟩
      exact ⟨⟨g, rfl⟩, hp⟩
    · rintro ⟨-, hp⟩
      exact ⟨g, hg, hp, hvertices⟩
    · intro n core' hrun
      obtain ⟨hn, hscheduled⟩ := hok n core' hrun
      have hlength : g.vertexIds.length = g.vertexCount := by
        simp [Graph.vertexIds, Graph.vertexCount]
      exact ⟨g, rfl, hn.trans hlength, hscheduled⟩

/-! ## The result -/

/-- An operation that is refused, and a run that is refused before it begins, leave the core as it
was.  A batch of tasks is scheduled if a graph is bound, the priority is finite and every number is
a vertex, and then the tasks are as if they had been scheduled one by one. -/
theorem Reachable.all_or_nothing (h : Reachable behaviour core) :
    (∀ (op : Operation F V E T) (e : EngineError),
      (op.call.run core).1 = .error e → (op.call.run core).2 = core) ∧
    (∀ e : EngineError, ((begin : Call F V E T (Machine F V E T O)).run core).1 = .error e →
      ((begin : Call F V E T (Machine F V E T O)).run core).2 = core ∧ core.heldGraph? = none) ∧
    (∀ (vertices : List VertexId) (update : F) (priority : Float),
      ((∃ n core', (scheduleMany vertices update priority).run core = (.ok n, core')) ↔
        ∃ g, core.heldGraph? = some g ∧ priority.isFinite = true ∧
          ∀ v ∈ vertices, g.contains v = true) ∧
      ∀ n core', (scheduleMany vertices update priority).run core = (.ok n, core') →
        n = vertices.length ∧ core.Scheduled vertices update priority core') ∧
    ∀ (update : F) (priority : Float),
      ((∃ n core', (scheduleAll update priority).run core = (.ok n, core')) ↔
        (∃ g, core.heldGraph? = some g) ∧ priority.isFinite = true) ∧
      ∀ n core', (scheduleAll update priority).run core = (.ok n, core') →
        ∃ g, core.heldGraph? = some g ∧ n = g.vertexCount ∧
          core.Scheduled g.vertexIds update priority core' := by
  refine ⟨fun op => op.atomic core, ?_, h.sound.scheduleMany_exact, h.sound.scheduleAll_exact⟩
  intro e he
  exact ⟨atomic_begin core e he, heldGraph?_of_begin he⟩

/-- Vertex 0 is asked for twice, which its pending task absorbs; with a vertex that does not exist
the batch is refused. -/
theorem all_or_nothing_oneTask : oneTask.Reachable askOnce ∧
    (∃ core', (scheduleMany [0, 0] false 1).run oneTask = (.ok 2, core') ∧
      core'.scheduler.queue.pendingList.tasks = [⟨0, true, 1⟩]) ∧
    ((scheduleMany [0, 7] false 1 : Call Bool Nat Unit Nat Nat).run oneTask).2 = oneTask := by
  obtain ⟨hrefused, -, hbatch, -⟩ := reachable_oneTask.all_or_nothing
  have hrun : (scheduleMany [0, 0] false 1).run oneTask =
      (.ok 2, oneTask.withTasks [0, 0] false 1) := rfl
  obtain ⟨-, hscheduled⟩ := (hbatch [0, 0] false 1).2 _ _ hrun
  refine ⟨reachable_oneTask, ⟨_, hrun, ?_⟩, ?_⟩
  · rw [hscheduled.pending]
    rfl
  · exact hrefused (.scheduleMany [0, 7] false 1) (.notFound 7) rfl

end Core

end VertexEngine
