import VertexEngine.Proofs.Run.Register
import VertexEngine.Proofs.Run.Cause

/-!
# The life of a core

Whatever a user does with a core, and however its runs end, it stays in order: tasks are pending
only for vertices of a graph that is bound, the scheduler is the one that the options ask for, and
nothing is in flight between two calls.  A core that was destroyed stays so and refuses everything.

* `Core.Consistent` is what every operation and every run keeps.
* `Core.InOrder` and `Core.Retired` say in full what holds of a core, and of one that was destroyed.
* `Core.Reachable.lifecycle` is the result, which also looks into the runs.
-/

namespace VertexEngine

variable {F V E T O : Type} {behaviour : Behaviour F V E T O}

/-- The tasks of a queue as a plain list. -/
def TaskQueue.pendingList (q : TaskQueue F) : PendingList F :=
  ⟨q.kind, q.policy, q.toList⟩

theorem Represents.eq_pendingList {q : TaskQueue F} {p : PendingList F} (h : Represents q p) :
    p = q.pendingList := by
  obtain ⟨kind, policy, tasks⟩ := p
  obtain rfl : kind = q.kind := h.kind
  obtain rfl : policy = q.policy := h.policy
  obtain rfl : q.toList = tasks := h.toList_eq
  rfl

namespace Core

/-! ## What is kept -/

/-- A sound core whose pending tasks are for vertices of its graph, and whose scheduler is the one
that the options ask for. -/
structure Consistent (core : Core F V E T) : Prop extends core.Sound where
  pending : ∀ t ∈ core.scheduler.queue.toList,
    ∃ g, core.heldGraph? = some g ∧ g.contains t.vertex = true
  kind : core.scheduler.queue.kind = core.options.scheduler
  policy : core.scheduler.queue.policy = core.options.policy
  ncpus : 1 ≤ core.options.ncpus

theorem one_le_of_checkOptions {options : EngineOptions} {u : Unit}
    (h : checkOptions options = .ok u) : 1 ≤ options.ncpus := by
  unfold checkOptions at h
  split at h
  · cases h
  · omega

theorem toList_reset {s : Scheduler F} {p : PendingList F} {held : List VertexId}
    (h : s.Tracks p held) : s.reset.queue.toList = [] :=
  h.reset.queue.toList_eq

namespace Consistent

variable {core : Core F V E T}

/-- Dropping all tasks fits any graph. -/
theorem reset (h : core.Consistent) {stage : Stage V E}
    (hg : ∀ g, stage = .bound g → g.WellFormed) :
    { core with stage, scheduler := core.scheduler.reset }.Consistent := by
  obtain ⟨p, hp⟩ := h.tracks
  refine ⟨h.toSound.reset hg, ?_, h.kind, h.policy, h.ncpus⟩
  intro t ht
  rw [toList_reset hp] at ht
  cases ht

theorem enqueue (h : core.Consistent) {g : Graph V E} (hg : core.heldGraph? = some g)
    {v : VertexId} (hv : g.contains v = true) (update : F) (priority : Float) :
    { core with scheduler := (core.scheduler.schedule v update priority).1 }.Consistent := by
  obtain ⟨p, hp⟩ := h.tracks
  have hp' := hp.schedule v update priority
  obtain ⟨hkind, hpolicy⟩ := PendingList.kind_push p v update priority
  refine ⟨h.toSound.schedule v update priority, ?_, ?_, ?_, h.ncpus⟩
  · intro t ht
    rw [hp'.queue.toList_eq] at ht
    refine ⟨g, hg, ?_⟩
    rcases PendingList.exists_of_mem_push ht with ⟨rfl, -⟩ | ⟨u, hu, huv, -⟩
    · exact hv
    · rw [← hp.queue.toList_eq] at hu
      obtain ⟨g', hg', hcontains⟩ := h.pending u hu
      obtain rfl := Option.some.inj (hg.symm.trans hg')
      rw [← huv]
      exact hcontains
  · rw [← hp'.queue.kind, hkind, hp.queue.kind]
    exact h.kind
  · rw [← hp'.queue.policy, hpolicy, hp.queue.policy]
    exact h.policy

/-- The graph may grow. -/
theorem grow (h : core.Consistent) {g g' : Graph V E} (hg : core.heldGraph? = some g)
    (hw : g'.WellFormed) (hs : g.values.size ≤ g'.values.size) :
    { core with stage := .bound g' }.Consistent := by
  refine ⟨⟨h.tracks, h.closed, ?_⟩, ?_, h.kind, h.policy, h.ncpus⟩
  · intro g'' hg''
    obtain rfl := Option.some.inj hg''
    exact hw
  · intro t ht
    obtain ⟨g₀, hg₀, hcontains⟩ := h.pending t ht
    obtain rfl := Option.some.inj (hg.symm.trans hg₀)
    refine ⟨g', rfl, ?_⟩
    simp only [Graph.contains, decide_eq_true_iff] at hcontains ⊢
    omega

/-- Options, graph and tasks are all that matters. -/
theorem congr (h : core.Consistent) {core' : Core F V E T} (ho : core'.options = core.options)
    (hg : core'.stage = core.stage) (hs : core'.scheduler = core.scheduler) : core'.Consistent := by
  obtain ⟨options, stage, scheduler⟩ := core
  obtain ⟨options', stage', scheduler'⟩ := core'
  dsimp only at ho hg hs
  subst ho hg hs
  exact ⟨⟨h.tracks, h.closed, h.graph⟩, h.pending, h.kind, h.policy, h.ncpus⟩

/-- The scheduler is changed along with the options. -/
theorem setOptions (h : core.Consistent) {options : EngineOptions} (hn : 1 ≤ options.ncpus) :
    { core with
      options
      scheduler :=
        if options.scheduler = core.options.scheduler && options.policy = core.options.policy then
          core.scheduler
        else .empty options.scheduler options.policy }.Consistent := by
  split
  · rename_i hsame
    obtain ⟨hscheduler, hpolicy⟩ :
        options.scheduler = core.options.scheduler ∧ options.policy = core.options.policy := by
      simpa using hsame
    exact ⟨⟨h.tracks, h.closed, h.graph⟩, h.pending, h.kind.trans hscheduler.symm,
      h.policy.trans hpolicy.symm, hn⟩
  · have hempty : (Scheduler.empty options.scheduler options.policy : Scheduler F).Tracks
        ⟨options.scheduler, options.policy, []⟩ [] := .empty _ _
    refine ⟨⟨⟨_, hempty⟩, rfl, h.graph⟩, ?_, rfl, rfl, hn⟩
    intro t ht
    rw [hempty.queue.toList_eq] at ht
    cases ht

end Consistent

/-! ## Operations -/

/-- A call that begins with the bound graph may rely on that graph staying bound. -/
theorem keeps_getGraph_bind_held {I : Core F V E T → Prop} {α : Type}
    {f : Graph V E → Call F V E T α}
    (hf : ∀ g, Keeps (fun core => I core ∧ core.heldGraph? = some g) (f g)) :
    Keeps I (getGraph >>= f) := by
  intro core h
  obtain ⟨options, stage, scheduler⟩ := core
  cases stage with
  | ready => exact h
  | destroyed => exact h
  | bound g => exact (hf g _ ⟨h, rfl⟩).1

theorem keeps_enqueue {g : Graph V E} {v : VertexId} (hv : g.contains v = true) (update : F)
    (priority : Float) :
    Keeps (fun core : Core F V E T => core.Consistent ∧ core.heldGraph? = some g)
      (enqueue v update priority : Call F V E T Unit) := by
  refine .modify fun core h => ?_
  exact ⟨h.1.enqueue h.2 hv update priority, h.2⟩

theorem keeps_consistent_scheduleMany (vertices : List VertexId) (update : F) (priority : Float) :
    Keeps Consistent (scheduleMany vertices update priority : Call F V E T Nat) := by
  refine keeps_getGraph_bind_held fun g => .bind (.check _) fun _ => .checkAll_bind fun hall => ?_
  refine .bind (.forM fun v hv => ?_) fun _ => .pure _
  exact keeps_enqueue (Graph.check_eq_ok (hall v hv)) update priority

theorem run_editGraph {core : Core F V E T} {g : Graph V E} (edit : Graph.Edit V E Unit)
    (h : core.stage = .bound g) :
    (Core.editGraph edit).run core =
      ((edit.run g).1, { core with stage := .bound (edit.run g).2 }) := by
  obtain ⟨options, stage, scheduler, abort, syncs, count, metrics⟩ := core
  obtain rfl : stage = .bound g := h
  show (((fun r : Except EngineError Unit × Graph V E => do
    modify fun core => { core with stage := .bound r.2 }
    liftM r.1) (edit.run g) : Call F V E T Unit).run _) = _
  rcases edit.run g with ⟨result, g'⟩
  cases result <;> rfl

theorem Operation.keeps_consistent (op : Operation F V E T) : Keeps Consistent op.call := by
  cases op with
  | setOptions options =>
    refine .bind keeps_checkAlive fun _ => .get_bind fun core h => ?_
    split
    · exact .throw_bind _ _
    · exact .check_bind fun _ hcheck => .set (h.setOptions (one_le_of_checkOptions hcheck))
  | setGraph g hg =>
    refine .bind (.bind keeps_checkAlive fun _ => .get_bind fun core _ =>
      .bind (.modify fun core h => h.reset ?_) fun _ => .pure _) fun _ => .pure _
    intro g' hg'
    cases hg'
    exact hg.wellFormed
  | editGraph op =>
    intro core h
    obtain ⟨options, stage, scheduler⟩ := core
    cases stage with
    | ready => exact h
    | destroyed => exact h
    | bound g =>
      have hw : (op.edit.run g).2.WellFormed := op.keeps_wellFormed g (h.graph g rfl)
      have hs : g.values.size ≤ (op.edit.run g).2.values.size :=
        op.keeps_size g.values.size g (Nat.le_refl _)
      show Consistent ((Core.editGraph op.edit).run _).2
      rw [run_editGraph op.edit rfl]
      exact h.grow rfl hw hs
  | takeGraph =>
    exact .bind (.bind keeps_checkAlive fun _ => .get_bind fun core _ =>
      .bind (.modify fun core h => h.reset (by simp)) fun _ => .pure _) fun _ => .pure _
  | schedule v update priority =>
    refine keeps_getGraph_bind_held fun g => .check_bind fun _ hv => .bind (.check _) fun _ => ?_
    exact keeps_enqueue (Graph.check_eq_ok hv) update priority
  | scheduleMany vertices update priority =>
    exact .bind (keeps_consistent_scheduleMany vertices update priority) fun _ => .pure _
  | scheduleAll update priority =>
    exact .bind (keeps_getGraph_bind fun _ g _ _ =>
      keeps_consistent_scheduleMany g.vertexIds update priority) fun _ => .pure _
  | reset =>
    refine .bind (.bind keeps_checkAlive fun _ => .get_bind fun core _ =>
      .bind (.modify fun core h => ?_) fun _ => .pure _) fun _ => .pure _
    exact h.reset fun g hg => h.graph g (by rw [heldGraph?, hg])
  | requestAbort => exact .modify fun core h => h.congr rfl rfl rfl
  | setSync elsewhere spec =>
    exact .get_bind fun _ _ => .bind keeps_checkAlive fun _ =>
      .modify fun core h => h.congr rfl rfl rfl
  | syncNow id =>
    refine .bind (keeps_getGraph_bind fun _ g _ _ => .get_bind fun core h => ?_) fun _ => .pure _
    split
    · exact .throw _
    · exact .bind (.set (h.congr rfl rfl rfl)) fun _ => .pure _
  | destroy =>
    exact .bind (.bind keeps_checkAlive fun _ => .get_bind fun core _ =>
      .bind (.modify fun core h => h.reset (by simp)) fun _ => .pure _) fun _ => .pure _

/-! ## Runs -/

/-- A run starts in order. -/
theorem Consistent.launch {core : Core F V E T} (h : core.Consistent) {m : Machine F V E T O}
    (hl : core.launch = .ok m) :
    m.Orderly core.scheduler.queue.pendingList ∧
      (m.scene core.scheduler.queue.pendingList).Valid := by
  obtain ⟨p, hp⟩ := h.tracks
  obtain rfl := hp.queue.eq_pendingList
  obtain ⟨g, hg, ho, hhands, hquiet, -⟩ := launch_eq_ok hl h.toSound hp
  refine ⟨ho, ?_, ?_, ?_, ?_⟩
  · intro t ht
    obtain ⟨g', hg', hcontains⟩ := h.pending t ht
    obtain rfl := Option.some.inj (hg.symm.trans hg')
    rw [Machine.scene, hquiet.graph]
    exact hcontains
  · rw [Machine.scene, hquiet.taken]
    intro v hv
    cases hv
  · rw [Machine.scene, hhands]
    intro hand hhand
    cases hhand
  · rw [Machine.scene, hquiet.faults]
    intro fault hfault
    cases hfault

/-- However a run of it ends, the core stays consistent. -/
theorem Run.consistent {core : Core F V E T} (r : Run behaviour core) (h : core.Consistent) :
    r.next.Consistent := by
  have hsound := r.sound h.toSound
  obtain ⟨first, last, conclusion, next, hlaunched, hreached, hconcluded⟩ := r
  obtain ⟨ho, hv⟩ := h.launch hlaunched
  obtain ⟨p, hmoves, ho'⟩ := hreached.moves ho
  have hv' := Moves.valid hmoves hv
  obtain ⟨hkind, hpolicy⟩ := Moves.kind hmoves
  have hqueue := ho'.tracks.queue
  -- What is left pending was pending in the run, or was dropped.
  have hkeep : ∀ {next : Core F V E T}, next.Sound → next.options = core.options →
      next.stage = .bound last.board.graph →
      (next.scheduler = last.board.scheduler ∨ next.scheduler = last.board.scheduler.reset) →
      next.Consistent := by
    intro next hsound hoptions hstage hscheduler
    have hheld : next.heldGraph? = some last.board.graph := by rw [heldGraph?, hstage]
    refine ⟨hsound, ?_, ?_, ?_, hoptions ▸ h.ncpus⟩
    · intro t ht
      refine ⟨_, hheld, ?_⟩
      rcases hscheduler with hscheduler | hscheduler
      · rw [hscheduler, hqueue.toList_eq] at ht
        exact hv'.pending t ht
      · rw [hscheduler, toList_reset ho'.tracks] at ht
        cases ht
    · have hsame : next.scheduler.queue.kind = last.board.scheduler.queue.kind := by
        rcases hscheduler with hs | hs <;> exact congrArg (fun s => s.queue.kind) hs
      rw [hsame, ← hqueue.kind, hoptions, ← h.kind]
      exact hkind
    · have hsame : next.scheduler.queue.policy = last.board.scheduler.queue.policy := by
        rcases hscheduler with hs | hs <;> exact congrArg (fun s => s.queue.policy) hs
      rw [hsame, ← hqueue.policy, hoptions, ← h.policy]
      exact hpolicy
  cases concludes_of_eq_some hconcluded with
  | crashed _ => exact hkeep hsound rfl rfl (.inl rfl)
  | converged _ => exact hkeep hsound rfl rfl (.inl rfl)
  | stopped _ => exact hkeep hsound rfl rfl (.inr rfl)

theorem Reachable.consistent {core : Core F V E T} (h : core.Reachable behaviour) :
    core.Consistent := by
  induction h with
  | @new options core h =>
    have hnew : Reachable behaviour core := .new h
    have hsound := hnew.sound
    obtain ⟨hcheck, rfl⟩ := withOptions_eq_ok h
    exact ⟨hsound, nofun, rfl, rfl, one_le_of_checkOptions hcheck⟩
  | operation _ op ih => exact op.keeps_consistent _ ih
  | run _ r ih => exact r.consistent ih

/-! ## The end of a life -/

/-- Whether an operation looks at whether the core is still alive. -/
def Operation.isGuarded : Operation F V E T → Bool
  | requestAbort => false
  | _ => true

/-- One more operation, or one more run. -/
inductive Step (behaviour : Behaviour F V E T O) : Core F V E T → Core F V E T → Prop
  | operation (core : Core F V E T) (op : Operation F V E T) :
    Step behaviour core (op.call.run core).2
  | run {core : Core F V E T} (r : Run behaviour core) : Step behaviour core r.next

/-- Nothing is held, and everything is refused without any change. -/
structure Retired (core : Core F V E T) : Prop where
  destroyed : core.stage = .destroyed
  graph : core.heldGraph? = none
  tasks : core.scheduler.queue.toList = []
  operations : ∀ op : Operation F V E T, op.isGuarded = true →
    op.call.run core = (.error .useAfterDestroy, core)
  getOptions : getOptions.run core = (.error .useAfterDestroy, core)
  getGraph : getGraph.run core = (.error .useAfterDestroy, core)
  pendingTasks : pendingTasks.run core = (.error .useAfterDestroy, core)
  launch : ∀ O : Type, core.launch (O := O) = .error .useAfterDestroy

theorem Consistent.retired {core : Core F V E T} (h : core.Consistent)
    (hd : core.stage = .destroyed) : core.Retired := by
  have hgraph : core.heldGraph? = none := by rw [heldGraph?, hd]
  have htasks : core.scheduler.queue.toList = [] := by
    refine List.eq_nil_iff_forall_not_mem.mpr fun t ht => ?_
    obtain ⟨g, hg, -⟩ := h.pending t ht
    rw [hgraph] at hg
    cases hg
  obtain ⟨options, stage, scheduler⟩ := core
  obtain rfl : stage = .destroyed := hd
  refine ⟨rfl, hgraph, htasks, ?_, rfl, rfl, rfl, fun _ => rfl⟩
  intro op hop
  cases op with
  | requestAbort => cases hop
  | _ => rfl

theorem Step.destroyed {core core' : Core F V E T} (h : Step behaviour core core')
    (hc : core.Consistent) (hd : core.stage = .destroyed) : core'.stage = .destroyed := by
  have hretired := hc.retired hd
  cases h with
  | operation op =>
    by_cases hop : op.isGuarded = true
    · rw [hretired.operations op hop]
      exact hd
    · cases op with
      | requestAbort => exact hd
      | _ => exact absurd rfl hop
  | run r => cases r.launched.symm.trans (hretired.launch O)

theorem Step.consistent {core core' : Core F V E T} (h : Step behaviour core core')
    (hc : core.Consistent) : core'.Consistent := by
  cases h with
  | operation op => exact op.keeps_consistent _ hc
  | run r => exact r.consistent hc

/-- A core that was destroyed stays so. -/
theorem retired_of_steps {core core' : Core F V E T}
    (h : Relation.ReflTransGen (Step behaviour) core core') (hc : core.Consistent)
    (hd : core.stage = .destroyed) : core'.Consistent ∧ core'.Retired := by
  induction h with
  | refl => exact ⟨hc, hc.retired hd⟩
  | tail _ hstep ih =>
    have hc' := hstep.consistent ih.1
    exact ⟨hc', hc'.retired (hstep.destroyed ih.1 ih.2.destroyed)⟩

/-! ## The whole life -/

/-- What holds of a core after every operation.  `bound` is true of every core by construction: its
stage and its graph are one thing here, so that they cannot contradict each other. -/
structure InOrder (core : Core F V E T) : Prop where
  bound : (∃ g, core.stage = .bound g) ↔ ∃ g, core.heldGraph? = some g
  pending : ∀ t ∈ core.scheduler.queue.toList, ∃ g, core.heldGraph? = some g ∧ t.IsValid g
  kind : core.scheduler.queue.kind = core.options.scheduler
  policy : core.scheduler.queue.policy = core.options.policy
  ncpus : 1 ≤ core.options.ncpus
  closed : core.scheduler.closed = false
  inFlight : core.scheduler.inFlight = []

theorem Consistent.inOrder {core : Core F V E T} (h : core.Consistent) : core.InOrder := by
  obtain ⟨p, hp⟩ := h.tracks
  refine ⟨?_, ?_, h.kind, h.policy, h.ncpus, h.closed, hp.inFlight.eq_nil⟩
  · unfold heldGraph?
    cases core.stage <;> simp
  · intro t ht
    obtain ⟨g, hg, hcontains⟩ := h.pending t ht
    rw [hp.queue.toList_eq] at ht
    exact ⟨g, hg, hcontains, hp.queue.finite t ht⟩

/-- A core that users can get is in order.  If it was destroyed, it stays retired whatever is done
with it.  In a run of it every pending task is valid at every move, no task misses its vertex, and
the run ends with no errors but those of programs and of the engine. -/
theorem Reachable.lifecycle {core : Core F V E T} (h : core.Reachable behaviour) :
    core.InOrder ∧
      (core.stage = .destroyed → ∀ core', Relation.ReflTransGen (Step behaviour) core core' →
        core'.Retired) ∧
      ∀ m₀ : Machine F V E T O, core.launch = .ok m₀ →
        (∀ s, Moves behaviour (m₀.scene core.scheduler.queue.pendingList) s →
          s.board.scheduler.queue.toList = s.pending.tasks ∧
            (∀ t ∈ s.pending.tasks, t.IsValid s.board.graph) ∧
            (∀ v ∈ s.board.taken, s.board.graph.contains v = true) ∧
            ∀ fault ∈ s.board.faults, fault.2.IsUpdate) ∧
        ∀ m, m₀.Reaches behaviour m →
          (∃ p, Moves behaviour (m₀.scene core.scheduler.queue.pendingList) (m.scene p)) ∧
          ∀ e core', core.conclude? m = some (.stopped e, core') → e.EndsRun := by
  have hc := h.consistent
  refine ⟨hc.inOrder, fun hd core' hsteps => (retired_of_steps hsteps hc hd).2, fun m₀ hl => ?_⟩
  obtain ⟨ho, hv⟩ := hc.launch hl
  refine ⟨fun s hmoves => ?_, fun m hr => ?_⟩
  · have hv' := Moves.valid hmoves hv
    have hqueue := (Moves.sound hmoves ⟨ho.tracks.queue, ho.tracks.nodup⟩).queue
    refine ⟨hqueue.toList_eq, fun t ht => ?_, hv'.taken, hv'.faults⟩
    exact ⟨hv'.pending t ht, hqueue.finite t ht⟩
  · obtain ⟨p, hmoves, ho'⟩ := hr.moves ho
    refine ⟨⟨p, hmoves⟩, fun e core' hconclude => ?_⟩
    cases concludes_of_eq_some hconclude with
    | stopped hstatus =>
      have hcause := (hr.explained ho hv (launch_explained hl)).cause ho'
      exact (hcause.1 e hstatus).endsRun

/-- A core is in order before its end, and retired after it. -/
theorem lifecycle_oneTask : oneTask.Reachable askOnce ∧ oneTask.InOrder ∧
    oneTask.scheduler.pending = 1 ∧
    (Operation.destroy.call.run (Operation.destroy.call.run oneTask).2).1 =
      .error .useAfterDestroy := by
  have hend := (reachable_oneTask.operation .destroy).lifecycle.2.1 rfl _ .refl
  refine ⟨reachable_oneTask, reachable_oneTask.lifecycle.1, rfl, ?_⟩
  rw [hend.operations .destroy rfl]

end Core

end VertexEngine
