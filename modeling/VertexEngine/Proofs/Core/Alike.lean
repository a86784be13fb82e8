import VertexEngine.Proofs.Agrees
import VertexEngine.Proofs.Core.Reachable
import VertexEngine.Proofs.Run.Alike

/-!
# Cores that cannot be told apart

Two cores are alike if everything that operations and runs look at is the same, or alike.  The
numbers that their queues have given out, stale keys and the count of evaluations may differ, and so
may the totals over past runs.

* `Operation.reply` is an operation with what it gives back, and `Operation.agrees` says that it
  gives back the same for cores that are alike, and leaves them alike.
* `Alike.run` says that every run of one core is a run of the other, with the same history and the
  same result.
-/

namespace VertexEngine

variable {F V E T O : Type} {behaviour : Behaviour F V E T O}

namespace Core

/-! ## Cores that are alike -/

/-- Everything that operations and runs look at is the same, or alike. -/
structure Alike (core core' : Core F V E T) : Prop where
  options : core'.options = core.options
  stage : core'.stage = core.stage
  scheduler : core.scheduler.Alike core'.scheduler
  abort : core'.abort = core.abort
  syncs : core'.syncs.syncs = core.syncs.syncs

namespace Alike

variable {core core' : Core F V E T}

theorem symm (h : core.Alike core') : core'.Alike core :=
  ⟨h.options.symm, h.stage.symm, h.scheduler.symm, h.abort.symm, h.syncs.symm⟩

theorem heldGraph? (h : core.Alike core') : core'.heldGraph? = core.heldGraph? := by
  rw [Core.heldGraph?, h.stage, Core.heldGraph?]

theorem withScheduler (h : core.Alike core') {s s' : Scheduler F} (hs : s.Alike s') :
    { core with scheduler := s }.Alike { core' with scheduler := s' } :=
  ⟨h.options, h.stage, hs, h.abort, h.syncs⟩

theorem reset (h : core.Alike core') (stage : Stage V E) :
    { core with stage, scheduler := core.scheduler.reset }.Alike
      { core' with stage, scheduler := core'.scheduler.reset } :=
  ⟨h.options, rfl, h.scheduler.reset, h.abort, h.syncs⟩

/-- From here on the evaluations are counted alike. -/
theorem syncSet (h : core.Alike core') :
    core.syncs.Alike core.syncs.performed core'.syncs.performed core'.syncs :=
  ⟨h.syncs, 0, rfl, rfl⟩

end Alike

/-! ## Operations -/

/-- What an operation gives back. -/
inductive Reply (V E : Type) where
  | done
  | count (n : Nat)
  | graph (g : Option (Graph V E))
  /-- Whether an evaluation broke off. -/
  | broken (b : Bool)

/-- The call of an operation, with what it gives back. -/
def Operation.reply : Operation F V E T → Call F V E T (Reply V E)
  | setOptions options => do
    Core.setOptions options
    return .done
  | setGraph g _ => return .graph (← Core.setGraph g)
  | editGraph op => do
    Core.editGraph op.edit
    return .done
  | takeGraph => return .graph (← Core.takeGraph)
  | schedule v update priority => do
    Core.schedule v update priority
    return .done
  | scheduleMany vertices update priority =>
    return .count (← Core.scheduleMany vertices update priority)
  | scheduleAll update priority => return .count (← Core.scheduleAll update priority)
  | reset => return .count (← Core.reset)
  | requestAbort => do
    modify Core.requestAbort
    return .done
  | setSync elsewhere spec => do
    let core ← get
    Core.setSync (core.syncs.nextId + elsewhere) spec
    return .done
  | syncNow id => return .broken (← Core.syncNow id)
  | destroy => return .graph (← Core.destroy)

theorem agrees_checkAlive : Agrees Alike (checkAlive : Call F V E T Unit) checkAlive := by
  refine .get_bind fun core core' h => ?_
  rw [h.stage]
  split
  · exact .throw _
  · exact .pure _

theorem agrees_getGraph : Agrees Alike (getGraph : Call F V E T (Graph V E)) getGraph := by
  refine .bind agrees_checkAlive fun _ => .get_bind fun core core' h => ?_
  rw [h.heldGraph?]
  split
  · exact .pure _
  · exact .throw _

theorem agrees_enqueue (v : VertexId) (update : F) (priority : Float) :
    Agrees Alike (enqueue v update priority : Call F V E T Unit) (enqueue v update priority) :=
  .modify fun _ _ h => h.withScheduler (h.scheduler.schedule v update priority).2

theorem agrees_scheduleMany (vertices : List VertexId) (update : F) (priority : Float) :
    Agrees Alike (scheduleMany vertices update priority : Call F V E T Nat)
      (scheduleMany vertices update priority) :=
  .bind agrees_getGraph fun _ => .bind (.check _) fun _ => .bind (.forM fun _ => .check _) fun _ =>
    .bind (.forM fun v => agrees_enqueue v update priority) fun _ => .pure _

/-- A call that drops the tasks and gives the graph back. -/
theorem agrees_release (stage : Stage V E) :
    Agrees Alike
      (do
        checkAlive
        let core ← get
        modify fun core => { core with stage, scheduler := core.scheduler.reset }
        return core.heldGraph? : Call F V E T (Option (Graph V E)))
      (do
        checkAlive
        let core ← get
        modify fun core => { core with stage, scheduler := core.scheduler.reset }
        return core.heldGraph?) := by
  refine .bind agrees_checkAlive fun _ => .get_bind fun core core' h => ?_
  rw [h.heldGraph?]
  exact .bind (.modify fun _ _ h => h.reset stage) fun _ => .pure _

theorem agrees_setOptions (options : EngineOptions) :
    Agrees Alike (Core.setOptions options : Call F V E T Unit) (Core.setOptions options) := by
  refine .bind agrees_checkAlive fun _ => .get_bind fun core core' h => ?_
  rw [h.scheduler.pending_eq]
  split
  · exact .throw_bind _ _ _
  · refine .check_bind fun _ => .set ⟨rfl, h.stage, ?_, h.abort, h.syncs⟩
    simp only [h.options]
    split
    · exact h.scheduler
    · exact .empty _ _

theorem agrees_reset : Agrees Alike (Core.reset : Call F V E T Nat) Core.reset := by
  refine .bind agrees_checkAlive fun _ => .get_bind fun core core' h => ?_
  rw [h.scheduler.pending_eq]
  exact .bind (.modify fun _ _ h => h.withScheduler h.scheduler.reset) fun _ => .pure _

theorem agrees_syncNow (id : SyncId) :
    Agrees Alike (Core.syncNow id : Call F V E T Bool) (Core.syncNow id) := by
  refine .bind agrees_getGraph fun g => .get_bind fun core core' h => ?_
  unfold SyncSet.evaluateOne
  rw [h.syncs]
  cases core.syncs.syncs.find? (·.id == id) with
  | none => exact .throw _
  | some sync =>
    obtain ⟨hround, hsyncs⟩ := h.syncSet.evaluate g [sync]
    simp only [Option.map_some, hround]
    exact .bind (.set ⟨h.options, h.stage, h.scheduler, h.abort, hsyncs.syncs⟩) fun _ => .pure _

/-- No operation can tell cores that are alike apart. -/
theorem Operation.agrees (op : Operation F V E T) : Agrees Alike op.reply op.reply := by
  cases op with
  | setOptions options => exact .bind (agrees_setOptions options) fun _ => .pure _
  | setGraph g _ => exact .bind (agrees_release (.bound g)) fun _ => .pure _
  | editGraph op =>
    refine .bind (.bind agrees_getGraph fun g => ?_) fun _ => .pure _
    exact .bind (.modify fun _ _ h => ⟨h.options, rfl, h.scheduler, h.abort, h.syncs⟩) fun _ =>
      .check _
  | takeGraph => exact .bind (agrees_release .ready) fun _ => .pure _
  | schedule v update priority =>
    exact .bind (.bind agrees_getGraph fun _ => .bind (.check _) fun _ => .bind (.check _) fun _ =>
      agrees_enqueue v update priority) fun _ => .pure _
  | scheduleMany vertices update priority =>
    exact .bind (agrees_scheduleMany vertices update priority) fun _ => .pure _
  | scheduleAll update priority =>
    exact .bind (.bind agrees_getGraph fun g => agrees_scheduleMany g.vertexIds update priority)
      fun _ => .pure _
  | reset => exact .bind agrees_reset fun _ => .pure _
  | requestAbort =>
    exact .bind (.modify fun _ _ h => ⟨h.options, h.stage, h.scheduler, rfl, h.syncs⟩) fun _ =>
      .pure _
  | setSync elsewhere spec =>
    refine .get_bind fun core core' h => ?_
    have hnext : core'.syncs.nextId = core.syncs.nextId := by rw [SyncSet.nextId, h.syncs]; rfl
    rw [hnext]
    refine .bind (.bind agrees_checkAlive fun _ => .modify fun _ _ h => ?_) fun _ => .pure _
    exact ⟨h.options, h.stage, h.scheduler, h.abort, by simp only [SyncSet.register, h.syncs]⟩
  | syncNow id => exact .bind (agrees_syncNow id) fun _ => .pure _
  | destroy => exact .bind (agrees_release .destroyed) fun _ => .pure _

/-! ## Runs -/

namespace Alike

variable {core core' : Core F V E T}

theorem boardOn (h : core.Alike core') (g : Graph V E) :
    (core.boardOn g : Board F V E T O).Alike core.syncs.performed core'.syncs.performed
      (core'.boardOn g) :=
  ⟨rfl, h.scheduler, h.abort, h.syncSet, rfl, rfl⟩

/-- Starts are refused for the same reasons. -/
theorem launch_error (h : core.Alike core') {e : EngineError}
    (he : core.launch (O := O) = .error e) : core'.launch (O := O) = .error e := by
  unfold launch at he ⊢
  rw [h.stage]
  split at he
  · exact he
  · exact he
  · dsimp only at he
    split at he <;> cases he

theorem launch_ok (h : core.Alike core') {m : Machine F V E T O} (hl : core.launch = .ok m) :
    ∃ m', core'.launch = .ok m' ∧
      m.Alike core.syncs.performed core'.syncs.performed m' := by
  unfold launch at hl ⊢
  rw [h.stage]
  split at hl
  · cases hl
  · cases hl
  · rename_i g hstage
    obtain ⟨hround, hsyncs⟩ := h.syncSet.evaluate g core.syncs.syncs
    have hboard := ((h.boardOn (O := O) g).withSyncs hsyncs).noteRound
      (core.syncs.evaluateAll g).2
    have hsame : core'.syncs.evaluateAll g = core'.syncs.evaluate g core.syncs.syncs := by
      rw [SyncSet.evaluateAll, h.syncs]
    have hround' : (core'.syncs.evaluateAll g).2 = (core.syncs.evaluateAll g).2 := by
      rw [hsame]
      exact hround
    rw [← hsame] at hboard
    simp only [hround', h.options]
    dsimp only at hl
    split at hl
    · rename_i hbroken
      obtain rfl := Except.ok.inj hl
      rw [if_pos hbroken]
      exact ⟨_, rfl, .sequential hboard .crashed⟩
    · rename_i hbroken
      obtain rfl := Except.ok.inj hl
      rw [if_neg hbroken]
      exact ⟨_, rfl, .start core.options hboard⟩

theorem report (h : core.Alike core') {b b' : Board F V E T O}
    (hb : b.Alike core.syncs.performed core'.syncs.performed b') :
    core'.report b' = core.report b := by
  rw [Core.report, hb.updates, h.options, hb.syncs.sub_performed, Core.report]

theorem adopt (h : core.Alike core') {b b' : Board F V E T O} {k k' : Nat}
    (hb : b.Alike k k' b') : (core.adopt b).Alike (core'.adopt b') :=
  ⟨h.options, congrArg Stage.bound hb.graph, hb.scheduler, hb.abort, hb.syncs.syncs⟩

theorem afterRun (h : core.Alike core') {b b' : Board F V E T O} {k k' : Nat}
    (hb : b.Alike k k' b') (result : Except EngineError Unit) :
    (core.afterRun b result).Alike (core'.afterRun b' result) := by
  refine ⟨h.options, congrArg Stage.bound hb.graph, ?_, rfl, hb.syncs.syncs⟩
  simp only [Core.afterRun]
  split
  · exact hb.scheduler
  · exact hb.scheduler.reset

theorem conclude? (h : core.Alike core') {m m' : Machine F V E T O}
    (hm : m.Alike core.syncs.performed core'.syncs.performed m') {conclusion : Conclusion}
    {next : Core F V E T} (hc : core.conclude? m = some (conclusion, next)) :
    ∃ next', core'.conclude? m' = some (conclusion, next') ∧ next.Alike next' := by
  cases concludes_of_eq_some hc with
  | crashed hs =>
    refine ⟨_, ?_, h.adopt hm.board⟩
    rw [Core.conclude?, hm.status, hs]
  | converged hs =>
    refine ⟨_, ?_, h.afterRun hm.board (.ok ())⟩
    rw [Core.conclude?, hm.status, hs, h.report hm.board]
  | @stopped e hs =>
    refine ⟨_, ?_, h.afterRun hm.board (.error e)⟩
    rw [Core.conclude?, hm.status, hs]

/-- Every run of one is a run of the other, with the same history and the same result. -/
theorem run (h : core.Alike core') (r : Run behaviour core) :
    ∃ r' : Run behaviour core', r'.conclusion = r.conclusion ∧
      r'.last.board.history = r.last.board.history ∧ r.next.Alike r'.next := by
  obtain ⟨first, last, conclusion, next, hlaunched, hreached, hconcluded⟩ := r
  obtain ⟨first', hlaunched', hfirst⟩ := h.launch_ok hlaunched
  obtain ⟨last', hreached', hlast⟩ := hfirst.reaches hreached
  obtain ⟨next', hconcluded', hnext⟩ := h.conclude? hlast hconcluded
  exact ⟨⟨first', last', conclusion, next', hlaunched', hreached', hconcluded'⟩, rfl,
    hlast.board.history, hnext⟩

end Alike

end Core

end VertexEngine
