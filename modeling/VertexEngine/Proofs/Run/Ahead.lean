import VertexEngine.Proofs.Run.Evaluation
import VertexEngine.Proofs.Run.Step
import VertexEngine.Proofs.Run.Trace

/-!
# What a worker has begun

A pool of one worker takes many small steps where the sequential loop takes a turn.  The way to
compare them is to let the worker finish: `Phase.ahead` runs what it has begun to the end of the
turn.

Every step within a turn leaves what is ahead as it is, which is `Phase.Step.ahead_eq`; and the step
that takes a task, or finds none, is worth a whole turn, which is `Phase.Step.ahead_turn`.  What the
engines note about themselves does not count; `Board.plain` is a board without it.
-/

namespace VertexEngine

variable {F V E T O : Type} {behaviour : Behaviour F V E T O}

/-! ## Plain boards -/

/-- Whether an event is about the work that is done, and not about the engine that does it. -/
def Event.isWork : Event F O → Bool
  | loopStarted _ | loopDrained _ | workerStarted _ | workerMissing _ | workerFinished _ => false
  | _ => true

namespace Board

/-- A board without what the engines note about themselves. -/
def plain (b : Board F V E T O) : Board F V E T O :=
  { b with
    scheduler := { queue := b.scheduler.queue }
    history := b.history.filter Event.isWork }

variable (b : Board F V E T O)

theorem plain_note_engine {e : Event F O} (h : e.isWork = false) : (b.note e).plain = b.plain := by
  simp only [note, plain, List.filter_cons, h]
  rfl

theorem perform_plain (x : Execution F) (action : Action F V O) :
    b.plain.perform x action =
      ((b.perform x action).1, (b.perform x action).2.1, (b.perform x action).2.2.plain) := by
  cases action with
  | schedule v update priority =>
    have hcheck : b.plain.checkRequest v priority = b.checkRequest v priority := rfl
    simp only [perform, hcheck]
    split
    · rfl
    · rfl
  | readShared sync =>
    have hvalue : b.plain.syncs.value? sync = b.syncs.value? sync := rfl
    simp only [perform, hvalue]
    split
    · rfl
    · rfl
  | _ => rfl

theorem run_plain (x : Execution F) (program : Program F V T O Unit) :
    b.plain.run x program = ((b.run x program).1, (b.run x program).2.plain) := by
  induction program generalizing b x with
  | ask action next ih =>
    simp only [run, perform_plain]
    exact ih _ _ _
  | _ => rfl

theorem execute_plain (behaviour : Behaviour F V E T O) (t : Task F) :
    b.plain.execute behaviour t =
      ((b.execute behaviour t).1, (b.execute behaviour t).2.plain) := by
  have hload : b.plain.load behaviour t = b.load behaviour t := rfl
  unfold execute
  rw [hload]
  split
  · rfl
  · exact b.run_plain _ _

end Board

/-- What an engine has come to, without what it notes about itself. -/
def plainly (r : Board F V E T O × RunStatus) : Board F V E T O × RunStatus :=
  (r.1.plain, r.2)

theorem Board.evaluateDue_plain (b : Board F V E T O) (due : List (Sync V T)) :
    b.plain.evaluateDue due = plainly (b.evaluateDue due) := by
  induction due generalizing b with
  | nil => rfl
  | cons sync rest ih =>
    rw [evaluateDue_cons, evaluateDue_cons]
    have hgraph : b.plain.graph = b.graph := rfl
    rw [hgraph]
    cases sync.spec.evaluate b.graph.vertices with
    | none => rfl
    | some x => exact ih ({ b with syncs := b.syncs.publish sync.id x }.note (.published sync.id))

theorem Sequential.settle_plain (b : Board F V E T O) (v : VertexId) (outcome : Outcome) :
    settle b.plain v outcome = plainly (settle b v outcome) := by
  cases outcome with
  | finished =>
    rw [Board.settle_finished, Board.settle_finished]
    exact b.increment.evaluateDue_plain _
  | failed e => rfl
  | panicked => rfl

/-! ## A turn on a plain board -/

/-- The board after a task was taken out of its queue. -/
def Board.handOut (b : Board F V E T O) (t : Task F) (queue : TaskQueue F) : Board F V E T O :=
  { b with scheduler := { queue } }.note (.dispatched t)

namespace Sequential

section

variable {b c : Board F V E T O} {queue : TaskQueue F}

theorem turn_abort (ha : b.abort = true) :
    plainly (turn behaviour b) = (b.plain, .ended (.error .aborted)) := by
  rw [turn, if_pos ha]
  rfl

theorem turn_none (ha : b.abort = false) (hp : b.scheduler.queue.pop = (none, queue)) :
    plainly (turn behaviour b) = ({ b.plain with scheduler := { queue } }, .ended (.ok ())) := by
  have hnext : b.scheduler.next = (none, { b.scheduler with queue }) := by
    rw [Scheduler.next, hp]
  rw [turn, if_neg (by simp [ha]), hnext]
  rfl

theorem turn_some {t : Task F} (ha : b.abort = false)
    (hp : b.scheduler.queue.pop = (some t, queue))
    (hc : c.plain = b.plain.handOut t queue) :
    plainly (turn behaviour b) =
      plainly (settle (c.execute behaviour t).2 t.vertex (c.execute behaviour t).1) := by
  have hnext : b.scheduler.next = (some t, { b.scheduler with queue }) := by
    rw [Scheduler.next, hp]
  rw [turn, if_neg (by simp [ha]), hnext]
  dsimp only
  generalize hd : { b with scheduler := { b.scheduler with queue } }.note (.dispatched t) = d
  have hplain : d.plain = c.plain := by
    rw [hc, ← hd]
    rfl
  have hd := d.execute_plain behaviour t
  have hc := c.execute_plain behaviour t
  rw [hplain, hc] at hd
  obtain ⟨houtcome, hboard⟩ := Prod.mk.inj hd
  rw [← settle_plain, ← settle_plain, houtcome, hboard]

/-- A turn does not look at what the engine notes about itself. -/
theorem turn_congr (h : b.plain = c.plain) :
    plainly (turn behaviour b) = plainly (turn behaviour c) := by
  have habort : b.plain.abort = c.plain.abort := by rw [h]
  have hqueue : b.plain.scheduler.queue.pop = c.plain.scheduler.queue.pop := by rw [h]
  by_cases ha : c.abort = true
  · rw [turn_abort ha, turn_abort (b := b) (habort.trans ha), h]
  · rw [Bool.not_eq_true] at ha
    rcases hp : c.scheduler.queue.pop with ⟨_ | t, queue⟩
    · rw [turn_none ha hp, turn_none (b := b) (habort.trans ha) (hqueue.trans hp), h]
    · have hd : (c.plain.handOut t queue).plain = c.plain.handOut t queue := by
        simp [Board.handOut, Board.plain, Board.note, Event.isWork]
      have hd' : (c.plain.handOut t queue).plain = b.plain.handOut t queue := by rw [hd, h]
      rw [turn_some ha hp hd, turn_some (b := b) (habort.trans ha) (hqueue.trans hp) hd']

end

end Sequential

/-! ## What a worker has begun -/

/-- A worker that asks while nothing is in flight is never told to wait. -/
theorem Scheduler.dispatch_of_idle (s : Scheduler F) (hf : s.inFlight = [])
    (hc : s.closed = false) (abort : Bool) :
    s.dispatch abort =
      if abort then (.finish, s)
      else
        match s.queue.pop with
        | (some t, queue) => (.run t, { s with queue, inFlight := [t.vertex] })
        | (none, queue) => (.finish, { s with queue }) := by
  have hfree : (fun v => !s.inFlight.contains v) = fun _ => true := by
    funext v
    simp [hf]
  rw [dispatch, hc, Bool.false_or, hfree, ← TaskQueue.pop, hf]
  rfl

namespace Threaded

/-- The result of a pool that has recorded this error, if any. -/
def verdict (error : Option EngineError) (abort : Bool) : Except EngineError Unit :=
  match error with
  | some e => .error e
  | none => if abort then .error .aborted else .ok ()

/-- Whether a worker takes no more tasks. -/
def Phase.isEnding : Phase F V T O → Bool
  | missing | closing | leaving | left _ => true
  | _ => false

/-- What the only worker of a pool comes to when it finishes what it has begun. -/
def Phase.ahead (error : Option EngineError) (b : Board F V E T O) :
    Phase F V T O → Board F V E T O × RunStatus
  | starting | idle => (b, .running)
  | running x rest => Sequential.settle (b.run x rest).2 x.task.vertex (b.run x rest).1
  | returned v outcome | completed v outcome => Sequential.settle b v outcome
  | counting due => b.evaluateDue due
  | folding sync total unread due =>
    match (sync.spec.readInto b.graph unread total).bind sync.spec.finish with
    | none => (b, .crashed)
    | some value =>
      ({ b with syncs := b.syncs.publish sync.id value }.note (.published sync.id)).evaluateDue due
  | missing | closing | leaving | left _ => (b, .ended (verdict error b.abort))

namespace Phase.Step

variable {index : Nat} {b b' : Board F V E T O} {old new : Phase F V T O}
  {first e : Option EngineError}

/-- A worker that has recorded an error takes no more tasks. -/
theorem not_isEnding (h : old.Step behaviour index b new b' e) (hn : new.isEnding = false) :
    old.isEnding = false ∧ e = none := by
  cases h <;> first | exact ⟨rfl, rfl⟩ | cases hn

/-- A step within a turn leaves what is ahead as it is. -/
theorem ahead_eq (h : old.Step behaviour index b new b' e) (hidle : old ≠ .idle)
    (hfirst : old.isEnding = false → first = none) (hdue : ∀ sync ∈ old.due, sync.spec.Total)
    (hsize : b.graph.values.size ≤ Graph.maxVertices) :
    plainly (new.ahead (first <|> e) b') = plainly (old.ahead first b) := by
  cases h with
  | start => exact congrArg (·, RunStatus.running) (b.plain_note_engine rfl)
  | withdraw =>
    cases first <;> rfl
  | retire => exact absurd rfl hidle
  | load => exact absurd rfl hidle
  | miss => exact absurd rfl hidle
  | ask x action next =>
    simp only [ahead, Board.run, Board.perform_task]
  | finish x => rfl
  | fail x e => rfl
  | panic x => rfl
  | release v outcome =>
    simp only [ahead]
    rw [← Sequential.settle_plain, ← Sequential.settle_plain]
    rfl
  | count v => rfl
  | noteFailed v e =>
    rw [hfirst rfl]
    rfl
  | notePanicked v =>
    rw [hfirst rfl]
    rfl
  | close =>
    cases first <;> rfl
  | rest => rfl
  | evaluate sync due =>
    have hread := sync.spec.evaluate_eq_readInto b.graph hsize
    cases hvalue : sync.spec.evaluate b.graph.vertices with
    | none => simp only [ahead, Board.evaluateDue_cons, ← hread, hvalue]
    | some value => simp only [ahead, Board.evaluateDue_cons, ← hread, hvalue]
  | skip sync total v unread due hv => simp only [ahead, SyncSpec.readInto, hv]
  | fold sync total v unread due hv ht => simp only [ahead, SyncSpec.readInto, hv, ht]
  | @crash sync total v unread due x hv ht =>
    have hsome := (hdue sync List.mem_cons_self).fold total v x
    rw [ht] at hsome
    cases hsome
  | publish sync total due hv =>
    simp only [ahead, SyncSpec.readInto, Option.bind_some, hv]
  | crashAtEnd sync total due hv =>
    have hsome := (hdue sync List.mem_cons_self).finish total
    rw [hv] at hsome
    cases hsome
  | leave =>
    cases first <;> exact Prod.ext (b.plain_note_engine rfl) rfl

/-- The step that takes a task, or finds none, is worth a turn. -/
theorem ahead_turn (h : (idle : Phase F V T O).Step behaviour index b new b' e)
    (hflight : b.scheduler.inFlight = []) (hclosed : b.scheduler.closed = false) :
    plainly (new.ahead e b') = plainly (Sequential.turn behaviour b) := by
  have hdispatch := b.scheduler.dispatch_of_idle hflight hclosed b.abort
  by_cases ha : b.abort = true
  · rw [if_pos ha] at hdispatch
    rw [Sequential.turn_abort ha]
    cases h with
    | retire hd =>
      obtain ⟨-, rfl⟩ := Prod.mk.inj (hdispatch.symm.trans hd)
      rw [ahead, verdict, if_pos ha]
      rfl
    | load hd hl => cases hdispatch.symm.trans hd
    | miss hd hl => cases hdispatch.symm.trans hd
  · rw [if_neg ha] at hdispatch
    rw [Bool.not_eq_true] at ha
    rcases hp : b.scheduler.queue.pop with ⟨_ | t, queue⟩
    · rw [hp] at hdispatch
      rw [Sequential.turn_none ha hp]
      cases h with
      | retire hd =>
        obtain ⟨-, rfl⟩ := Prod.mk.inj (hdispatch.symm.trans hd)
        rw [ahead, verdict, if_neg (by simp [ha])]
        rfl
      | load hd hl => cases hdispatch.symm.trans hd
      | miss hd hl => cases hdispatch.symm.trans hd
    · rw [hp] at hdispatch
      cases h with
      | retire hd => cases hdispatch.symm.trans hd
      | load hd hl =>
        obtain ⟨ht, rfl⟩ := Prod.mk.inj (hdispatch.symm.trans hd)
        cases ht
        have hc : ({ b with scheduler := { b.scheduler with queue, inFlight := [t.vertex] } }.note
            (.dispatched t)).plain = b.plain.handOut t queue := rfl
        rw [Sequential.turn_some ha hp hc, Board.execute, hl]
        rfl
      | miss hd hl =>
        obtain ⟨ht, rfl⟩ := Prod.mk.inj (hdispatch.symm.trans hd)
        cases ht
        have hc : ({ b with scheduler := { b.scheduler with queue, inFlight := [t.vertex] } }.note
            (.dispatched t)).plain = b.plain.handOut t queue := rfl
        rw [Sequential.turn_some ha hp hc, Board.execute, hl]
        rfl

end Phase.Step

end Threaded

/-! ## The tasks of a turn -/

/-- The task that an event says was taken. -/
def Event.task? : Event F O → Option (Task F)
  | .dispatched t => some t
  | _ => none

namespace Board

/-- The tasks that were taken, the latest first. -/
def tasks (b : Board F V E T O) : List (Task F) :=
  b.history.filterMap Event.task?

theorem plain_tasks (b : Board F V E T O) : b.plain.tasks = b.tasks := by
  unfold tasks plain
  rw [List.filterMap_filter]
  refine List.filterMap_congr fun e _ => ?_
  cases e <;> rfl

theorem perform_tasks (b : Board F V E T O) (x : Execution F) (action : Action F V O) :
    (b.perform x action).2.2.tasks = b.tasks :=
  b.perform_filterMap x action fun e he => by cases e <;> first | rfl | cases he

theorem Quiet.tasks {b b' : Board F V E T O} (h : b.Quiet b') : b'.tasks = b.tasks :=
  h.filterMap_history fun e he => by cases e <;> first | rfl | cases he

theorem run_tasks (b : Board F V E T O) (x : Execution F) (program : Program F V T O Unit) :
    (b.run x program).2.tasks = b.tasks := by
  induction program generalizing b x with
  | ask action next ih => exact (ih _ _ _).trans (b.perform_tasks x action)
  | _ => rfl

theorem evaluateDue_tasks (b : Board F V E T O) (due : List (Sync V T)) :
    (b.evaluateDue due).1.tasks = b.tasks :=
  (b.quiet_evaluateDue due).1.tasks

end Board

theorem Sequential.settle_tasks (b : Board F V E T O) (v : VertexId) (outcome : Outcome) :
    (settle b v outcome).1.tasks = b.tasks := by
  cases outcome with
  | finished => exact b.increment.evaluateDue_tasks _
  | _ => rfl

theorem Board.execute_tasks (behaviour : Behaviour F V E T O) (b : Board F V E T O) (t : Task F) :
    (b.execute behaviour t).2.tasks = b.tasks := by
  unfold execute
  split
  · rfl
  · exact b.run_tasks _ _

/-- At most one task is taken in a turn. -/
theorem Sequential.tasks_turn_le (behaviour : Behaviour F V E T O) (b : Board F V E T O) :
    (turn behaviour b).1.tasks.length ≤ b.tasks.length + 1 := by
  unfold turn
  split
  · exact Nat.le_succ _
  · split
    · exact Nat.le_succ _
    · rw [settle_tasks, Board.execute_tasks]
      exact Nat.le_refl _

/-- No more task is taken in a turn. -/
theorem Threaded.Phase.ahead_tasks (error : Option EngineError) (b : Board F V E T O)
    (w : Phase F V T O) : (w.ahead error b).1.tasks = b.tasks := by
  cases w with
  | running x program => exact (Sequential.settle_tasks ..).trans (b.run_tasks x program)
  | returned v outcome => exact Sequential.settle_tasks ..
  | completed v outcome => exact Sequential.settle_tasks ..
  | counting due => exact b.evaluateDue_tasks due
  | folding sync total unread due =>
    simp only [ahead]
    split
    · rfl
    · exact Board.evaluateDue_tasks _ _
  | _ => rfl

end VertexEngine
