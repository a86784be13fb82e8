import VertexEngine.Proofs.Queue.Alike
import VertexEngine.Proofs.Run.Evaluation

/-!
# Runs that cannot be told apart

Two machines are alike if their schedulers are, and everything else that programs, workers and syncs
can see is the same.  How many evaluations of syncs there were before the run is not seen; it is the
pair of numbers that the relations take along.

Whatever one of two machines that are alike can do, the other can do as well, and they are alike
afterwards: `Machine.Alike.reaches`.  Their histories are equal all the way.
-/

namespace VertexEngine

variable {F V E T O : Type} {behaviour : Behaviour F V E T O} {k k' : Nat}

/-! ## Syncs -/

/-- The same syncs with the same values, and as many evaluations since there were `k` and `k'`. -/
structure SyncSet.Alike (k k' : Nat) (s s' : SyncSet V T) : Prop where
  syncs : s'.syncs = s.syncs
  performed : ∃ n, s.performed = k + n ∧ s'.performed = k' + n

namespace SyncSet.Alike

variable {s s' : SyncSet V T}

theorem symm (h : s.Alike k k' s') : s'.Alike k' k s := by
  obtain ⟨n, hn, hn'⟩ := h.performed
  exact ⟨h.syncs.symm, n, hn', hn⟩

/-- The evaluations of the run so far are equally many. -/
theorem sub_performed (h : s.Alike k k' s') : s'.performed - k' = s.performed - k := by
  obtain ⟨n, hn, hn'⟩ := h.performed
  omega

theorem value? (h : s.Alike k k' s') (id : SyncId) : s'.value? id = s.value? id := by
  rw [SyncSet.value?, h.syncs, SyncSet.value?]

theorem due (h : s.Alike k k' s') (updates : Nat) : s'.due updates = s.due updates := by
  rw [SyncSet.due, h.syncs, SyncSet.due]

theorem publish (h : s.Alike k k' s') (id : SyncId) (value : T) :
    (s.publish id value).Alike k k' (s'.publish id value) := by
  obtain ⟨n, hn, hn'⟩ := h.performed
  exact ⟨congrArg (List.map _) h.syncs, n + 1, congrArg (· + 1) hn, congrArg (· + 1) hn'⟩

theorem evaluate (h : s.Alike k k' s') (g : Graph V E) (due : List (Sync V T)) :
    (s'.evaluate g due).2 = (s.evaluate g due).2 ∧
      (s.evaluate g due).1.Alike k k' (s'.evaluate g due).1 := by
  induction due generalizing s s' with
  | nil => exact ⟨rfl, h⟩
  | cons sync rest ih =>
    simp only [SyncSet.evaluate]
    cases sync.spec.evaluate g.vertices with
    | none => exact ⟨rfl, h⟩
    | some x =>
      obtain ⟨hround, hsyncs⟩ := ih (h.publish sync.id x)
      simp only [hround, true_and]
      exact hsyncs

end SyncSet.Alike

/-! ## Boards -/

/-- Everything that is seen in a run is the same. -/
structure Board.Alike (k k' : Nat) (b b' : Board F V E T O) : Prop where
  graph : b'.graph = b.graph
  scheduler : b.scheduler.Alike b'.scheduler
  abort : b'.abort = b.abort
  syncs : b.syncs.Alike k k' b'.syncs
  updates : b'.updates = b.updates
  history : b'.history = b.history

namespace Board.Alike

variable {b b' : Board F V E T O}

theorem symm (h : b.Alike k k' b') : b'.Alike k' k b :=
  ⟨h.graph.symm, h.scheduler.symm, h.abort.symm, h.syncs.symm, h.updates.symm, h.history.symm⟩

theorem note (h : b.Alike k k' b') (e : Event F O) : (b.note e).Alike k k' (b'.note e) :=
  ⟨h.graph, h.scheduler, h.abort, h.syncs, h.updates, congrArg (e :: ·) h.history⟩

theorem withScheduler (h : b.Alike k k' b') {s s' : Scheduler F} (hs : s.Alike s') :
    { b with scheduler := s }.Alike k k' { b' with scheduler := s' } :=
  ⟨h.graph, hs, h.abort, h.syncs, h.updates, h.history⟩

theorem withSyncs (h : b.Alike k k' b') {s s' : SyncSet V T} (hs : s.Alike k k' s') :
    { b with syncs := s }.Alike k k' { b' with syncs := s' } :=
  ⟨h.graph, h.scheduler, h.abort, hs, h.updates, h.history⟩

theorem requestAbort (h : b.Alike k k' b') :
    { b with abort := true }.Alike k k' { b' with abort := true } :=
  ⟨h.graph, h.scheduler, rfl, h.syncs, h.updates, h.history⟩

theorem increment (h : b.Alike k k' b') : b.increment.Alike k k' b'.increment := by
  have hcount : b'.updates + 1 = b.updates + 1 := congrArg (· + 1) h.updates
  refine ⟨h.graph, h.scheduler, h.abort, h.syncs, hcount, ?_⟩
  simp only [Board.increment, Board.note, hcount, h.history]

theorem noteRound (h : b.Alike k k' b') (r : SyncRound) :
    (b.noteRound r).Alike k k' (b'.noteRound r) := by
  unfold Board.noteRound
  induction r.published generalizing b b' with
  | nil => exact h
  | cons sync rest ih => exact ih (h.note (.published sync))

theorem schedule (h : b.Alike k k' b') (v : VertexId) (update : F) (priority : Float) :
    (b.schedule v update priority).Alike k k' (b'.schedule v update priority) := by
  obtain ⟨hplacement, hscheduler⟩ := h.scheduler.schedule v update priority
  simp only [Board.schedule, hplacement]
  exact (h.withScheduler hscheduler).note _

theorem perform (h : b.Alike k k' b') (x : Execution F) (action : Action F V O) :
    (b'.perform x action).1 = (b.perform x action).1 ∧
      (b'.perform x action).2.1 = (b.perform x action).2.1 ∧
      (b.perform x action).2.2.Alike k k' (b'.perform x action).2.2 := by
  cases action with
  | read v => exact ⟨congrArg (·.value v) h.graph, rfl, h⟩
  | write value =>
    exact ⟨rfl, rfl, congrArg (·.withValue x.task.vertex value) h.graph, h.scheduler, h.abort,
      h.syncs, h.updates, h.history⟩
  | schedule v update priority =>
    have hcheck : b'.checkRequest v priority = b.checkRequest v priority := by
      rw [checkRequest, h.graph, checkRequest]
    simp only [Board.perform, hcheck]
    split
    · exact ⟨rfl, rfl, h⟩
    · exact ⟨rfl, rfl, (h.note _).schedule v update priority⟩
  | countScheduled => exact ⟨rfl, rfl, h⟩
  | pollAbort => exact ⟨h.abort, rfl, h⟩
  | raiseAbort => exact ⟨rfl, rfl, h.requestAbort⟩
  | readShared sync =>
    simp only [Board.perform, h.syncs.value?]
    split
    · exact ⟨rfl, rfl, h⟩
    · exact ⟨rfl, rfl, h⟩
  | observe o => exact ⟨rfl, rfl, h.note _⟩

theorem load (h : b.Alike k k' b') (t : Task F) : b'.load behaviour t = b.load behaviour t := by
  rw [Board.load, h.graph, Board.load]

theorem completes (h : b.Alike k k' b') {x : Execution F} {program : Program F V T O Unit}
    {outcome : Outcome} {c : Board F V E T O} (hc : b.Completes x program outcome c) :
    ∃ c', b'.Completes x program outcome c' ∧ c.Alike k k' c' := by
  induction hc generalizing b' with
  | abort _ ih =>
    obtain ⟨c', hc', hlike⟩ := ih h.requestAbort
    exact ⟨c', .abort hc', hlike⟩
  | done b x => exact ⟨_, .done b' x, h.note _⟩
  | fail b x e => exact ⟨_, .fail b' x e, h⟩
  | panic b x => exact ⟨_, .panic b' x, h⟩
  | @ask b x action next outcome c _ ih =>
    obtain ⟨hanswer, hexecution, hboard⟩ := h.perform x action
    obtain ⟨c', hc', hlike⟩ := ih hboard
    rw [← hanswer, ← hexecution] at hc'
    exact ⟨c', .ask hc', hlike⟩

theorem executes (h : b.Alike k k' b') {t : Task F} {outcome : Outcome} {c : Board F V E T O}
    (hx : b.Executes behaviour t outcome c) :
    ∃ c', b'.Executes behaviour t outcome c' ∧ c.Alike k k' c' := by
  cases hx with
  | missing hl => exact ⟨b', .missing ((h.load t).trans hl), h⟩
  | ran hl hc =>
    obtain ⟨c', hc', hlike⟩ := h.completes hc
    exact ⟨c', .ran ((h.load t).trans hl) hc', hlike⟩

theorem evaluateDue (h : b.Alike k k' b') (due : List (Sync V T)) :
    (b'.evaluateDue due).2 = (b.evaluateDue due).2 ∧
      (b.evaluateDue due).1.Alike k k' (b'.evaluateDue due).1 := by
  obtain ⟨hround, hsyncs⟩ := h.syncs.evaluate b.graph due
  have hsame : b'.syncs.evaluate b'.graph due = b'.syncs.evaluate b.graph due := by rw [h.graph]
  simp only [Board.evaluateDue, hsame, hround, true_and]
  exact (h.withSyncs hsyncs).noteRound _

end Board.Alike

/-! ## The sequential loop -/

namespace Sequential

variable {b b' : Board F V E T O}

theorem settle_alike (h : b.Alike k k' b') (v : VertexId) (outcome : Outcome) :
    (settle b' v outcome).2 = (settle b v outcome).2 ∧
      (settle b v outcome).1.Alike k k' (settle b' v outcome).1 := by
  cases outcome with
  | finished =>
    have hdue : b'.increment.syncs.due b'.increment.updates =
        b.increment.syncs.due b.increment.updates := by
      rw [h.increment.updates, h.increment.syncs.due]
    rw [Board.settle_finished, Board.settle_finished, hdue]
    exact h.increment.evaluateDue _
  | failed e => exact ⟨rfl, h.note _⟩
  | panicked => exact ⟨rfl, h.note _⟩

theorem Turn.alike (h : b.Alike k k' b') {r : Board F V E T O × RunStatus}
    (ht : Turn behaviour b r) :
    ∃ r', Turn behaviour b' r' ∧ r'.2 = r.2 ∧ r.1.Alike k k' r'.1 := by
  obtain ⟨hfound, hrest⟩ := h.scheduler.next
  rcases hn' : b'.scheduler.next with ⟨found', scheduler'⟩
  rw [hn'] at hfound hrest
  cases ht with
  | aborted ha => exact ⟨_, .aborted (h.abort.trans ha), rfl, h⟩
  | drained ha hn =>
    rw [hn] at hfound hrest
    obtain rfl : found' = none := hfound
    exact ⟨_, .drained (h.abort.trans ha) hn', rfl, (h.withScheduler hrest).note _⟩
  | @ran scheduler t outcome c ha hn hx =>
    rw [hn] at hfound hrest
    obtain rfl : found' = some t := hfound
    obtain ⟨c', hx', hlike⟩ := ((h.withScheduler hrest).note (.dispatched t)).executes hx
    obtain ⟨hstatus, hboard⟩ := settle_alike hlike t.vertex outcome
    exact ⟨_, .ran (h.abort.trans ha) hn' hx', hstatus, hboard⟩

end Sequential

/-! ## The pool -/

namespace Threaded.Pool

/-- The same workers and the same record of errors, on boards that are alike. -/
structure Alike (k k' : Nat) (p p' : Pool F V E T O) : Prop where
  board : p.board.Alike k k' p'.board
  workers : p'.workers = p.workers
  firstError : p'.firstError = p.firstError
  joined : p'.joined = p.joined
  status : p'.status = p.status

namespace Alike

variable {p p' : Pool F V E T O}

theorem symm (h : p.Alike k k' p') : p'.Alike k' k p :=
  ⟨h.board.symm, h.workers.symm, h.firstError.symm, h.joined.symm, h.status.symm⟩

theorem start {b b' : Board F V E T O} (h : b.Alike k k' b') (n : Nat) :
    (Pool.start b n).Alike k k' (Pool.start b' n) :=
  ⟨h, rfl, rfl, rfl, rfl⟩

theorem moved (h : p.Alike k k' p') (index : Nat) (phase : Phase F V T O)
    {b b' : Board F V E T O} (hb : b.Alike k k' b') :
    (p.moved index phase b).Alike k k' (p'.moved index phase b') :=
  ⟨hb, congrArg (·.set index phase) h.workers, h.firstError, h.joined, h.status⟩

theorem recorded (h : p.Alike k k' p') (e : EngineError) :
    { p with firstError := record p.firstError e }.Alike k k'
      { p' with firstError := record p'.firstError e } :=
  ⟨h.board, h.workers, congrArg (record · e) h.firstError, h.joined, h.status⟩

theorem ask (h : p.Alike k k' p') (index : Nat) :
    Option.Rel (Alike k k') (p.ask behaviour index) (p'.ask behaviour index) := by
  obtain ⟨hanswer, hscheduler⟩ := h.board.scheduler.dispatch p.board.abort
  unfold Pool.ask
  rw [h.board.abort]
  rcases hd : p.board.scheduler.dispatch p.board.abort with ⟨answer, scheduler⟩
  rcases hd' : p'.board.scheduler.dispatch p.board.abort with ⟨answer', scheduler'⟩
  rw [hd, hd'] at hanswer hscheduler
  obtain rfl : answer' = answer := hanswer
  have hboard := h.board.withScheduler hscheduler
  cases answer' with
  | wait => exact .none
  | finish => exact .some (h.moved index .leaving hboard)
  | run t =>
    have hnoted := hboard.note (.dispatched t)
    dsimp only at hnoted ⊢
    rw [hnoted.load]
    exact .some (h.moved index _ hnoted)

theorem runOn (h : p.Alike k k' p') (index : Nat) (x : Execution F)
    (program : Program F V T O Unit) :
    (p.runOn index x program).Alike k k' (p'.runOn index x program) := by
  cases program with
  | done _ => exact h.moved index _ (h.board.note _)
  | fail e => exact h.moved index _ h.board
  | panic => exact h.moved index _ h.board
  | ask action next =>
    obtain ⟨hanswer, hexecution, hboard⟩ := h.board.perform x action
    simp only [Pool.runOn, hanswer, hexecution]
    exact h.moved index _ hboard

theorem settle (h : p.Alike k k' p') (index : Nat) (v : VertexId) (outcome : Outcome) :
    (p.settle index v outcome).Alike k k' (p'.settle index v outcome) := by
  cases outcome with
  | finished =>
    have hboard := h.board.increment
    simp only [Pool.settle, hboard.updates, hboard.syncs.due]
    exact h.moved index _ hboard
  | failed e => exact (h.recorded e).moved index .closing (h.board.note _)
  | panicked => exact (h.recorded .workerPanicked).moved index .closing (h.board.note _)

theorem foldOn (h : p.Alike k k' p') (index : Nat) (sync : Sync V T) (total : T)
    (due : List (Sync V T)) (unread : List VertexId) :
    (p.foldOn index sync total due unread).Alike k k'
      (p'.foldOn index sync total due unread) := by
  cases unread with
  | nil =>
    simp only [Pool.foldOn]
    split
    · exact h.moved index _ ((h.board.withSyncs (h.board.syncs.publish _ _)).note _)
    · exact h.moved index _ h.board
  | cons v unread =>
    simp only [Pool.foldOn, h.board.graph]
    split
    · exact h.moved index _ h.board
    · split
      · exact h.moved index _ h.board
      · exact h.moved index _ h.board

theorem stepWorker (h : p.Alike k k' p') (index : Nat) :
    Option.Rel (Alike k k') (p.stepWorker behaviour index) (p'.stepWorker behaviour index) := by
  unfold Pool.stepWorker
  rw [h.workers]
  cases p.workers[index]? with
  | none => exact .none
  | some w =>
    cases w with
    | starting => exact .some (h.moved index _ (h.board.note _))
    | missing => exact .some (h.moved index _ (h.board.withScheduler h.board.scheduler.close))
    | idle => exact h.ask index
    | running x rest => exact .some (h.runOn index x rest)
    | returned v outcome =>
      exact .some (h.moved index _ (h.board.withScheduler (h.board.scheduler.complete v)))
    | completed v outcome => exact .some (h.settle index v outcome)
    | closing => exact .some (h.moved index _ (h.board.withScheduler h.board.scheduler.close))
    | counting due =>
      cases due with
      | nil => exact .some (h.moved index _ h.board)
      | cons sync due =>
        simp only [h.board.graph]
        exact .some (h.moved index _ h.board)
    | folding sync total unread due => exact .some (h.foldOn index sync total due unread)
    | leaving => exact .some (h.moved index _ (h.board.note _))
    | left crashed => exact .none

theorem finish (h : p.Alike k k' p') : p.finish.Alike k k' p'.finish := by
  have hfirst := h.firstError
  unfold Pool.finish
  rw [h.board.abort]
  cases hf : p.firstError with
  | some e =>
    rw [hf] at hfirst
    simp only [hfirst]
    exact ⟨h.board, h.workers, rfl, h.joined, rfl⟩
  | none =>
    rw [hf] at hfirst
    simp only [hfirst]
    split
    · exact ⟨h.board, h.workers, rfl, h.joined, rfl⟩
    · exact ⟨h.board.note _, h.workers, rfl, h.joined, rfl⟩

theorem stepPool (h : p.Alike k k' p') : Option.Rel (Alike k k') p.stepPool p'.stepPool := by
  have hnext : p'.workers[p'.joined]? = p.workers[p.joined]? := by rw [h.workers, h.joined]
  have hjoined : p'.joined + 1 = p.joined + 1 := congrArg (· + 1) h.joined
  unfold Pool.stepPool
  simp only [hnext]
  split
  · exact .some h.finish
  · exact .some ⟨h.board, h.workers, h.firstError, hjoined, h.status⟩
  · exact .some ⟨h.board.withScheduler h.board.scheduler.close, h.workers,
      congrArg (record · .workerPanicked) h.firstError, hjoined, h.status⟩
  · exact .none

theorem step (h : p.Alike k k' p') (a : Actor) :
    Option.Rel (Alike k k') (p.step behaviour a) (p'.step behaviour a) := by
  unfold Pool.step
  rw [h.status]
  split
  · cases a with
    | worker index => exact h.stepWorker index
    | pool => exact h.stepPool
  · exact .none

theorem spawnFailed (h : p.Alike k k' p') (index : Nat) (reason : String) :
    (p.spawnFailed index reason).Alike k k' (p'.spawnFailed index reason) :=
  ⟨h.board.note _, by simp only [Pool.spawnFailed, h.workers],
    congrArg (record · (.workerSpawn reason)) h.firstError, h.joined, h.status⟩

end Alike

end Threaded.Pool

/-! ## Both engines -/

namespace Machine

/-- Machines of the same engine that have come equally far. -/
inductive Alike (k k' : Nat) : Machine F V E T O → Machine F V E T O → Prop
  | sequential {b b' : Board F V E T O} (h : b.Alike k k' b') (status : RunStatus) :
    Alike k k' (.sequential b status) (.sequential b' status)
  | threaded {p p' : Threaded.Pool F V E T O} (h : p.Alike k k' p') :
    Alike k k' (.threaded p) (.threaded p')

namespace Alike

variable {m m' : Machine F V E T O}

theorem symm (h : m.Alike k k' m') : m'.Alike k' k m := by
  cases h with
  | sequential h status => exact .sequential h.symm status
  | threaded h => exact .threaded h.symm

theorem board (h : m.Alike k k' m') : m.board.Alike k k' m'.board := by
  cases h with
  | sequential h _ => exact h
  | threaded h => exact h.board

theorem status (h : m.Alike k k' m') : m'.status = m.status := by
  cases h with
  | sequential _ _ => rfl
  | threaded h => exact h.status

theorem start (options : EngineOptions) {b b' : Board F V E T O} (h : b.Alike k k' b') :
    (Machine.start options b).Alike k k' (Machine.start options b') := by
  unfold Machine.start
  split
  · exact .sequential (h.note _) .running
  · exact .threaded (.start (h.note _) _)

theorem requestAbort (h : m.Alike k k' m') : m.requestAbort.Alike k k' m'.requestAbort := by
  cases h with
  | sequential h status => exact .sequential h.requestAbort status
  | threaded h =>
    exact .threaded ⟨h.board.requestAbort, h.workers, h.firstError, h.joined, h.status⟩

/-- What one of them can do, the other can do. -/
theorem step (h : m.Alike k k' m') {n : Machine F V E T O} (hs : m.Step behaviour n) :
    ∃ n', m'.Step behaviour n' ∧ n.Alike k k' n' := by
  cases hs with
  | turn ht =>
    cases h with
    | sequential h _ =>
      obtain ⟨⟨b', status'⟩, ht', rfl, hboard⟩ := ht.alike h
      exact ⟨_, .turn ht', .sequential hboard _⟩
  | @actor p q a ha =>
    cases h with
    | threaded h =>
      rename_i p'
      have hrel : Option.Rel (Threaded.Pool.Alike k k') (p.step behaviour a)
          (p'.step behaviour a) := h.step a
      rw [ha] at hrel
      cases hq : p'.step behaviour a with
      | none => rw [hq] at hrel; cases hrel
      | some q' =>
        rw [hq] at hrel
        cases hrel with
        | some hlike => exact ⟨_, .actor hq, .threaded hlike⟩
  | abort => exact ⟨_, .abort m', h.requestAbort⟩
  | @spawnFailed p index reason hr hj hi hs =>
    cases h with
    | threaded h =>
      refine ⟨_, .spawnFailed reason (h.status.trans hr) (h.joined.trans hj) ?_ ?_,
        .threaded (h.spawnFailed index reason)⟩
      · rw [h.workers]
        exact hi
      · rw [h.workers]
        exact hs

theorem reaches (h : m.Alike k k' m') {n : Machine F V E T O} (hr : m.Reaches behaviour n) :
    ∃ n', m'.Reaches behaviour n' ∧ n.Alike k k' n' := by
  induction hr with
  | refl => exact ⟨m', .refl, h⟩
  | tail _ hs ih =>
    obtain ⟨n', hreach, hlike⟩ := ih
    obtain ⟨q', hs', hlike'⟩ := hlike.step hs
    exact ⟨q', hreach.tail hs', hlike'⟩

end Alike

end Machine

end VertexEngine
