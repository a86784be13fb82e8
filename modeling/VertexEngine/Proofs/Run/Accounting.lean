import Mathlib.Algebra.GroupWithZero.Nat
import Mathlib.Algebra.Order.Group.Nat
import Mathlib.Data.List.Perm.Basic
import VertexEngine.Proofs.Run.Chronicle

/-!
# The books of a run

Every update is counted under a number of its own, and whoever counts it evaluates the syncs that
are due then.  So at any time the evaluations that were made, together with those that a worker
still has to make, are the ones that were due after the updates counted so far.

* `SyncSet.timetable` lists the evaluations that are due, and `length_timetable` counts them.
* `Pool.Serves` is what a step of a pool is about, and `Pool.serves` that every step is somebody's
  duty, or the loss of a worker that panics.
* `Machine.Books` is what holds at any time; `Chronicle.books` is the result about whole runs.
* `Machine.Orderly.outstanding_eq_nil` says that in the end nothing is left to be evaluated.
-/

namespace VertexEngine

variable {F V E T O : Type} {behaviour : Behaviour F V E T O}

/-! ## The timetable -/

namespace SyncSet

/-- The evaluations that are due after the first updates of a run, each with the number of the
update. -/
def timetable (s : SyncSet V T) (updates : Nat) : List (Nat × SyncId) :=
  (List.range' 1 updates).flatMap fun n => (s.due n).map fun sync => (n, sync.id)

theorem timetable_succ (s : SyncSet V T) (n : Nat) :
    s.timetable (n + 1) = s.timetable n ++ (s.due (n + 1)).map fun sync => (n + 1, sync.id) := by
  rw [timetable, List.range'_concat, List.flatMap_append, List.flatMap_singleton, Nat.one_mul,
    Nat.add_comm 1]
  rfl

theorem due_eq_of_registered {s s' : SyncSet V T} (h : s'.registered = s.registered) (n : Nat) :
    ((s'.due n).map fun sync => (n, sync.id)) = (s.due n).map fun sync => (n, sync.id) := by
  have hids : (s'.due n).map (·.id) = (s.due n).map (·.id) := by
    rw [SyncSet.map_id_due, SyncSet.map_id_due, h]
  have hpairs := congrArg (List.map fun id => (n, id)) hids
  rw [List.map_map, List.map_map] at hpairs
  exact hpairs

theorem timetable_congr {s s' : SyncSet V T} (h : s'.registered = s.registered) (updates : Nat) :
    s'.timetable updates = s.timetable updates :=
  List.flatMap_congr fun n _ => due_eq_of_registered h n

/-- With one more update, the syncs whose interval ends there are evaluated once more. -/
theorem sum_div_succ (syncs : List (Sync V T)) (n : Nat) :
    ((syncs.filter fun sync => 0 < sync.spec.interval).map fun sync =>
        (n + 1) / sync.spec.interval).sum =
      ((syncs.filter fun sync => 0 < sync.spec.interval).map fun sync =>
        n / sync.spec.interval).sum +
      (syncs.filter fun sync => sync.spec.isDue (n + 1)).length := by
  induction syncs with
  | nil => rfl
  | cons sync rest ih =>
    by_cases hpos : 0 < sync.spec.interval
    · rw [List.filter_cons_of_pos (by simpa using hpos), List.map_cons, List.map_cons,
        List.sum_cons, List.sum_cons, List.filter_cons, ih, sync.spec.div_succ]
      split
      · rw [List.length_cons]
        omega
      · omega
    · have hdue : ¬sync.spec.isDue (n + 1) = true := fun h => hpos ((sync.spec.isDue_iff _).mp h).1
      rw [List.filter_cons_of_neg (by simpa using hpos), List.filter_cons, if_neg hdue]
      exact ih

/-- A sync with an interval is due once for each multiple of it. -/
theorem length_timetable (s : SyncSet V T) (updates : Nat) :
    (s.timetable updates).length =
      ((s.syncs.filter fun sync => 0 < sync.spec.interval).map fun sync =>
        updates / sync.spec.interval).sum := by
  induction updates with
  | zero =>
    have hzero : ∀ syncs : List (Sync V T),
        (syncs.map fun sync => 0 / sync.spec.interval).sum = 0 := by
      intro syncs
      induction syncs with
      | nil => rfl
      | cons sync rest ih => rw [List.map_cons, List.sum_cons, ih, Nat.zero_div]
    exact (hzero _).symm
  | succ n ih =>
    rw [timetable_succ, List.length_append, List.length_map, ih, sum_div_succ, due]

end SyncSet

/-! ## Reading on -/

section

variable (who : Option Threaded.Actor) (log : List (Option Threaded.Actor × Event F O))

/-- Several syncs that are published one after the other follow the same update. -/
theorem reading_published (ids : List SyncId) :
    evaluations ((ids.map .published).reverse.map (who, ·) ++ log) =
        (ids.map fun id => (countedLast who log, id)).reverse ++ evaluations log ∧
      counts ((ids.map .published).reverse.map (who, ·) ++ log) = counts log := by
  induction ids generalizing log with
  | nil => exact ⟨rfl, rfl⟩
  | cons id ids ih =>
    obtain ⟨hevaluations, hcounts⟩ := ih ((who, .published id) :: log)
    rw [List.map_cons, List.reverse_cons, List.map_append, List.append_assoc, List.map_cons,
      List.map_nil, List.singleton_append, List.map_cons, List.reverse_cons, List.append_assoc]
    exact ⟨hevaluations, hcounts⟩

end

/-- What an actor does is not counted for another one. -/
theorem countedLast_of_ne {who who' : Option Threaded.Actor} (h : who' ≠ who)
    (events : List (Event F O)) (log : List (Option Threaded.Actor × Event F O)) :
    countedLast who' (events.map (who, ·) ++ log) = countedLast who' log := by
  induction events with
  | nil => rfl
  | cons e events ih =>
    rw [List.map_cons, List.cons_append, countedLast]
    split
    · rw [if_neg (Ne.symm h)]
      exact ih
    · exact ih

/-! ## What is outstanding -/

namespace Threaded.Pool

/-- The evaluations that a worker with this index still has to make, each with the number of its
update. -/
def outstandingAt (log : List (Option Actor × Event F O)) (x : Phase F V T O × Nat) :
    List (Nat × SyncId) :=
  x.1.due.map fun sync => (countedLast (some (.worker x.2)) log, sync.id)

/-- The evaluations that workers still have to make. -/
def outstanding (log : List (Option Actor × Event F O)) (p : Pool F V E T O) :
    List (Nat × SyncId) :=
  p.workers.zipIdx.flatMap (outstandingAt log)

/-- A step of a worker changes what this worker has to do. -/
theorem outstanding_stepped {p : Pool F V E T O} {index : Nat} {old : Phase F V T O}
    (hw : p.workers[index]? = some old) (log : List (Option Actor × Event F O)) :
    ∃ before after,
      p.outstanding log = before ++ (old.due.map (fun sync =>
        (countedLast (some (.worker index)) log, sync.id)) ++ after) ∧
      ∀ (new : Phase F V T O) b e log',
        (∀ i ≠ index, countedLast (some (.worker i)) log' = countedLast (some (.worker i)) log) →
        (p.stepped index new b e).outstanding log' = before ++ (new.due.map (fun sync =>
          (countedLast (some (.worker index)) log', sync.id)) ++ after) := by
  obtain ⟨before, after, hsplit, hlength, hset⟩ := split_workers hw
  have hall : ∀ (w : Phase F V T O) (log' : List (Option Actor × Event F O)),
      (before ++ w :: after).zipIdx.flatMap (outstandingAt log') =
        before.zipIdx.flatMap (outstandingAt log') ++ (outstandingAt log' (w, index) ++
          (after.zipIdx (index + 1)).flatMap (outstandingAt log')) := by
    intro w log'
    rw [List.zipIdx_append, List.zipIdx_cons, List.flatMap_append, List.flatMap_cons, hlength,
      Nat.zero_add]
  refine ⟨before.zipIdx.flatMap (outstandingAt log),
    (after.zipIdx (index + 1)).flatMap (outstandingAt log), ?_, fun new b e log' hlog => ?_⟩
  · rw [outstanding, hsplit]
    exact hall old log
  · have hsame : ∀ x : Phase F V T O × Nat, x.2 ≠ index →
        outstandingAt log' x = outstandingAt log x := by
      intro x hx
      rw [outstandingAt, outstandingAt, hlog x.2 hx]
    have hbefore : before.zipIdx.flatMap (outstandingAt log') =
        before.zipIdx.flatMap (outstandingAt log) := by
      refine List.flatMap_congr fun x hx => hsame x ?_
      have := (List.mem_zipIdx hx).2.1
      omega
    have hafter : (after.zipIdx (index + 1)).flatMap (outstandingAt log') =
        (after.zipIdx (index + 1)).flatMap (outstandingAt log) := by
      refine List.flatMap_congr fun x hx => hsame x ?_
      have := (List.mem_zipIdx hx).1
      omega
    rw [outstanding, stepped, hset, ← hbefore, ← hafter]
    exact hall new log'

variable {p p' : Pool F V E T O} {log log' : List (Option Actor × Event F O)}

theorem outstanding_congr (hw : p'.workers = p.workers)
    (hlog : ∀ who, countedLast who log' = countedLast who log) :
    p'.outstanding log' = p.outstanding log := by
  have hat : outstandingAt (F := F) (V := V) (T := T) log' = outstandingAt log := by
    funext x
    rw [outstandingAt, outstandingAt, hlog]
  rw [outstanding, outstanding, hw, hat]

/-- Workers that have nothing to evaluate leave nothing outstanding. -/
theorem outstandingAt_eq_nil {ws : List (Phase F V T O)} (h : ∀ w ∈ ws, w.due = []) (start : Nat) :
    (ws.zipIdx start).flatMap (outstandingAt log) = [] := by
  refine List.flatMap_eq_nil_iff.mpr fun x hx => ?_
  have hmem : x.1 ∈ ws := by
    obtain ⟨-, -, hget⟩ := List.mem_zipIdx hx
    rw [hget]
    exact List.getElem_mem _
  rw [outstandingAt, h x.1 hmem]
  rfl

theorem outstanding_start (b : Board F V E T O) (workers : Nat) :
    (start b workers).outstanding log = [] :=
  outstandingAt_eq_nil (fun w hw => by rw [List.eq_of_mem_replicate hw]; rfl) 0

/-- A worker that cannot be started has nothing to evaluate, and nor have those behind it. -/
theorem outstanding_spawnFailed {index : Nat} (reason : String)
    (hs : ∀ w ∈ p.workers.drop index, w = .starting)
    (hlog : ∀ who, countedLast who log' = countedLast who log) :
    (p.spawnFailed index reason).outstanding log' = p.outstanding log := by
  have hdropped : ∀ w ∈ p.workers.drop index, w.due = [] := fun w hw => by rw [hs w hw]; rfl
  have hmissing : ∀ w ∈ [(.missing : Phase F V T O)], w.due = [] :=
    List.forall_mem_singleton.mpr rfl
  rw [outstanding_congr (p := p.spawnFailed index reason) rfl hlog]
  calc (p.spawnFailed index reason).outstanding log
      = (p.workers.take index).zipIdx.flatMap (outstandingAt log) := by
        rw [outstanding, spawnFailed, List.zipIdx_append, List.flatMap_append,
          outstandingAt_eq_nil hmissing, List.append_nil]
    _ = p.outstanding log := by
        rw [outstanding, ← List.take_append_drop index p.workers, List.zipIdx_append,
          List.flatMap_append, outstandingAt_eq_nil hdropped, List.append_nil,
          List.take_append_drop]

end Threaded.Pool

/-! ## Duties -/

/-- Whoever does a duty goes on counting, and evaluates what is due or leaves it for later. -/
theorem Duty.booked {b b' : Board F V E T O} {due due' : List (Sync V T)}
    {events : List (Event F O)} (hd : Duty b due events b' due') {s : SyncSet V T}
    (hs : b.syncs.registered = s.registered) (who : Option Threaded.Actor)
    (log : List (Option Threaded.Actor × Event F O)) (before after : List (Nat × SyncId)) :
    b'.syncs.registered = s.registered ∧
      (counts log = (List.range' 1 b.updates).reverse →
        counts (events.map (who, ·) ++ log) = (List.range' 1 b'.updates).reverse) ∧
      b'.syncs.performed + (evaluations log).length =
        b.syncs.performed + (evaluations (events.map (who, ·) ++ log)).length ∧
      ((evaluations log ++
          (before ++ (due.map (fun sync => (countedLast who log, sync.id)) ++ after))).Perm
            (s.timetable b.updates) →
        (evaluations (events.map (who, ·) ++ log) ++ (before ++ (due'.map (fun sync =>
          (countedLast who (events.map (who, ·) ++ log), sync.id)) ++ after))).Perm
            (s.timetable b'.updates)) := by
  cases hd with
  | other due hp =>
    obtain ⟨hlast, hevaluations, hcounts⟩ := hp.unbooked.reading who log
    rw [hp.syncs, hp.updates, hevaluations, hcounts, hlast]
    exact ⟨hs, id, rfl, id⟩
  | count =>
    let log' : List (Option Threaded.Actor × Event F O) := (who, .counted (b.updates + 1)) :: log
    have hlast : countedLast who log' = b.updates + 1 := if_pos rfl
    refine ⟨hs, fun hcounts => ?_, rfl, fun hevaluated => ?_⟩
    · show (b.updates + 1) :: counts log = (List.range' 1 (b.updates + 1)).reverse
      rw [hcounts, List.range'_concat, List.reverse_append, Nat.one_mul, Nat.add_comm 1]
      rfl
    · show (evaluations log ++ (before ++ ((b.syncs.due (b.updates + 1)).map (fun sync =>
        (countedLast who log', sync.id)) ++ after))).Perm (s.timetable (b.updates + 1))
      rw [hlast, SyncSet.timetable_succ, ← SyncSet.due_eq_of_registered hs]
      refine List.Perm.trans ?_ (hevaluated.append_right _)
      rw [List.map_nil, List.nil_append, List.append_assoc, List.append_assoc]
      exact (List.perm_append_comm.append_left before).append_left _
  | publish sync value due =>
    refine ⟨(SyncSet.registered_publish _ _ _).trans hs, id, ?_, fun hevaluated => ?_⟩
    · show b.syncs.performed + 1 + _ = b.syncs.performed + ((evaluations log).length + 1)
      omega
    · refine List.Perm.trans ?_ hevaluated
      show (((countedLast who log, sync.id) :: evaluations log) ++ (before ++ (due'.map (fun sync =>
        (countedLast who log, sync.id)) ++ after))).Perm _
      rw [← List.append_assoc, ← List.append_assoc (evaluations log), List.map_cons,
        List.cons_append, List.cons_append]
      exact List.perm_middle.symm

namespace Threaded.Pool

variable {p p' : Pool F V E T O} {who : Option Actor} {events : List (Event F O)}
  {log log' : List (Option Actor × Event F O)}

/-- A step of a pool is about these syncs of its actor: they are outstanding before it, the others
after it, and what else is outstanding stays as it is. -/
structure Serves (p : Pool F V E T O) (who : Option Actor) (due : List (Sync V T))
    (log : List (Option Actor × Event F O)) (p' : Pool F V E T O) (due' : List (Sync V T))
    (log' : List (Option Actor × Event F O)) : Prop where
  own : due ≠ [] → ∃ index < p.workers.length, who = some (.worker index)
  workers : p'.workers.length ≤ p.workers.length
  outstanding : ∃ before after,
    p.outstanding log =
      before ++ (due.map (fun sync => (countedLast who log, sync.id)) ++ after) ∧
    p'.outstanding log' =
      before ++ (due'.map (fun sync => (countedLast who log', sync.id)) ++ after)

/-- A step that is not taken by a worker leaves everything outstanding. -/
theorem Serves.idle (hw : p'.workers.length ≤ p.workers.length)
    (ho : p'.outstanding log' = p.outstanding log) : p.Serves who [] log p' [] log' :=
  ⟨fun h => absurd rfl h, hw, p.outstanding log, [], by simp, by simp [ho]⟩

theorem Serves.stepped {index : Nat} {old new : Phase F V T O} {b : Board F V E T O}
    {e : Option EngineError} (hw : p.workers[index]? = some old) (events : List (Event F O))
    (log : List (Option Actor × Event F O)) :
    p.Serves (some (.worker index)) old.due log (p.stepped index new b e) new.due
      (events.map (some (.worker index), ·) ++ log) := by
  obtain ⟨before, after, hold, hnew⟩ := outstanding_stepped hw log
  have hlt : index < p.workers.length := (List.getElem?_eq_some_iff.mp hw).1
  refine ⟨fun _ => ⟨index, hlt, rfl⟩, ?_, before, after, hold, hnew new b e _ fun i hi => ?_⟩
  · rw [Pool.stepped, List.length_set]
  · exact countedLast_of_ne (fun h => hi (Actor.worker.inj (Option.some.inj h))) events log

/-- A step of a pool is somebody's duty, or the loss of a worker that panics in an
evaluation. -/
theorem serves (h : Machine.StepBy behaviour who (.threaded p) (.threaded p'))
    (he : p'.board.history = events ++ p.board.history)
    (log : List (Option Actor × Event F O)) :
    ∃ due due', p.Serves who due log p' due' (events.map (who, ·) ++ log) ∧
      (Duty p.board due events p'.board due' ∨
        events = [] ∧ p'.board = p.board ∧ due' = [] ∧
          ∃ w ∈ p.workers, ¬∀ sync ∈ w.due, sync.spec.Total) := by
  cases h with
  | abort =>
    obtain rfl : events = [] := List.append_cancel_right he.symm
    exact ⟨[], [], .idle le_rfl (outstanding_congr rfl fun _ => rfl),
      .inl (.other [] (.same rfl rfl rfl))⟩
  | @spawnFailed _ index reason hr hj hi hs =>
    have hpassed : p.board.Passed [.workerMissing index] (p.spawnFailed index reason).board :=
      Board.passed_note rfl
    obtain rfl : events = [.workerMissing index] :=
      List.append_cancel_right (he.symm.trans hpassed.history)
    obtain ⟨hlast, -, -⟩ := hpassed.unbooked.reading none log
    refine ⟨[], [], .idle ?_ (outstanding_spawnFailed reason hs hlast), .inl (.other [] hpassed)⟩
    rw [spawnFailed, List.length_append, List.length_take, List.length_singleton]
    omega
  | @actor _ _ a h =>
    unfold step at h
    split at h
    · cases a with
      | worker index =>
        obtain ⟨old, new, b, e, hw, hstep, rfl⟩ := stepWorker_eq_some h
        rcases hstep.duty with ⟨events', hduty⟩ | ⟨rfl, rfl⟩
        · obtain rfl : events = events' :=
            List.append_cancel_right (he.symm.trans hduty.history)
          exact ⟨old.due, new.due, .stepped hw events log, .inl hduty⟩
        · obtain rfl : events = [] := List.append_cancel_right he.symm
          exact ⟨old.due, [], .stepped hw [] log, .inr ⟨rfl, rfl, rfl, old,
            List.mem_of_getElem? hw, fun htotal => hstep.ne_crashed htotal rfl⟩⟩
      | pool =>
        obtain ⟨hworkers, events', hpassed⟩ := stepPool_passed h
        obtain rfl : events = events' :=
          List.append_cancel_right (he.symm.trans hpassed.history)
        obtain ⟨hlast, -, -⟩ := hpassed.unbooked.reading (some .pool) log
        exact ⟨[], [], .idle (by rw [hworkers]) (outstanding_congr hworkers hlast),
          .inl (.other [] hpassed)⟩
    · cases h

end Threaded.Pool

/-! ## The books -/

namespace Machine

/-- The evaluations that workers still have to make; the sequential engine leaves none for later. -/
def outstanding (log : List (Option Threaded.Actor × Event F O)) :
    Machine F V E T O → List (Nat × SyncId)
  | sequential .. => []
  | threaded p => p.outstanding log

/-- The numbers that were counted are the ones from one to the number of updates, in their order.
What was evaluated or is still to be evaluated is what was due after these updates, and every
evaluation was counted. -/
structure Books (s : SyncSet V T) (log : List (Option Threaded.Actor × Event F O))
    (m : Machine F V E T O) : Prop where
  registered : m.board.syncs.registered = s.registered
  counted : counts log = (List.range' 1 m.board.updates).reverse
  evaluated : (evaluations log ++ m.outstanding log).Perm (s.timetable m.board.updates)
  performed : m.board.syncs.performed = s.performed + (evaluations log).length

variable {s : SyncSet V T} {log : List (Option Threaded.Actor × Event F O)}
  {m m' : Machine F V E T O} {events : List (Event F O)} {who : Option Threaded.Actor}

/-- Nothing happens to the books. -/
theorem Books.passed {b b' : Board F V E T O} {status status' : RunStatus}
    (h : (sequential b status).Books s log) (hp : b.Passed events b') :
    (sequential b' status').Books s (events.map (who, ·) ++ log) := by
  obtain ⟨-, hevaluations, hcounts⟩ := hp.unbooked.reading who log
  refine ⟨?_, ?_, ?_, ?_⟩
  · exact (congrArg SyncSet.registered hp.syncs).trans h.registered
  · rw [hcounts]
    exact h.counted.trans (congrArg (fun n => (List.range' 1 n).reverse) hp.updates.symm)
  · rw [hevaluations]
    exact h.evaluated.trans (.of_eq (congrArg s.timetable hp.updates.symm))
  · rw [hevaluations]
    exact (congrArg SyncSet.performed hp.syncs).trans h.performed

/-- What is still to be evaluated follows the update that its worker counted last. -/
theorem Books.served {p p' : Threaded.Pool F V E T O} (h : (threaded p).Books s log)
    {due due' : List (Sync V T)}
    (hs : p.Serves who due log p' due' (events.map (who, ·) ++ log))
    (hd : Duty p.board due events p'.board due') :
    (threaded p').Books s (events.map (who, ·) ++ log) := by
  obtain ⟨before, after, hold, hnew⟩ := hs.outstanding
  obtain ⟨hregistered, hcounted, hperformed, hevaluated⟩ :=
    hd.booked h.registered who log before after
  have houtstanding := h.evaluated
  have hcount : p.board.syncs.performed = s.performed + (evaluations log).length := h.performed
  rw [outstanding, hold] at houtstanding
  refine ⟨hregistered, hcounted h.counted, ?_, ?_⟩
  · rw [outstanding, hnew]
    exact hevaluated houtstanding
  · show p'.board.syncs.performed = s.performed + _
    omega

/-- The sequential engine counts an update and makes all evaluations that are due then at once. -/
theorem Books.counted_turn {b b' : Board F V E T O} {r : Board F V E T O × RunStatus}
    (h : (sequential b .running).Books s log) (hp : b.Passed events b') (ht : b.syncs.Total)
    (hr : r = b'.increment.evaluateDue (b'.syncs.due (b'.updates + 1))) {all : List (Event F O)}
    (ha : r.1.history = all ++ b.history) :
    (sequential r.1 r.2).Books s (all.map (some (.worker 0), ·) ++ log) := by
  subst hr
  have hb' : (sequential b' .running).Books s (events.map (some (.worker 0), ·) ++ log) :=
    h.passed hp
  have htotal : ∀ sync ∈ b'.syncs.due (b'.updates + 1), sync.spec.Total := by
    intro sync hsync
    rw [hp.syncs] at hsync
    exact ht sync (List.mem_of_mem_filter hsync)
  obtain ⟨hpublished, hregistered, hperformed⟩ :=
    SyncSet.evaluate_published b'.graph htotal b'.syncs
  -- The events of the turn: those before the count, the count, and the evaluations.
  let log' : List (Option Threaded.Actor × Event F O) :=
    (some (.worker 0), .counted (b'.updates + 1)) :: (events.map (some (.worker 0), ·) ++ log)
  let ids := (b'.syncs.due (b'.updates + 1)).map (·.id)
  have hall : all = (ids.map .published).reverse ++ .counted (b'.updates + 1) :: events := by
    have hhistory := Board.evaluateDue_history b'.increment (b'.syncs.due (b'.updates + 1))
    have hcounted : b'.increment.history = .counted (b'.updates + 1) :: b'.history := rfl
    have hround : (b'.increment.syncs.evaluate b'.increment.graph
      (b'.syncs.due (b'.updates + 1))).2.published = ids := hpublished
    rw [hcounted, hp.history, hround, ← List.cons_append, ← List.append_assoc] at hhistory
    exact List.append_cancel_right (ha.symm.trans hhistory)
  obtain ⟨hevaluations, hcounts⟩ := reading_published (some (.worker 0)) log' ids
  have hlast : countedLast (some (.worker 0)) log' = b'.updates + 1 := rfl
  have hboard : (b'.increment.evaluateDue (b'.syncs.due (b'.updates + 1))).1.updates =
      b'.updates + 1 :=
    (Board.quiet_noteRound _ _).1.updates
  have hsyncs : (b'.increment.evaluateDue (b'.syncs.due (b'.updates + 1))).1.syncs =
      (b'.syncs.evaluate b'.graph (b'.syncs.due (b'.updates + 1))).1 :=
    Board.evaluateDue_syncs _ _
  have hlog : all.map (some (Threaded.Actor.worker 0), ·) ++ log =
      (ids.map .published).reverse.map (some (.worker 0), ·) ++ log' := by
    rw [hall, List.map_append, List.append_assoc]
    rfl
  rw [hlog]
  refine ⟨?_, ?_, ?_, ?_⟩
  · show (b'.increment.evaluateDue _).1.syncs.registered = _
    rw [hsyncs, hregistered]
    exact hb'.registered
  · show _ = (List.range' 1 (b'.increment.evaluateDue _).1.updates).reverse
    rw [hcounts, hboard, List.range'_concat, List.reverse_append, Nat.one_mul, Nat.add_comm 1]
    exact congrArg (_ :: ·) hb'.counted
  · show (_ ++ []).Perm (s.timetable (b'.increment.evaluateDue _).1.updates)
    rw [hevaluations, hboard, SyncSet.timetable_succ, hlast, List.append_nil,
      ← SyncSet.due_eq_of_registered hb'.registered]
    have hevaluated : (evaluations log' ++ []).Perm (s.timetable b'.updates) := hb'.evaluated
    rw [List.append_nil] at hevaluated
    have hids : (ids.map fun id => (b'.updates + 1, id)) =
        (b'.syncs.due (b'.updates + 1)).map fun sync => (b'.updates + 1, sync.id) :=
      List.map_map
    exact (List.perm_append_comm.trans (hevaluated.append (hids ▸ List.reverse_perm _)))
  · show (b'.increment.evaluateDue _).1.syncs.performed = _
    have hbefore : b'.syncs.performed = s.performed + (evaluations log').length := hb'.performed
    rw [hsyncs, hperformed, hevaluations, List.length_append, List.length_reverse, List.length_map,
      List.length_map, hbefore]
    omega

theorem StepBy.books (h : StepBy behaviour who m m')
    (he : m'.board.history = events ++ m.board.history) {total : Prop} (hx : m.Explained total)
    (ht : total) (hb : m.Books s log) : m'.Books s (events.map (who, ·) ++ log) := by
  have hpool : ∀ {p p' : Threaded.Pool F V E T O}, StepBy behaviour who (threaded p) (threaded p') →
      p'.board.history = events ++ p.board.history → (threaded p).Explained total →
      (threaded p).Books s log → (threaded p').Books s (events.map (who, ·) ++ log) := by
    intro p p' h he hx hb
    obtain ⟨due, due', hserves, hduty | ⟨-, -, -, w, hw, hpanics⟩⟩ := Threaded.Pool.serves h he log
    · exact hb.served hserves hduty
    · exact absurd (Threaded.Pool.Explained.due hx ht w hw) hpanics
  cases h with
  | @turn b r h =>
    obtain ⟨events', b', hpassed, ⟨hr, -⟩ | hr⟩ := h.passed
    · obtain rfl : events = events' := by
        subst hr
        exact List.append_cancel_right (he.symm.trans hpassed.history)
      subst hr
      exact hb.passed hpassed
    · exact hb.counted_turn hpassed (Sequential.Explained.syncs hx ht) hr he
  | abort =>
    cases m with
    | sequential b status =>
      obtain rfl : events = [] := List.append_cancel_right he.symm
      exact hb.passed (.same rfl rfl rfl)
    | threaded p => exact hpool (.abort _) he hx hb
  | spawnFailed reason hr hj hi hs => exact hpool (.spawnFailed reason hr hj hi hs) he hx hb
  | actor h => exact hpool (.actor h) he hx hb

variable {pending : PendingList F}

/-- The books of a run are right at any time, if no evaluation of a sync panics. -/
theorem Chronicle.books (h : m.Chronicle behaviour log m') (ho : m.Orderly pending)
    (hv : (m.scene pending).Valid) {total : Prop} (hx : m.Explained total) (ht : total)
    (hb : m.Books s []) : m'.Books s log := by
  induction h with
  | start => exact hb
  | step h hs he ih => exact hs.books he (h.reaches.explained ho hv hx) ht ih

/-- When a run has ended, no evaluation is left to be made. -/
theorem Orderly.outstanding_eq_nil (h : m.Orderly pending) (hr : m.status ≠ .running) :
    m.outstanding log = [] := by
  cases m with
  | sequential b status => rfl
  | threaded p =>
    have h : p.Orderly pending := h
    refine Threaded.Pool.outstandingAt_eq_nil (fun w hw => ?_) 0
    obtain ⟨i, hi, rfl⟩ := List.mem_iff_getElem.mp hw
    obtain ⟨crashed, hleft, -⟩ := h.joined i (Nat.lt_of_lt_of_le hi (h.ended hr)) hi
    rw [List.getElem?_eq_getElem hi] at hleft
    rw [Option.some.inj hleft]
    rfl

end Machine

end VertexEngine
