import VertexEngine.Proofs.Core.Lifecycle
import VertexEngine.Proofs.Run.Accounting
import VertexEngine.Proofs.Run.Serial

/-!
# The totals over the life of a core

A core keeps totals over its runs.  They are the sums over the runs that were started and ended, and
nothing but a run changes them; and what is on record of a run is what happened in it.

* `Core.History` is a life of a core with the records of its runs, and `totals` are the sums over
  these.
* `Run.Accounted` says which updates a run counted, and after which of them each sync was evaluated.
* `History.totals_accounted` is the result.
-/

namespace VertexEngine

variable {F V E T O : Type} {behaviour : Behaviour F V E T O}

/-- Whether a run ended well for its caller. -/
def Conclusion.isConverged : Conclusion → Bool
  | converged _ => true
  | stopped _ => false
  | crashed => false

namespace Core

/-! ## One run -/

/-- What happened in a run of a core, as far as it is counted.  At its start every sync was
evaluated, in the order in which they were registered.  Then updates were counted from one on; and
the sync evaluations that workers made, each told with the update that the worker had counted
before, are the ones that were due after these updates. -/
structure Run.Accounted {core : Core F V E T} (r : Run behaviour core) : Prop where
  notCrashed : r.conclusion ≠ .crashed
  start : r.first.board.history.filterMap Event.published? =
    (core.syncs.syncs.map (·.id)).reverse
  chronicled : ∃ log, r.first.Chronicle behaviour log r.last
  counted : ∀ log, r.first.Chronicle behaviour log r.last →
    counts log = (List.range' 1 (core.report r.last.board).updates).reverse
  evaluated : ∀ log, r.first.Chronicle behaviour log r.last →
    (evaluations log).Perm (core.syncs.timetable (core.report r.last.board).updates)
  syncs : (core.report r.last.board).syncs = core.syncs.syncs.length +
    ((core.syncs.syncs.filter fun sync => 0 < sync.spec.interval).map fun sync =>
      (core.report r.last.board).updates / sync.spec.interval).sum

/-- Syncs that were published once, one after the other, are told in the opposite order. -/
theorem filterMap_published (ids : List SyncId) :
    (ids.map (.published : SyncId → Event F O)).filterMap Event.published? = ids := by
  induction ids with
  | nil => rfl
  | cons id ids ih => exact congrArg (id :: ·) ih

/-- A run starts with every sync evaluated once, and with empty books. -/
theorem launch_books {core : Core F V E T} (ht : core.syncs.Total) {m : Machine F V E T O}
    (hl : core.launch = .ok m) :
    m.board.history.filterMap Event.published? = (core.syncs.syncs.map (·.id)).reverse ∧
      m.board.syncs.registered = core.syncs.registered ∧
      m.board.syncs.performed = core.syncs.performed + core.syncs.syncs.length ∧
      m.Books m.board.syncs [] := by
  unfold launch at hl
  split at hl
  · cases hl
  · cases hl
  · rename_i g hstage
    obtain ⟨hpublished, hregistered, hperformed⟩ := SyncSet.evaluate_published g ht core.syncs
    let board : Board F V E T O :=
      { (core.boardOn g) with syncs := (core.syncs.evaluateAll g).1 }.noteRound
        (core.syncs.evaluateAll g).2
    have hhistory : board.history =
        ((core.syncs.syncs.map (·.id)).map .published).reverse ++ [] := by
      rw [← hpublished]
      exact Board.noteRound_history _ _
    have hsyncs : board.syncs = (core.syncs.evaluateAll g).1 := Board.noteRound_syncs _ _
    have hupdates : board.updates = 0 := (Board.quiet_noteRound _ _).1.updates
    have hbroken : (core.syncs.evaluateAll g).2.broken = false :=
      (SyncSet.evaluate_of_total g ht ht).2
    dsimp only at hl
    rw [if_neg (Bool.eq_false_iff.mp hbroken)] at hl
    obtain rfl := Except.ok.inj hl
    have hboard : (Machine.start core.options board).board =
        board.note (.loopStarted core.options.engine) := Machine.Orderly.board_start _ _
    have hmachine : (Machine.start core.options board).board.syncs =
        (core.syncs.evaluateAll g).1 := by
      rw [hboard]
      exact hsyncs
    refine ⟨?_, ?_, ?_, rfl, ?_, ?_, rfl⟩
    · rw [hboard]
      show board.history.filterMap Event.published? = _
      rw [hhistory, List.append_nil, List.filterMap_reverse, filterMap_published]
    · rw [hmachine]
      exact hregistered
    · rw [hmachine]
      exact hperformed
    · rw [hboard]
      show [] = (List.range' 1 board.updates).reverse
      rw [hupdates]
      rfl
    · have hnone : (Machine.start core.options board).outstanding [] = [] := by
        unfold Machine.start
        split
        · rfl
        · exact Threaded.Pool.outstanding_start _ _
      rw [hnone, hboard]
      show List.Perm [] (SyncSet.timetable _ board.updates)
      rw [hupdates]
      exact .refl []

/-- A run is on the books from its start to its end. -/
theorem Run.accounted {core : Core F V E T} (r : Run behaviour core) (hc : core.Consistent)
    (ht : core.syncs.Total) : r.Accounted := by
  obtain ⟨first, last, conclusion, next, hlaunched, hreached, hconcluded⟩ := r
  obtain ⟨hstart, hregistered, hperformed, hbooks⟩ := launch_books ht hlaunched
  obtain ⟨ho, hv⟩ := hc.launch hlaunched
  have hx := launch_explained hlaunched
  obtain ⟨p, -, ho'⟩ := hreached.moves ho
  have hcases := concludes_of_eq_some hconcluded
  have hnotCrashed : conclusion ≠ .crashed := by
    rintro rfl
    cases hcases with
    | crashed hs => exact ((hreached.explained ho hv hx).cause ho').2 hs ht
  have hended : last.status ≠ .running := hcases.not_running
  have hall : ∀ log, first.Chronicle behaviour log last → last.Books first.board.syncs log ∧
      (evaluations log).Perm (core.syncs.timetable last.board.updates) := by
    intro log hlog
    have hb := hlog.books ho hv hx ht hbooks
    have hevaluated := hb.evaluated
    rw [ho'.outstanding_eq_nil hended, List.append_nil, SyncSet.timetable_congr hregistered]
      at hevaluated
    exact ⟨hb, hevaluated⟩
  obtain ⟨log, hlog⟩ := hreached.exists_chronicle
  refine ⟨hnotCrashed, hstart, ⟨log, hlog⟩, fun log hlog => (hall log hlog).1.counted,
    fun log hlog => (hall log hlog).2, ?_⟩
  obtain ⟨hb, hevaluated⟩ := hall log hlog
  have hlength := hevaluated.length_eq
  have hlast := hb.performed
  rw [SyncSet.length_timetable] at hlength
  show last.board.syncs.performed - core.syncs.performed = _
  rw [hlast, hperformed, hlength]
  exact Nat.sub_eq_of_eq_add (by rw [Nat.add_assoc, Nat.add_comm]; rfl)

/-! ## The whole life -/

/-- What is on record of a run. -/
structure Record where
  report : RunReport
  succeeded : Bool

def Run.record {core : Core F V E T} (r : Run behaviour core) : Record where
  report := core.report r.last.board
  succeeded := r.conclusion.isConverged

/-- The life of a core so far, with the records of its runs, the latest first; in none of them did a
sync panic. -/
inductive History (behaviour : Behaviour F V E T O) : List Record → Core F V E T → Prop
  | new {options : EngineOptions} {core : Core F V E T} (h : withOptions options = .ok core) :
    History behaviour [] core
  | operation {records : List Record} {core : Core F V E T} (h : History behaviour records core)
    (op : Operation F V E T) : History behaviour records (op.call.run core).2
  | run {records : List Record} {core : Core F V E T} (h : History behaviour records core)
    (ht : core.syncs.Total) (r : Run behaviour core) :
    History behaviour (r.record :: records) r.next

/-- The totals over runs, the latest first. -/
def totals (records : List Record) : Metrics where
  runs := records.length
  failedRuns := records.countP fun record => !record.succeeded
  updates := (records.map (·.report.updates)).sum
  syncs := (records.map (·.report.syncs)).sum
  lastRun := records.head?.map (·.report)

/-- The totals, and the count of the latest run. -/
def HasTotals (metrics : Metrics) (updates : Nat) (core : Core F V E T) : Prop :=
  core.metrics = metrics ∧ core.lastUpdateCount = updates

variable {records : List Record} {core : Core F V E T}

theorem History.reachable (h : History behaviour records core) : core.Reachable behaviour := by
  induction h with
  | new h => exact .new h
  | operation _ op ih => exact .operation ih op
  | run _ _ r ih => exact .run ih r

/-- Only runs count. -/
theorem Operation.keeps_totals (metrics : Metrics) (updates : Nat) (op : Operation F V E T) :
    Keeps (HasTotals metrics updates) op.call :=
  op.keeps_of_aside (fun _ _ _ _ _ h => h) fun _ h => h

theorem totals_cons (record : Record) (records : List Record) :
    totals (record :: records) = (totals records).record record.report record.succeeded := by
  have hfailed : (record :: records).countP (fun record => !record.succeeded) =
      if record.succeeded then records.countP (fun record => !record.succeeded)
      else records.countP (fun record => !record.succeeded) + 1 := by
    cases hs : record.succeeded <;> simp [hs]
  simp only [totals, Metrics.record, hfailed, List.map_cons, List.sum_cons, List.length_cons,
    List.head?_cons, Option.map_some, Nat.add_comm]

/-- A run that is not lost in a panic adds its record to the totals. -/
theorem Run.totals (r : Run behaviour core) (hr : r.conclusion ≠ .crashed) {updates : Nat}
    (h : HasTotals (totals records) updates core) :
    HasTotals (Core.totals (r.record :: records)) r.record.report.updates r.next := by
  obtain ⟨first, last, conclusion, next, hlaunched, hreached, hconcluded⟩ := r
  obtain ⟨hmetrics, -⟩ := h
  rw [totals_cons, ← hmetrics]
  cases concludes_of_eq_some hconcluded with
  | crashed _ => exact absurd rfl hr
  | converged _ => exact ⟨rfl, rfl⟩
  | stopped _ => exact ⟨rfl, rfl⟩

theorem History.hasTotals (h : History behaviour records core) :
    HasTotals (totals records) ((records.head?.map (·.report.updates)).getD 0) core := by
  induction h with
  | @new options core h =>
    obtain ⟨-, rfl⟩ := withOptions_eq_ok h
    exact ⟨rfl, rfl⟩
  | operation _ op ih => exact op.keeps_totals _ _ _ ih
  | run h ht r ih =>
    exact r.totals (r.accounted h.reachable.consistent ht).notCrashed ih

/-- Over its whole life a core keeps the totals of its runs, of which each was started on a bound
graph and has ended with a report or with an error.  No operation changes them, and a start that is
refused changes nothing at all.  And a run, of either engine and however it ends, evaluates every
sync once at its start and once after every update whose number is a multiple of its interval. -/
theorem History.totals_accounted (h : History behaviour records core) :
    core.metrics = totals records ∧
      core.lastUpdateCount = (records.head?.map (·.report.updates)).getD 0 ∧
      (∀ op : Operation F V E T, (op.call.run core).2.metrics = core.metrics ∧
        (op.call.run core).2.lastUpdateCount = core.lastUpdateCount) ∧
      ((∃ m : Machine F V E T O, core.launch = .ok m) ↔ ∃ g, core.stage = .bound g) ∧
      (core.syncs.Total → ∀ r : Run behaviour core, r.Accounted ∧
        r.next.metrics = core.metrics.record (core.report r.last.board) r.record.succeeded ∧
        r.next.lastUpdateCount = (core.report r.last.board).updates ∧
        (r.record.succeeded = false ↔ ∃ e, r.conclusion = .stopped e)) := by
  have hconsistent := h.reachable.consistent
  obtain ⟨hmetrics, hupdates⟩ := h.hasTotals
  refine ⟨hmetrics, hupdates, fun op => ?_, ⟨?_, ?_⟩, fun ht r => ?_⟩
  · exact op.keeps_totals core.metrics core.lastUpdateCount core ⟨rfl, rfl⟩
  · rintro ⟨m, hl⟩
    obtain ⟨g, -, hstage, -⟩ := launch_cases hl
    exact ⟨g, hstage⟩
  · rintro ⟨g, hstage⟩
    unfold launch
    rw [hstage]
    dsimp only
    split
    · exact ⟨_, rfl⟩
    · exact ⟨_, rfl⟩
  · have haccounted := r.accounted hconsistent ht
    obtain ⟨hmetrics', hupdates'⟩ := r.totals haccounted.notCrashed ⟨hmetrics, hupdates⟩
    refine ⟨haccounted, ?_, hupdates', ?_⟩
    · rw [hmetrics', totals_cons, hmetrics]
      rfl
    · have hnot := haccounted.notCrashed
      unfold Run.record
      cases hc : r.conclusion with
      | converged report => simp [Conclusion.isConverged]
      | stopped e => simp [Conclusion.isConverged]
      | crashed => exact absurd hc hnot

/-! ### A life with one run -/

/-- The sum of all values, again after every so many updates. -/
def sumEvery (interval : Nat) : SyncSpec Nat Nat where
  zero := 0
  fold total _ x := some (total + x)
  interval := interval

/-- A core with two tasks and three syncs, one of which has no interval. -/
def summed : Core Unit Nat Unit Nat :=
  { twoTasks with
    syncs := { syncs := [⟨0, sumEvery 1, 0⟩, ⟨1, sumEvery 2, 0⟩, ⟨2, sumEvery 0, 0⟩] } }

theorem history_twoTasks : History addOne [] (twoTasks : Core Unit Nat Unit Nat) :=
  .operation (.operation (.operation (.new (rfl : Core.withOptions twoTasks.options = .ok _))
    (.setGraph _ (.operation .empty (.addVertex 0)))) (.schedule 0 () 1)) (.schedule 0 () 1)

theorem history_summed : History addOne [] summed :=
  .operation (.operation (.operation history_twoTasks (.setSync 0 (sumEvery 1)))
    (.setSync 0 (sumEvery 2))) (.setSync 0 (sumEvery 0))

/-- The first worker does both tasks and evaluates what is due; the second one finds nothing. -/
def summing : List Threaded.Actor :=
  List.replicate 28 (.worker 0) ++ List.replicate 3 (.worker 1) ++ List.replicate 3 .pool

def summedPool : Threaded.Pool Unit Nat Unit Nat Empty :=
  let g := ((Graph.Operation.addVertex 0).edit.run {}).2
  let (syncs, round) := summed.syncs.evaluateAll g
  .start (({ summed.boardOn g with syncs }.noteRound round).note (.loopStarted .threaded)) 2

theorem concluded_summed :
    (summed.conclude? (.threaded (summedPool.interleave addOne summing))).isSome = true := by
  decide +kernel

/-- The run in which they do so. -/
def summedRun : Run addOne summed where
  first := .threaded summedPool
  last := .threaded (summedPool.interleave addOne summing)
  conclusion := ((summed.conclude? _).get concluded_summed).1
  next := ((summed.conclude? _).get concluded_summed).2
  launched := rfl
  reached := Machine.reaches_interleave addOne summedPool summing
  concluded := (Option.some_get concluded_summed).symm

theorem total_summed : summed.syncs.Total := by
  have hsum : ∀ interval, (sumEvery interval).Total :=
    fun _ => ⟨fun _ _ _ => rfl, fun _ => rfl⟩
  intro sync hsync
  rcases List.mem_cons.mp hsync with rfl | hsync
  · exact hsum 1
  · rcases List.mem_cons.mp hsync with rfl | hsync
    · exact hsum 2
    · rw [List.mem_singleton.mp hsync]
      exact hsum 0

/-- Two updates make three evaluations after the three at the start, and the totals outlive the
graph. -/
theorem accounted_summed :
    History addOne [summedRun.record] (Operation.destroy.call.run summedRun.next).2 ∧
      (Operation.destroy.call.run summedRun.next).2.metrics =
        { runs := 1, updates := 2, syncs := 6, lastRun := some ⟨2, .threaded, 2, 6⟩ } ∧
      (Operation.destroy.call.run summedRun.next).2.lastUpdateCount = 2 := by
  have hhistory := (history_summed.run total_summed summedRun).operation .destroy
  have hreport : summedRun.record.report = ⟨2, .threaded, 2, 6⟩ := by decide +kernel
  have hsucceeded : summedRun.record.succeeded = true := by decide +kernel
  obtain ⟨hmetrics, hupdates, -⟩ := hhistory.totals_accounted
  have htotals : totals [summedRun.record] =
      { runs := 1, updates := 2, syncs := 6, lastRun := some ⟨2, .threaded, 2, 6⟩ } := by
    simp [totals, hreport, hsucceeded]
  refine ⟨hhistory, hmetrics.trans htotals, hupdates.trans ?_⟩
  exact congrArg RunReport.updates hreport

end Core

end VertexEngine
