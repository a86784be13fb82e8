import VertexEngine.Proofs.Run.Docket

/-!
# A run that fails is a prefix

When the sequential loop stops with the error of a task, everything before that task was done and
counted, and nothing after it was begun.  Of the task itself there is left what its program had
written to its vertex.

* `Board.Writes` is an execution with the values that it writes.
* `Sequential.StoppedBy` says which task stopped the loop, and what this has left.
* `Core.Reachable.fifo_in_order` puts this together with the order of the tasks.
-/

namespace VertexEngine

variable {F V E T O : Type} {behaviour : Behaviour F V E T O}

/-! ## Writes -/

namespace Board

/-- A program that is run to its end as in `Completes`, with the values that it writes to its
vertex, in their order. -/
inductive Writes : Board F V E T O → Execution F → Program F V T O Unit → List V → Outcome →
    Board F V E T O → Prop
  | abort {b : Board F V E T O} {x : Execution F} {p : Program F V T O Unit} {values : List V}
    {outcome : Outcome} {b' : Board F V E T O}
    (h : Writes { b with abort := true } x p values outcome b') : Writes b x p values outcome b'
  | done (b : Board F V E T O) (x : Execution F) :
    Writes b x (.done ()) [] .finished (b.note (.updated x.task.vertex))
  | fail (b : Board F V E T O) (x : Execution F) (e : EngineError) :
    Writes b x (.fail e) [] (.failed (.update x.task.vertex e)) b
  | panic (b : Board F V E T O) (x : Execution F) : Writes b x .panic [] .panicked b
  | write {b : Board F V E T O} {x : Execution F} {value : V} {next : Unit → Program F V T O Unit}
    {values : List V} {outcome : Outcome} {b' : Board F V E T O}
    (h : Writes { b with graph := b.graph.withValue x.task.vertex value } x (next ()) values
      outcome b') :
    Writes b x (.ask (.write value) next) (value :: values) outcome b'
  | ask {b : Board F V E T O} {x : Execution F} {action : Action F V O}
    {next : action.Answer T → Program F V T O Unit} {values : List V} {outcome : Outcome}
    {b' : Board F V E T O} (hw : ∀ value, action ≠ .write value)
    (h : Writes (b.perform x action).2.2 (b.perform x action).2.1
      (next (b.perform x action).1) values outcome b') :
    Writes b x (.ask action next) values outcome b'

variable {b b' : Board F V E T O} {x : Execution F} {program : Program F V T O Unit}
  {outcome : Outcome}

theorem Completes.exists_writes (h : b.Completes x program outcome b') :
    ∃ values, b.Writes x program values outcome b' := by
  induction h with
  | abort _ ih =>
    obtain ⟨values, hwrites⟩ := ih
    exact ⟨values, .abort hwrites⟩
  | done b x => exact ⟨[], .done b x⟩
  | fail b x e => exact ⟨[], .fail b x e⟩
  | panic b x => exact ⟨[], .panic b x⟩
  | @ask b x action next outcome b' _ ih =>
    obtain ⟨values, hwrites⟩ := ih
    cases action with
    | write value => exact ⟨value :: values, .write hwrites⟩
    | _ => exact ⟨values, .ask nofun hwrites⟩

/-- An action that writes nothing leaves the graph alone. -/
theorem perform_graph {action : Action F V O} (hw : ∀ value, action ≠ .write value)
    (b : Board F V E T O) (x : Execution F) : (b.perform x action).2.2.graph = b.graph := by
  have heffect := b.perform_effect x action
  generalize (b.perform x action).2.1 = x', (b.perform x action).2.2 = b' at heffect
  cases heffect with
  | wrote value => exact absurd rfl (hw value)
  | _ => rfl

/-- What an execution writes is all that it changes in the graph, and it takes and counts no
task. -/
theorem Writes.frame {values : List V} (h : b.Writes x program values outcome b') :
    b'.graph = values.foldl (fun g value => g.withValue x.task.vertex value) b.graph ∧
      b'.tasks = b.tasks ∧ b'.updates = b.updates := by
  induction h with
  | abort _ ih => exact ih
  | write _ ih => exact ih
  | ask hw _ ih =>
    rw [perform_task, perform_graph hw, perform_tasks, perform_updates] at ih
    exact ih
  | _ => exact ⟨rfl, rfl, rfl⟩

end Board

/-! ## The loop -/

namespace Sequential

/-- The loop took the task at the front of the queue.  Its program wrote the values to its vertex
and ended with the error, and this is what is left. -/
structure StoppedBy (behaviour : Behaviour F V E T O) (before : Board F V E T O) (t : Task F)
    (values : List V) (e : EngineError) (after : Board F V E T O) : Prop where
  front : before.scheduler.queue.toList.head? = some t
  execution : ∃ scheduler outcome last, before.scheduler.next = (some t, scheduler) ∧
    ({ before with scheduler }.note (.dispatched t)).Writes ⟨t, 0⟩
      (behaviour t.update before.graph.toTopology t.vertex) values outcome last ∧
    outcome.error? = some e
  graph : after.graph = values.foldl (fun g value => g.withValue t.vertex value) before.graph
  tasks : after.tasks = t :: before.tasks
  updates : after.updates = before.updates

/-- As long as the loop goes on, every task that it took is counted.  When it has stopped with the
error of a task, it had taken and counted all others before. -/
structure Tally (behaviour : Behaviour F V E T O) (first : Machine F V E T O)
    (b : Board F V E T O) (status : RunStatus) : Prop where
  counted : status = .running → b.updates = b.tasks.length
  stopped : ∀ e, status = .ended (.error e) → e ≠ .aborted → ∃ before t values,
    first.Reaches behaviour (.sequential before .running) ∧
      before.updates = before.tasks.length ∧ StoppedBy behaviour before t values e b

variable {first : Machine F V E T O} {b : Board F V E T O}

theorem Turn.tally {r : Board F V E T O × RunStatus} (h : Turn behaviour b r) {p : PendingList F}
    (ho : Orderly b .running p) (hv : ∀ t ∈ p.tasks, b.graph.contains t.vertex = true)
    (hr : first.Reaches behaviour (.sequential b .running))
    (ht : Tally behaviour first b .running) :
    Tally behaviour first r.1 r.2 := by
  have hcounted := ht.counted rfl
  cases h with
  | aborted _ =>
    refine ⟨fun hrunning => ?_, fun e he hne => ?_⟩
    · cases hrunning
    · cases he
      exact absurd rfl hne
  | drained _ _ =>
    refine ⟨fun hrunning => ?_, fun e he => ?_⟩
    · cases hrunning
    · cases he
  | @ran scheduler t outcome b' _ hn hx =>
    obtain ⟨hfound, -, -⟩ := ho.tracks.next
    rw [hn] at hfound
    have hpresent := hv t (List.mem_of_find?_eq_some hfound.symm)
    obtain ⟨values, hwrites⟩ : ∃ values, ({ b with scheduler }.note (.dispatched t)).Writes ⟨t, 0⟩
        (behaviour t.update b.graph.toTopology t.vertex) values outcome b' := by
      have hload : ({ b with scheduler }.note (.dispatched t)).load behaviour t =
          .ok (behaviour t.update b.graph.toTopology t.vertex) := Board.load_eq_ok hpresent
      cases hx with
      | missing hl => cases hl.symm.trans hload
      | ran hl hc =>
        cases hl.symm.trans hload
        exact hc.exists_writes
    obtain ⟨hgraph, htasks, hupdates⟩ := hwrites.frame
    have hstopped : ∀ {e : EngineError} {event : Event F O}, outcome.error? = some e →
        event.task? = none → StoppedBy behaviour b t values e (b'.note event) := by
      intro e event he hevent
      refine ⟨?_, ⟨scheduler, outcome, b', hn, hwrites, he⟩, hgraph, ?_, hupdates⟩
      · rw [ho.tracks.queue.toList_eq, ← Scheduler.firstFree_nil, ← hfound]
      · rw [Board.tasks, Board.note, List.filterMap_cons_none hevent]
        exact htasks
    cases outcome with
    | finished =>
      rw [Board.settle_finished]
      obtain ⟨hquiet, -⟩ :=
        b'.increment.quiet_evaluateDue (b'.increment.syncs.due b'.increment.updates)
      refine ⟨fun _ => ?_, fun e he => ?_⟩
      · have hnew : b'.increment.updates = b'.increment.tasks.length := by
          show b'.updates + 1 = b'.tasks.length
          rw [hupdates, htasks]
          exact congrArg (· + 1) hcounted
        rw [hquiet.updates, hquiet.tasks, hnew]
      · rw [Board.evaluateDue] at he
        dsimp only at he
        split at he <;> cases he
    | failed e =>
      refine ⟨fun hrunning => ?_, fun e' he' _ => ?_⟩
      · cases hrunning
      · cases he'
        exact ⟨b, t, values, hr, hcounted, hstopped rfl rfl⟩
    | panicked =>
      refine ⟨fun hrunning => ?_, fun e' he' _ => ?_⟩
      · cases hrunning
      · cases he'
        exact ⟨b, t, values, hr, hcounted, hstopped rfl rfl⟩

theorem StoppedBy.congr {before after after' : Board F V E T O} {t : Task F} {values : List V}
    {e : EngineError} (h : StoppedBy behaviour before t values e after)
    (hg : after'.graph = after.graph) (ht : after'.tasks = after.tasks)
    (hu : after'.updates = after.updates) : StoppedBy behaviour before t values e after' :=
  ⟨h.front, h.execution, hg.trans h.graph, ht.trans h.tasks, hu.trans h.updates⟩

end Sequential

/-! ## Whole runs -/

namespace Machine

variable {b : Board F V E T O} {status : RunStatus} {p : PendingList F} {m : Machine F V E T O}

theorem Reaches.tally (h : (sequential b status).Reaches behaviour m)
    (ho : (sequential b status).Orderly p) (hv : ((sequential b status).scene p).Valid)
    (ht : Sequential.Tally behaviour (sequential b status) b status) :
    ∃ b' status', m = .sequential b' status' ∧
      Sequential.Tally behaviour (sequential b status) b' status' := by
  induction h with
  | refl => exact ⟨b, status, rfl, ht⟩
  | tail hreach hstep ih =>
    obtain ⟨b', status', rfl, ht'⟩ := ih
    obtain ⟨p', hmoves, ho'⟩ := Reaches.moves hreach ho
    have hv' := (Moves.valid hmoves hv).pending
    cases hstep with
    | @turn _ r hturn => exact ⟨r.1, r.2, rfl, hturn.tally ho' hv' hreach ht'⟩
    | abort =>
      refine ⟨_, status', rfl, ht'.counted, fun e he hne => ?_⟩
      obtain ⟨before, t, values, hr, hc, hs⟩ := ht'.stopped e he hne
      exact ⟨before, t, values, hr, hc, hs.congr rfl rfl rfl⟩

/-- When the loop has ended, there is nothing left but to ask for an abort. -/
theorem Reaches.of_ended {r : Except EngineError Unit}
    (h : (sequential b (.ended r)).Reaches behaviour m) :
    ∃ abort, m = .sequential { b with abort } (.ended r) := by
  induction h with
  | refl => exact ⟨b.abort, rfl⟩
  | tail _ hstep ih =>
    obtain ⟨abort, rfl⟩ := ih
    cases hstep
    exact ⟨true, rfl⟩

end Machine

/-- The sequential engine with a first-in-first-out scheduler works off its tasks in the order in
which they came: the tasks that were taken, and behind them those that are pending, are the tasks
pending at the start and those of the requests that became one, each with the function first given
or, if the policy replaces it, with the one last given before it was taken.

If the run stops with the error of a task, then every task before it was finished and counted, and
the graph is what they left, with the values that the program of this task had written to its own
vertex.  No task after it is ever taken. -/
theorem Core.Reachable.fifo_in_order {core : Core F V E T} (hc : core.Reachable behaviour)
    (he : core.options.engine = .sequential) (hf : core.options.scheduler = .fifo)
    {first m : Machine F V E T O} (hl : core.launch = .ok first) (hm : first.Reaches behaviour m) :
    let docket (m : Machine F V E T O) := (m.board.docket core.scheduler.queue.entered).reverse
    (m.board.tasks.reverse ++ m.board.scheduler.queue.toList).map Task.work =
        (docket m).map (Entry.work core.options.policy) ∧
      (∀ m', m.Reaches behaviour m' →
        (docket m').take m.board.tasks.length = (docket m).take m.board.tasks.length) ∧
      ∀ e, m.status = .ended (.error e) → e ≠ .aborted → ∃ before t values,
        first.Reaches behaviour (.sequential before .running) ∧
          before.updates = before.tasks.length ∧
          Sequential.StoppedBy behaviour before t values e m.board ∧
          (∀ m', m.Reaches behaviour m' →
            Sequential.StoppedBy behaviour before t values e m'.board) ∧
          ∀ conclusion next, core.conclude? m = some (conclusion, next) →
            conclusion = .stopped e ∧ next.lastUpdateCount = before.tasks.length ∧
              next.heldGraph? = some m.board.graph := by
  intro docket
  have hconsistent := hc.consistent
  obtain ⟨ho, hv⟩ := hconsistent.launch hl
  obtain ⟨b, status, rfl, hb, hin, hupdates, htasks, hrunning⟩ :=
    hconsistent.launch_inOrder he hf hl
  have htally : Sequential.Tally behaviour (.sequential b status) b status :=
    ⟨fun _ => by rw [hupdates, htasks]; rfl, fun e he _ => absurd he (hrunning e)⟩
  obtain ⟨b', status', p', rfl, ho', hin'⟩ := hm.inOrder hb hin
  refine ⟨hin'.works, fun m' hm' => ?_, fun e hended hne => ?_⟩
  · obtain ⟨old, hold, hlength⟩ := hin'.exists_past
    obtain ⟨b'', status'', p'', rfl, -, hold'⟩ := hm'.inOrder ho' hold
    show (docket (.sequential b'' status'')).take b'.tasks.length =
      (docket (.sequential b' status')).take b'.tasks.length
    rw [← hlength]
    exact hold'.take_docket.trans hold.take_docket.symm
  · obtain rfl : status' = .ended (.error e) := hended
    obtain ⟨_, _, hsame, htally'⟩ := hm.tally ho hv htally
    cases hsame
    obtain ⟨before, t, values, hr, hcounted, hstopped⟩ := htally'.stopped e rfl hne
    refine ⟨before, t, values, hr, hcounted, hstopped, fun m' hm' => ?_,
      fun conclusion next hconclude => ?_⟩
    · obtain ⟨abort, rfl⟩ := hm'.of_ended
      exact hstopped.congr rfl rfl rfl
    · obtain ⟨rfl, rfl⟩ := (Core.concludes_of_eq_some hconclude).of_error rfl
      exact ⟨rfl, hstopped.updates.trans hcounted, rfl⟩

/-- Vertices in a row.  One function writes a number and asks the next vertex for the other one,
which writes and then fails. -/
def handOver : Behaviour Bool Nat Unit Nat Empty
  | false, _, v => do
    Program.write 1
    Program.schedule (v + 1) true 1
  | true, _, _ => do
    Program.write 7
    .fail (.other "no")

/-- The core on which the first function is scheduled for all of three vertices. -/
def rowCore : Core Bool Nat Unit Nat where
  options := { ncpus := 1, policy := .replace }
  stage := .bound ((Graph.Operation.ensureVertices 3 0).edit.run {}).2
  scheduler :=
    ((((Scheduler.empty .fifo .replace).schedule 0 false 1).1.schedule 1 false 1).1.schedule
    2 false 1).1

theorem reachable_rowCore : rowCore.Reachable handOver :=
  .operation (.operation (.operation (.operation
    (.new (rfl : Core.withOptions rowCore.options = .ok _))
    (.setGraph _ (.operation .empty (.ensureVertices 3 0)))) (.schedule 0 false 1))
    (.schedule 1 false 1)) (.schedule 2 false 1)

/-- The machine that its run starts with. -/
def rowMachine : Machine Bool Nat Unit Nat Empty :=
  .start rowCore.options (rowCore.boardOn ((Graph.Operation.ensureVertices 3 0).edit.run {}).2)

/-- The run is stopped by the second task. -/
def rowFailed : Machine Bool Nat Unit Nat Empty :=
  rowMachine.advanceBy handOver 2

/-- The second task has the function that replaced its own.  It is not counted, but what it wrote
stays, and the third task is not run. -/
theorem fifo_in_order_row : ∃ next, rowCore.launch = .ok rowMachine ∧
    rowMachine.Reaches handOver rowFailed ∧
    rowFailed.board.tasks.reverse.map Task.work = [(0, false), (1, true)] ∧
    rowCore.conclude? rowFailed = some (.stopped (.update 1 (.other "no")), next) ∧
    next.lastUpdateCount = 1 ∧
    ∃ g, next.heldGraph? = some g ∧ g.value 1 = .ok 7 ∧ g.value 2 = .ok 0 := by
  have hlaunch : rowCore.launch = .ok rowMachine := rfl
  have hreach : rowMachine.Reaches handOver rowFailed := Machine.reaches_advanceBy ..
  have hconclude : rowCore.conclude? rowFailed =
      some (.stopped (.update 1 (.other "no")), _) := rfl
  obtain ⟨hworks, -, hfailed⟩ :=
    reachable_rowCore.fifo_in_order rfl rfl hlaunch hreach
  obtain ⟨before, t, values, -, -, hstopped, -, hend⟩ := hfailed _ rfl nofun
  obtain ⟨-, hcount, hheld⟩ := hend _ _ hconclude
  have htasks : rowFailed.board.tasks.length = before.tasks.length + 1 :=
    congrArg List.length hstopped.tasks
  have hlength : before.tasks.length = 1 := Nat.succ.inj htasks.symm
  refine ⟨_, hlaunch, hreach, ?_, hconclude, hcount.trans hlength, _, hheld, rfl, rfl⟩
  rw [List.map_append] at hworks
  exact List.append_cancel_right hworks

end VertexEngine
