import VertexEngine.Proofs.Core.Residue
import VertexEngine.Proofs.Run.Rest

/-!
# What an abort request does

A request to abort a run is heeded at the next look of the engine: from then on nobody gets a task,
and the run comes to rest with what was under way.  If nothing else went wrong it ends as aborted,
and what was still pending is dropped.

A request that finds no run waits for the next one that gets to its loop, whatever is done with the
core until then.  That run does nothing, and it uses the request up.

* `Machine.WindsDown` is what is still done in a run, and `Machine.Untouched` says that a run has
  done nothing at all.
* `Core.Lingers` is what can be done with a core without a run that gets to its loop.
* `Reachable.abort_heeded` is the result, and `abort_not_reported` shows why it asks for syncs that
  do not panic and for workers that can be started.
-/

namespace VertexEngine

variable {F V E T O : Type} {behaviour : Behaviour F V E T O}

/-! ## A run under way -/

theorem lastLook_append_of_looked {new deeds : List Deed} (h : ∀ a, .looked a ∈ new → a = true)
    (he : ∃ a, .looked a ∈ new) : lastLook (new ++ deeds) = some true := by
  obtain ⟨a, ha⟩ := he
  rw [lastLook, List.findSome?_append]
  cases hl : new.findSome? Deed.look? with
  | none => cases List.findSome?_eq_none_iff.mp hl _ ha
  | some b =>
    obtain ⟨deed, hmem, hdeed⟩ := List.exists_of_findSome?_eq_some hl
    cases deed with
    | ended v ending => cases hdeed
    | looked b' =>
      cases hdeed
      rw [h b hmem]
      rfl

/-- Without a fault, and with an abort at the last look, a run ends as aborted. -/
theorem Verdict.eq_aborted {deeds : List Deed} {r : Except EngineError Unit} (h : Verdict deeds r)
    (hf : Faultless deeds) (hl : lastLook deeds = some true) : r = .error .aborted := by
  cases h with
  | fault h => exact absurd hf h.not_faultless
  | aborted _ _ => rfl
  | converged _ hl' => cases hl.symm.trans hl'

namespace Machine

variable {m m' : Machine F V E T O} {deeds new : List Deed}

/-- Nobody takes a request back, and whoever looks sees it. -/
theorem Acts.aborted (h : m.Acts behaviour new m') (ha : m.board.abort = true) :
    m'.board.abort = true ∧ ∀ a, .looked a ∈ new → a = true := by
  cases m with
  | sequential b status =>
    cases h with
    | turn hdoes =>
      cases hdoes with
      | aborted _ => exact ⟨ha, fun a hmem => by cases List.mem_singleton.mp hmem; rfl⟩
      | drained hn _ => cases hn.symm.trans ha
      | missed hn _ _ => cases hn.symm.trans ha
      | ran hn _ _ _ => cases hn.symm.trans ha
    | abort => exact ⟨rfl, nofun⟩
  | threaded p =>
    have habort : m'.board.abort = true := by
      obtain ⟨p', rfl, ⟨_, _, _, _, _, _, hstep, -, rfl⟩ | ⟨-, -, habort, -⟩⟩ := h.pool_cases
      · exact hstep.abort ha
      · exact habort ha
    refine ⟨habort, fun a hmem => ?_⟩
    cases h with
    | actor hs => exact (Threaded.Pool.eq_of_looked hmem).trans ha
    | abort => cases hmem

theorem Passes.aborted (h : m.Passes behaviour deeds m') (ha : m.board.abort = true) :
    m'.board.abort = true ∧ ∀ a, .looked a ∈ deeds → a = true := by
  induction h with
  | start => exact ⟨ha, nofun⟩
  | step _ hs ih =>
    obtain ⟨ha', hlooked⟩ := ih
    obtain ⟨ha'', hlooked'⟩ := hs.aborted ha'
    exact ⟨ha'', fun a hmem => (List.mem_append.mp hmem).elim (hlooked' a) (hlooked a)⟩

theorem Step.aborted (h : m.Step behaviour m') (ha : m.board.abort = true) :
    m'.board.abort = true := by
  rcases h.acts with ⟨new, hacts⟩ | ⟨p, index, reason, rfl, rfl⟩
  · exact (hacts.aborted ha).1
  · exact ha

/-- What is still done in a run from a machine on: nobody gets a task, no program is begun, and the
run comes to rest. -/
structure WindsDown (behaviour : Behaviour F V E T O) (m last : Machine F V E T O) : Prop where
  tasks : last.board.tasks = m.board.tasks
  finish : last.board.scheduler.dispatch last.board.abort = (.finish, last.board.scheduler)
  underWay : (underWay last.hands).Subperm (underWay m.hands)
  goesOn : last.status = .running → ∃ next, last.Works behaviour next
  /-- It does not go on for ever. -/
  rests : Acc (fun next m : Machine F V E T O => m.Works behaviour next) last

theorem Reaches.windsDown (h : m.Reaches behaviour m') (ha : m.board.abort = true)
    {p : PendingList F} (ho : m.Orderly p) : m.WindsDown behaviour m' := by
  have hkept : m'.board.abort = true ∧ m'.board.tasks = m.board.tasks ∧
      (underWay m'.hands).Subperm (underWay m.hands) := by
    induction h with
    | refl => exact ⟨ha, rfl, .refl _⟩
    | tail _ hstep ih =>
      obtain ⟨ha', htasks, hhands⟩ := ih
      obtain ⟨-, htasks', hhands'⟩ := hstep.halting (halting_of_abort ha')
      exact ⟨hstep.aborted ha', htasks'.trans htasks, hhands'.trans hhands⟩
  obtain ⟨ha', htasks, hhands⟩ := hkept
  obtain ⟨p', -, ho'⟩ := h.moves ho
  exact ⟨htasks, Scheduler.dispatch_of_stopped (.inr ha'), hhands, ho'.exists_works behaviour,
    (halting_of_abort ha').acc_works⟩

/-- What has stopped stays as it is, but for the abort request. -/
theorem Step.stopped (h : m.Step behaviour m') (hs : m.status ≠ .running)
    (ha : m.board.abort = true) : m'.status = m.status ∧ m'.board.abort = true := by
  cases h with
  | turn _ => exact absurd rfl hs
  | @actor p _ _ ht =>
    unfold Threaded.Pool.step at ht
    split at ht
    · exact absurd ‹_› hs
    · cases ht
  | abort => cases m <;> exact ⟨rfl, rfl⟩
  | spawnFailed _ hr _ _ _ => exact absurd hr hs

theorem Reaches.stopped (h : m.Reaches behaviour m') (hs : m.status ≠ .running)
    (ha : m.board.abort = true) : m'.status = m.status ∧ m'.board.abort = true := by
  induction h with
  | refl => exact ⟨rfl, ha⟩
  | tail _ hstep ih =>
    obtain ⟨hstatus, ha'⟩ := ih
    obtain ⟨hstatus', ha''⟩ := hstep.stopped (hstatus ▸ hs) ha'
    exact ⟨hstatus'.trans hstatus, ha''⟩

end Machine

/-! ## A run that begins with an abort request -/

namespace Threaded

/-- The worker has not had a task. -/
def Phase.IsUntouched : Phase F V T O → Prop
  | starting => True
  | missing => True
  | idle => True
  | leaving => True
  | left crashed => crashed = false
  | _ => False

theorem Phase.Step.untouched {index : Nat} {b b' : Board F V E T O} {old new : Phase F V T O}
    {e : Option EngineError} (h : old.Step behaviour index b new b' e) (ha : b.abort = true)
    (hu : old.IsUntouched) :
    new.IsUntouched ∧ b'.graph = b.graph ∧ b'.updates = b.updates ∧ e = none := by
  have hfinish := b.scheduler.dispatch_of_stopped (.inr ha)
  cases h with
  | start => exact ⟨trivial, rfl, rfl, rfl⟩
  | withdraw => exact ⟨rfl, rfl, rfl, rfl⟩
  | retire _ => exact ⟨trivial, rfl, rfl, rfl⟩
  | load hd _ => cases hd.symm.trans hfinish
  | miss hd _ => cases hd.symm.trans hfinish
  | leave => exact ⟨rfl, rfl, rfl, rfl⟩
  | _ => exact hu.elim

end Threaded

/-- The error of a worker that could not be started. -/
def EngineError.IsSpawn : EngineError → Prop
  | .workerSpawn _ => True
  | _ => False

namespace Machine

/-- An abort is requested, and nothing was done on the graph.  Workers that could not be started are
the only error, and none at all unless that is `failing`. -/
structure Untouched (failing : Prop) (g : Graph V E) (m : Machine F V E T O) : Prop where
  abort : m.board.abort = true
  graph : m.board.graph = g
  updates : m.board.updates = 0
  status : m.status = .running ∨
    ∃ e, m.status = .ended (.error e) ∧ (e = .aborted ∨ failing ∧ e.IsSpawn)
  workers : ∀ p, m = .threaded p →
    (∀ e, p.firstError = some e → failing ∧ e.IsSpawn) ∧ ∀ w ∈ p.workers, w.IsUntouched

variable {m m' : Machine F V E T O} {deeds new : List Deed} {g : Graph V E} {failing : Prop}

/-- The pool finds that its workers have left, and ends the run. -/
theorem Untouched.stepPool {p p' : Threaded.Pool F V E T O}
    (hu : (threaded p : Machine F V E T O).Untouched failing g) (hs : p.stepPool = some p') :
    (threaded p' : Machine F V E T O).Untouched failing g := by
  have ha : p.board.abort = true := hu.abort
  obtain ⟨herror, hworkers⟩ := hu.workers p rfl
  unfold Threaded.Pool.stepPool at hs
  split at hs
  · have hended : ∃ e, p.finish = { p with status := .ended (.error e) } ∧
        (e = .aborted ∨ failing ∧ e.IsSpawn) := by
      cases hf : p.firstError with
      | some e => exact ⟨e, by simp only [Threaded.Pool.finish, hf], .inr (herror e hf)⟩
      | none => exact ⟨_, by simp only [Threaded.Pool.finish, hf, ha, if_true], .inl rfl⟩
    obtain rfl := Option.some.inj hs
    obtain ⟨e, hfinish, he⟩ := hended
    rw [hfinish]
    exact ⟨ha, hu.graph, hu.updates, .inr ⟨e, rfl, he⟩,
      by rintro _ ⟨⟩; exact ⟨herror, hworkers⟩⟩
  · obtain rfl := Option.some.inj hs
    exact ⟨ha, hu.graph, hu.updates, hu.status, by rintro _ ⟨⟩; exact ⟨herror, hworkers⟩⟩
  · rename_i hw
    cases hworkers _ (List.mem_of_getElem? hw)
  · cases hs

theorem Acts.untouched (h : m.Acts behaviour new m') (hu : m.Untouched failing g) :
    m'.Untouched failing g := by
  have habort := (h.aborted hu.abort).1
  cases h with
  | turn hdoes =>
    cases hdoes with
    | aborted _ =>
      exact ⟨habort, hu.graph, hu.updates, .inr ⟨_, rfl, .inl rfl⟩, by rintro _ ⟨⟩⟩
    | drained hn _ => cases hn.symm.trans hu.abort
    | missed hn _ _ => cases hn.symm.trans hu.abort
    | ran hn _ _ _ => cases hn.symm.trans hu.abort
  | @actor p p' a hs =>
    unfold Threaded.Pool.step at hs
    split at hs
    · cases a with
      | worker index =>
        obtain ⟨herror, hworkers⟩ := hu.workers p rfl
        obtain ⟨old, new, b, e, hw, hstep, rfl⟩ := Threaded.Pool.stepWorker_eq_some hs
        obtain ⟨hnew, hgraph, hupdates, rfl⟩ :=
          hstep.untouched hu.abort (hworkers old (List.mem_of_getElem? hw))
        refine ⟨habort, hgraph.trans hu.graph, hupdates.trans hu.updates, hu.status, ?_⟩
        rintro _ ⟨⟩
        refine ⟨by simpa [Threaded.Pool.stepped] using herror, fun w hmem => ?_⟩
        rcases List.mem_or_eq_of_mem_set hmem with hmem | rfl
        · exact hworkers w hmem
        · exact hnew
      | pool => exact hu.stepPool hs
    · cases hs
  | abort =>
    cases m with
    | sequential b status => exact ⟨rfl, hu.graph, hu.updates, hu.status, by rintro _ ⟨⟩⟩
    | threaded p =>
      refine ⟨rfl, hu.graph, hu.updates, hu.status, ?_⟩
      rintro _ ⟨⟩
      exact hu.workers p rfl

theorem Passes.untouched (h : m.Passes behaviour deeds m') (hu : m.Untouched failing g) :
    m'.Untouched failing g := by
  induction h with
  | start => exact hu
  | step _ hs ih => exact hs.untouched ih

/-- A worker that cannot be started is noted as the error, unless there was one. -/
theorem Untouched.spawnFailed {p : Threaded.Pool F V E T O}
    (hu : (threaded p : Machine F V E T O).Untouched failing g) (hf : failing) (index : Nat)
    (reason : String) :
    (threaded (p.spawnFailed index reason) : Machine F V E T O).Untouched failing g := by
  refine ⟨hu.abort, hu.graph, hu.updates, hu.status, ?_⟩
  rintro _ ⟨⟩
  obtain ⟨herror, hworkers⟩ := hu.workers p rfl
  refine ⟨fun e he => ?_, fun w hw => ?_⟩
  · cases hfirst : p.firstError with
    | some first =>
      rw [Threaded.Pool.spawnFailed, hfirst] at he
      cases he
      exact herror _ hfirst
    | none =>
      rw [Threaded.Pool.spawnFailed, hfirst] at he
      cases he
      exact ⟨hf, trivial⟩
  · rcases List.mem_append.mp hw with hw | hw
    · exact hworkers w (List.mem_of_mem_take hw)
    · rw [List.mem_singleton.mp hw]
      trivial

theorem Reaches.untouched (h : m.Reaches behaviour m') (hf : failing)
    (hu : m.Untouched failing g) : m'.Untouched failing g := by
  induction h with
  | refl => exact hu
  | tail _ hstep ih =>
    rcases hstep.acts with ⟨new, hacts⟩ | ⟨p, index, reason, rfl, rfl⟩
    · exact hacts.untouched ih
    · exact ih.spawnFailed hf index reason

end Machine

namespace Core

/-! ## A core that waits for a run -/

/-- What can be done with a core without a run that gets to its loop. -/
inductive Lingers (behaviour : Behaviour F V E T O) : Core F V E T → Core F V E T → Prop
  | operation (core : Core F V E T) (op : Operation F V E T) :
    Lingers behaviour core (op.call.run core).2
  /-- A run is not started. -/
  | refused {core : Core F V E T} {e : EngineError} (h : core.launch (O := O) = .error e) :
    Lingers behaviour core core
  /-- A sync panics while they are evaluated for the first time. -/
  | crashed {core : Core F V E T} (r : Run behaviour core) (h : r.first.status = .crashed) :
    Lingers behaviour core r.next

/-- No operation takes a request back. -/
theorem Operation.keeps_abort (op : Operation F V E T) :
    Keeps (fun core => core.abort = true) op.call :=
  op.keeps_of_aside (fun _ _ _ _ _ h => h) fun _ _ => rfl

/-- A run finds the request that was made before it. -/
theorem launch_abort {core : Core F V E T} (ha : core.abort = true) {m : Machine F V E T O}
    (h : core.launch = .ok m) : m.board.abort = true := by
  obtain ⟨g, b, -, hquiet, -, -, ⟨-, rfl⟩ | ⟨-, rfl⟩⟩ := launch_cases h
  · exact hquiet.abort ha
  · rw [Machine.Orderly.board_start]
    exact hquiet.abort ha

/-- Only a run that gets to its loop uses a request up. -/
theorem Lingers.abort {core core' : Core F V E T} (h : Lingers behaviour core core')
    (ha : core.abort = true) : core'.abort = true := by
  cases h with
  | operation op => exact op.keeps_abort _ ha
  | refused _ => exact ha
  | crashed r hr =>
    obtain ⟨first, last, conclusion, next, hlaunched, hreached, hconcluded⟩ := r
    -- After the crash the machine only takes requests, so the one that was there comes back.
    have hr : first.status = .crashed := hr
    obtain ⟨hstatus, habort⟩ := hreached.stopped (hr ▸ nofun) (launch_abort ha hlaunched)
    cases concludes_of_eq_some hconcluded with
    | crashed _ => exact habort
    | converged hs => cases (hstatus.trans hr).symm.trans hs
    | stopped hs => cases (hstatus.trans hr).symm.trans hs

theorem Lingers.reachable {core core' : Core F V E T} (h : Lingers behaviour core core')
    (hc : core.Reachable behaviour) : core'.Reachable behaviour := by
  cases h with
  | operation op => exact .operation hc op
  | refused _ => exact hc
  | crashed r _ => exact .run hc r

/-- However long the core waits, the request is there. -/
theorem waits_of_lingers {core core' : Core F V E T}
    (h : Relation.ReflTransGen (Lingers behaviour) core core') (hc : core.Reachable behaviour)
    (ha : core.abort = true) : core'.Reachable behaviour ∧ core'.abort = true := by
  induction h with
  | refl => exact ⟨hc, ha⟩
  | tail _ hstep ih =>
    obtain ⟨hc', ha'⟩ := ih
    exact ⟨hstep.reachable hc', hstep.abort ha'⟩

/-- A run that is not started was asked of a core without a graph. -/
theorem launch_refused {core : Core F V E T} {e : EngineError}
    (h : core.launch (O := O) = .error e) : e = .graphNotBound ∨ e = .useAfterDestroy := by
  rcases launch_eq_error.mp h with ⟨-, rfl⟩ | ⟨-, rfl⟩
  · exact .inr rfl
  · exact .inl rfl

/-- A run that gets to its loop with a request has not done anything yet. -/
theorem launch_untouched {core : Core F V E T} (ha : core.abort = true) {m : Machine F V E T O}
    (h : core.launch = .ok m) (hr : m.status = .running) :
    ∃ g, core.heldGraph? = some g ∧ m.board.tasks = [] ∧
      ∀ failing : Prop, m.Untouched failing g := by
  have habort := launch_abort ha h
  obtain ⟨g, b, hstage, hquiet, -, -, ⟨-, rfl⟩ | ⟨-, rfl⟩⟩ := launch_cases h
  · cases hr
  · have hb := Machine.Orderly.board_start core.options b
    refine ⟨g, by rw [heldGraph?, hstage], ?_,
      fun failing => ⟨habort, ?_, ?_, .inl hr, fun p hp => ?_⟩⟩
    · rw [hb]
      exact hquiet.tasks
    · rw [hb]
      exact hquiet.graph
    · rw [hb]
      exact hquiet.updates
    · unfold Machine.start at hp
      split at hp
      · cases hp
      · cases hp
        refine ⟨fun e he => (by cases he), fun w hw => ?_⟩
        rw [List.eq_of_mem_replicate hw]
        trivial

/-! ## The result -/

/-- The run ended with the error after so many updates.  What was pending is dropped, and the
request is used up. -/
structure StoppedAfter (e : EngineError) (updates : Nat) (conclusion : Conclusion)
    (next : Core F V E T) : Prop where
  conclusion : conclusion = .stopped e
  updates : next.lastUpdateCount = updates
  pending : next.scheduler.queue.toList = []
  abort : next.abort = false

theorem Consistent.stoppedAfter {core : Core F V E T} (hc : core.Consistent)
    {first last : Machine F V E T O} (hl : core.launch = .ok first)
    (hr : first.Reaches behaviour last) {e : EngineError} (hs : last.status = .ended (.error e))
    {conclusion : Conclusion} {next : Core F V E T}
    (hconclude : core.conclude? last = some (conclusion, next)) :
    StoppedAfter e last.board.updates conclusion next := by
  obtain ⟨rfl, rfl⟩ := (concludes_of_eq_some hconclude).of_error hs
  obtain ⟨hpending, habort, -⟩ :=
    Run.swept ⟨first, last, _, _, hl, hr, hconclude⟩ hc.toSound nofun
  exact ⟨rfl, rfl, hpending, habort⟩

/-- An abort request is heeded, and once.

A run that it comes into winds down, whatever happens.  If workers can be started, no task fails or
panics, no sync panics, and the engine has looked for an abort since, it ends as aborted, with an
update for each task that finished.

A request that finds no run waits for the next one that gets to its loop.  That run takes no task
and ends as aborted, unless a worker could not be started; and after it the core cannot be told from
a new one with the same graph and syncs. -/
theorem Reachable.abort_heeded {core : Core F V E T} (hc : core.Reachable behaviour) :
    (∀ first m last : Machine F V E T O, core.launch = .ok first → first.Reaches behaviour m →
        m.board.abort = true → m.Reaches behaviour last → m.WindsDown behaviour last) ∧
      (∀ (first m last : Machine F V E T O) (before after : List Deed), core.launch = .ok first →
        first.Passes behaviour before m → m.board.abort = true → m.Passes behaviour after last →
        (after.filterMap Deed.vertex? ++ underWay last.hands).Perm (underWay m.hands) ∧
          ∀ conclusion next, core.syncs.Total → Faultless (after ++ before) →
            (∃ a, .looked a ∈ after) → core.conclude? last = some (conclusion, next) →
            StoppedAfter .aborted ((after ++ before).countP Deed.isFinished) conclusion next) ∧
      ∀ asked, Relation.ReflTransGen (Lingers behaviour) core.requestAbort asked →
        (∀ e, asked.launch (O := O) = .error e → e = .graphNotBound ∨ e = .useAfterDestroy) ∧
          ∀ first last : Machine F V E T O, asked.launch = .ok first → first.status = .running →
            first.Reaches behaviour last →
            first.WindsDown behaviour last ∧ last.board.tasks = [] ∧
              ∀ conclusion next, asked.conclude? last = some (conclusion, next) →
                ∃ e, StoppedAfter e 0 conclusion next ∧ (e = .aborted ∨ e.IsSpawn) ∧
                  (∀ deeds, first.Passes behaviour deeds last → e = .aborted) ∧
                  ∃ g new, asked.heldGraph? = some g ∧ withOptions asked.options = .ok new ∧
                    ∀ (later : Behaviour F V E T O) (episodes : List (Episode F V E T O)),
                      next.Unfolds later episodes ↔
                        (new.furnish g next.syncs.syncs).Unfolds later episodes := by
  have hconsistent := hc.consistent
  refine ⟨fun first m last hl hm ha hlast => ?_,
    fun first m last before after hl hbefore ha hafter => ?_, fun asked hasked => ?_⟩
  · obtain ⟨ho, -⟩ := hconsistent.launch hl
    obtain ⟨p, -, ho'⟩ := hm.moves ho
    exact hlast.windsDown ha ho'
  · obtain ⟨-, -, hperm⟩ := hafter.halting (Machine.halting_of_abort ha)
    refine ⟨hperm, fun conclusion next ht hf hlooked hconclude => ?_⟩
    have hpasses := hbefore.trans hafter
    obtain ⟨r, hstatus, hverdict, hupdates⟩ := hconsistent.verdict ht hl hpasses hconclude
    obtain rfl := hverdict.eq_aborted hf (lastLook_append_of_looked (hafter.aborted ha).2 hlooked)
    rw [← hupdates]
    exact hconsistent.stoppedAfter hl hpasses.reaches hstatus hconclude
  · have hc' : core.requestAbort.Reachable behaviour := .operation hc .requestAbort
    obtain ⟨hreachable, ha⟩ := waits_of_lingers hasked hc' rfl
    have hconsistent' := hreachable.consistent
    refine ⟨fun e => launch_refused, fun first last hl hrunning hreaches => ?_⟩
    obtain ⟨g, hg, htasks, huntouched⟩ := launch_untouched ha hl hrunning
    obtain ⟨ho, -⟩ := hconsistent'.launch hl
    have hdown := hreaches.windsDown (huntouched True).abort ho
    refine ⟨hdown, hdown.tasks.trans htasks, fun conclusion next hconclude => ?_⟩
    have huntouched' := hreaches.untouched trivial (huntouched True)
    rcases huntouched'.status with hs | ⟨e, hs, he⟩
    · rw [conclude?, hs] at hconclude
      cases hconclude
    · have hstopped := hconsistent'.stoppedAfter hl hreaches hs hconclude
      rw [huntouched'.updates] at hstopped
      obtain ⟨new, hnew, hlike⟩ :=
        Run.alike_furnish ⟨first, last, conclusion, next, hl, hreaches, hconclude⟩ hconsistent'
          fun hcrashed => by cases hstopped.conclusion.symm.trans hcrashed
      rw [huntouched'.graph] at hlike
      -- Where every worker could be started, no error but the abort is possible.
      refine ⟨e, hstopped, he.imp_right And.right, fun deeds hpasses => ?_, g, new, hg, hnew,
        fun _ _ => hlike.unfolds_iff⟩
      rcases (hpasses.untouched (huntouched False)).status with hs' | ⟨e', hs', he'⟩
      · cases hs'.symm.trans hs
      · cases hs'.symm.trans hs
        exact he'.resolve_right And.left

/-- The pool with an abort request. -/
def aborting (pool : Threaded.Pool F V E T O) : Threaded.Pool F V E T O :=
  { pool with board := { pool.board with abort := true } }

/-- The first of two workers has begun a task when an abort is requested. -/
def abortedPool : Threaded.Pool Unit Nat Unit Nat Empty :=
  aborting (twoTasksPool.interleave addOne [.worker 0, .worker 1, .worker 0])

/-- The first worker finishes its task; then both workers leave, and the pool notices it. -/
def windingDown : List Threaded.Actor :=
  List.replicate 8 (.worker 0) ++ List.replicate 2 (.worker 1) ++ List.replicate 3 .pool

/-- Both workers leave at once. -/
def leavingAtOnce : List Threaded.Actor :=
  List.replicate 3 (.worker 0) ++ List.replicate 3 (.worker 1) ++ List.replicate 3 .pool

/-- An abort in the middle of a run lets the task under way be counted; one before the run lets no
task be taken. -/
theorem abort_heeded_twoTasks :
    (∃ next, twoTasks.conclude? (.threaded (abortedPool.interleave addOne windingDown)) =
        some (.stopped .aborted, next) ∧ next.lastUpdateCount = 1 ∧
          next.scheduler.queue.toList = []) ∧
      twoTasks.requestAbort.launch = .ok (.threaded (aborting twoTasksPool)) ∧
      ∃ next, twoTasks.requestAbort.conclude?
          (.threaded ((aborting twoTasksPool).interleave addOne leavingAtOnce)) =
            some (.stopped .aborted, next) ∧ next.lastUpdateCount = 0 ∧ next.abort = false := by
  obtain ⟨-, hmiddle, hidle⟩ := reachable_twoTasks.abort_heeded
  constructor
  · have hlaunch : twoTasks.launch = .ok (.threaded twoTasksPool) := rfl
    have hbefore := Machine.passes_interleave addOne twoTasksPool [.worker 0, .worker 1, .worker 0]
    have hafter := Machine.passes_interleave addOne abortedPool windingDown
    obtain ⟨-, hend⟩ := hmiddle _ _ _ _ _ hlaunch (.step hbefore (.abort _)) rfl hafter
    have htotal : twoTasks.syncs.Total := nofun
    have hconclude : twoTasks.conclude? (.threaded (abortedPool.interleave addOne windingDown)) =
        some (.stopped .aborted, _) := rfl
    have hstopped := hend _ _ htotal (by decide) ⟨true, List.mem_cons_self⟩ hconclude
    exact ⟨_, hconclude, hstopped.updates, hstopped.pending⟩
  · have hlaunch : twoTasks.requestAbort.launch = .ok (.threaded (aborting twoTasksPool)) := rfl
    have hpasses := Machine.passes_interleave addOne (aborting twoTasksPool) leavingAtOnce
    obtain ⟨-, hruns⟩ := hidle _ .refl
    obtain ⟨-, -, hend⟩ := hruns _ _ hlaunch rfl hpasses.reaches
    have hconclude : twoTasks.requestAbort.conclude?
        (.threaded ((aborting twoTasksPool).interleave addOne leavingAtOnce)) =
          some (.stopped .aborted, _) := rfl
    obtain ⟨e, hstopped, -⟩ := hend _ _ hconclude
    exact ⟨hlaunch, _, hconclude, hstopped.updates, hstopped.abort⟩

/-! ### Where no abort is reported -/

/-- Writes one, and requests an abort. -/
def writeAndAbort : Behaviour Unit Nat Unit Nat Empty :=
  fun _ _ _ => do
    Program.write 1
    Program.raiseAbort

/-- A sync that takes zeros only, and is due after every update. -/
def zerosOnly : SyncSpec Nat Nat where
  zero := 0
  fold total _ x := if x = 0 then some total else none
  interval := 1

/-- A core with one vertex, one task for it, two workers, and the sync. -/
def watched : Core Unit Nat Unit Nat where
  options := { engine := .threaded, ncpus := 2 }
  stage := .bound ((Graph.Operation.addVertex 0).edit.run {}).2
  scheduler := ((Scheduler.empty .fifo .coalesce).schedule 0 () 1).1
  syncs := { syncs := [⟨0, zerosOnly, 0⟩] }

theorem reachable_watched : watched.Reachable writeAndAbort :=
  .operation (.operation (.operation
    (.new (rfl : Core.withOptions watched.options = .ok _))
    (.setGraph _ (.operation .empty (.addVertex 0)))) (.schedule 0 () 1)) (.setSync 0 zerosOnly)

/-- Its workers before they have moved. -/
def watchedPool : Threaded.Pool Unit Nat Unit Nat Empty :=
  let g := ((Graph.Operation.addVertex 0).edit.run {}).2
  let (syncs, round) := watched.syncs.evaluateAll g
  .start (({ watched.boardOn g with syncs }.noteRound round).note (.loopStarted .threaded)) 2

/-- The first worker finishes its task and is lost in the sync; the second one sees the request. -/
def lostInSync : List Threaded.Actor :=
  [.worker 0, .worker 1] ++ List.replicate 8 (.worker 0) ++ List.replicate 2 (.worker 1) ++
    List.replicate 3 .pool

/-- A sync that panics, or a worker that cannot be started, is reported in place of an abort request
that was seen. -/
theorem abort_not_reported :
    (watched.Reachable writeAndAbort ∧ watched.launch = .ok (.threaded watchedPool) ∧
      Faultless (watchedPool.deedsAlong writeAndAbort lostInSync) ∧
      lastLook (watchedPool.deedsAlong writeAndAbort lostInSync) = some true ∧
      ∃ next, watched.conclude? (.threaded (watchedPool.interleave writeAndAbort lostInSync)) =
        some (.stopped .workerPanicked, next)) ∧
      twoTasks.requestAbort.launch = .ok (.threaded (aborting twoTasksPool)) ∧
      ∃ last next, (Machine.threaded (aborting twoTasksPool)).Reaches addOne last ∧
        twoTasks.requestAbort.conclude? last = some (.stopped (.workerSpawn "no"), next) := by
  refine ⟨⟨reachable_watched, rfl, by decide, by decide, _, rfl⟩, rfl, ?_⟩
  let failed := (aborting twoTasksPool).spawnFailed 0 "no"
  have hspawn : (Machine.threaded (aborting twoTasksPool)).Step addOne (.threaded failed) :=
    .spawnFailed "no" rfl rfl (by decide) fun w hw => List.eq_of_mem_replicate hw
  exact ⟨_, _, .head hspawn (Machine.reaches_interleave addOne failed
    [.worker 0, .worker 0, .pool, .pool]), rfl⟩

end Core

end VertexEngine
