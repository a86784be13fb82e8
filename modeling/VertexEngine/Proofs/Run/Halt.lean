import VertexEngine.Proofs.Run.Verdict

/-!
# When no more tasks are handed out

An abort request, or a scheduler that is closed, stops the handing out of tasks for the rest of a
run.  Each worker then finishes at most the task that it has in its hands.

A worker whose task has failed gives the vertex back first and closes the scheduler last.  Between
the two, other workers still get tasks, even for the vertex that the failed task was for; so it is
not the failure that stops them, but the closing.

* `Machine.Halting` says that tasks are no longer handed out, and `Passes.halting` what still
  happens then.
* `Pool.HasFailed` says of a worker that it is on its way to close the scheduler, or has closed it.
* `failure_stops` puts the two together, and `taken_after_failure` is a task that a worker gets
  after another one has failed.
-/

namespace VertexEngine

variable {F V E T O : Type} {behaviour : Behaviour F V E T O}

theorem Scheduler.dispatch_of_stopped {s : Scheduler F} {abort : Bool}
    (h : s.closed = true ∨ abort = true) : s.dispatch abort = (.finish, s) :=
  if_pos (Bool.or_eq_true_iff.mpr h)

/-! ## A worker -/

namespace Threaded

/-- The task of the worker has failed, and the worker is still to close the scheduler. -/
def Phase.IsFailing : Phase F V T O → Prop
  | returned _ outcome => outcome ≠ .finished
  | completed _ outcome => outcome ≠ .finished
  | closing => True
  | _ => False

/-- The number of steps after which a worker that is failing has closed the scheduler. -/
def Phase.toClose : Phase F V T O → Nat
  | returned .. => 3
  | completed .. => 2
  | closing => 1
  | _ => 0

namespace Phase.Step

variable {index : Nat} {b b' : Board F V E T O} {old new : Phase F V T O} {e : Option EngineError}

theorem closed (h : old.Step behaviour index b new b' e) (hc : b.scheduler.closed = true) :
    b'.scheduler.closed = true := by
  have hfinish : b.scheduler.dispatch b.abort = (.finish, b.scheduler) :=
    Scheduler.dispatch_of_stopped (.inl hc)
  cases h with
  | retire hd =>
    obtain rfl := (Prod.mk.inj (hd.symm.trans hfinish)).2
    exact hc
  | load hd _ => cases hd.symm.trans hfinish
  | miss hd _ => cases hd.symm.trans hfinish
  | ask x action next =>
    rw [Board.perform_scheduler]
    exact hc
  | close | withdraw => rfl
  | _ => exact hc

theorem abort (h : old.Step behaviour index b new b' e) (ha : b.abort = true) :
    b'.abort = true := by
  cases h with
  | ask x action next =>
    have heffect := b.perform_effect x action
    generalize (b.perform x action).2.1 = x', (b.perform x action).2.2 = b' at heffect
    cases heffect with
    | raised => rfl
    | _ => exact ha
  | _ => exact ha

/-- Nothing is handed out any more, and no step changes that. -/
theorem halting (h : old.Step behaviour index b new b' e)
    (hh : b.scheduler.closed = true ∨ b.abort = true) :
    (b'.scheduler.closed = true ∨ b'.abort = true) ∧ b'.tasks = b.tasks := by
  refine ⟨hh.imp h.closed h.abort, ?_⟩
  have hfinish := Scheduler.dispatch_of_stopped hh
  cases h with
  | load hd _ => cases hd.symm.trans hfinish
  | miss hd _ => cases hd.symm.trans hfinish
  | ask x action next => exact b.perform_tasks x action
  | _ => rfl

/-- A program under way goes on, or comes to its end. -/
theorem underWay_perm (h : old.Step behaviour index b new b' e)
    (hh : b.scheduler.closed = true ∨ b.abort = true) :
    ((old.deeds b).filterMap Deed.vertex? ++ underWay new.hands).Perm (underWay old.hands) := by
  have hfinish := Scheduler.dispatch_of_stopped hh
  cases h with
  | retire _ =>
    rcases deeds_idle (F := F) (V := V) (T := T) (O := O) b with hdeeds | hdeeds <;>
      rw [hdeeds] <;> exact .refl _
  | load hd _ => cases hd.symm.trans hfinish
  | miss hd _ => cases hd.symm.trans hfinish
  | ask x action next =>
    simp [deeds, Program.ending?, hands, underWay, Hand.runsOn?]
  | _ => exact .refl _

theorem gone_of_gone (h : old.Step behaviour index b new b' e) (hg : old.isGone = true) :
    new.isGone = true := by
  cases h with
  | leave => rfl
  | _ => cases hg

/-- A worker whose task fails does nothing else before it has closed the scheduler. -/
theorem failing (h : old.Step behaviour index b new b' e)
    (hf : ¬Faultless (old.deeds b) ∨ old.IsFailing) :
    new.IsFailing ∨ new.isGone = true ∧ b'.scheduler.closed = true := by
  cases h with
  | fail x source => exact .inl nofun
  | panic x => exact .inl nofun
  | release v outcome => exact .inl (hf.resolve_left (absurd faultless_nil))
  | noteFailed v e => exact .inl trivial
  | notePanicked v => exact .inl trivial
  | close => exact .inr ⟨rfl, rfl⟩
  | count v => exact absurd rfl (hf.resolve_left (absurd faultless_nil))
  | finish x =>
    refine (hf.resolve_left (absurd fun deed hdeed => ?_)).elim
    rw [List.mem_singleton.mp hdeed]
    rfl
  | retire _ | load _ _ | miss _ _ =>
    rcases deeds_idle (F := F) (V := V) (T := T) (O := O) b with hdeeds | hdeeds
    · exact (hf.resolve_left (absurd (hdeeds ▸ faultless_nil))).elim
    · exact (hf.resolve_left (absurd (hdeeds ▸ faultless_looked _))).elim
  | _ => exact (hf.resolve_left (absurd faultless_nil)).elim

/-- It gets nearer to closing the scheduler with each of its steps. -/
theorem toClose_lt (h : old.Step behaviour index b new b' e) (hf : old.IsFailing) :
    new.toClose < old.toClose := by
  cases h with
  | release v outcome => exact Nat.lt_succ_self 2
  | noteFailed v e => exact Nat.lt_succ_self 1
  | notePanicked v => exact Nat.lt_succ_self 1
  | close => exact Nat.one_pos
  | count v => exact absurd rfl hf
  | _ => exact hf.elim

end Phase.Step

/-! ## The pool -/

namespace Pool

variable {p p' : Pool F V E T O} {index : Nat}

/-- A step of the pool itself hands nothing out and leaves the workers as they are. -/
theorem stepPool_keeps (h : p.stepPool = some p') :
    p'.workers = p.workers ∧ p'.board.tasks = p.board.tasks ∧ p'.board.abort = p.board.abort ∧
      (p.board.scheduler.closed = true → p'.board.scheduler.closed = true) := by
  unfold stepPool at h
  split at h
  · obtain rfl := Option.some.inj h
    unfold finish
    split
    · exact ⟨rfl, rfl, rfl, id⟩
    · split
      · exact ⟨rfl, rfl, rfl, id⟩
      · exact ⟨rfl, rfl, rfl, id⟩
  · obtain rfl := Option.some.inj h
    exact ⟨rfl, rfl, rfl, id⟩
  · obtain rfl := Option.some.inj h
    exact ⟨rfl, rfl, rfl, fun _ => rfl⟩
  · cases h

theorem deeds_pool_cases (p : Pool F V E T O) :
    p.deeds .pool = [] ∨ p.deeds .pool = [.looked p.board.abort] := by
  cases hw : p.workers[p.joined]? <;> cases hf : p.firstError <;> simp [deeds, hw, hf]

/-- The pool itself executes nothing. -/
theorem deeds_pool (p : Pool F V E T O) :
    Faultless (p.deeds .pool) ∧ (p.deeds .pool).filterMap Deed.vertex? = [] := by
  rcases p.deeds_pool_cases with hdeeds | hdeeds
  · exact hdeeds ▸ ⟨faultless_nil, rfl⟩
  · exact hdeeds ▸ ⟨faultless_looked _, rfl⟩

/-- Whoever looks for an abort sees what is requested. -/
theorem eq_of_looked {a : Actor} {abort : Bool} (h : .looked abort ∈ p.deeds a) :
    abort = p.board.abort := by
  have hone : .looked abort ∈ [Deed.looked p.board.abort] → abort = p.board.abort := by
    intro hmem
    cases List.mem_singleton.mp hmem
    rfl
  cases a with
  | pool =>
    rcases p.deeds_pool_cases with hdeeds | hdeeds
    · rw [hdeeds] at h
      cases h
    · rw [hdeeds] at h
      exact hone h
  | worker index =>
    cases hw : p.workers[index]? with
    | none => simp [deeds, hw] at h
    | some w =>
      rw [deeds_worker hw] at h
      cases w with
      | idle =>
        rcases Phase.deeds_idle (F := F) (V := V) (T := T) (O := O) p.board with hdeeds | hdeeds
        · rw [hdeeds] at h
          cases h
        · rw [hdeeds] at h
          exact hone h
      | running x rest =>
        cases rest <;> simp [Phase.deeds, Program.ending?] at h
      | _ => cases h

/-- The worker has failed: it is on its way to close the scheduler, or has closed it and is gone. -/
def HasFailed (p : Pool F V E T O) (index : Nat) : Prop :=
  ∃ w, p.workers[index]? = some w ∧
    (w.IsFailing ∨ w.isGone = true ∧ p.board.scheduler.closed = true)

end Pool

end Threaded

/-! ## Both engines -/

namespace Machine

/-- No more tasks are handed out. -/
def Halting : Machine F V E T O → Prop
  | sequential b _ => b.abort = true
  | threaded pool => pool.board.scheduler.closed = true ∨ pool.board.abort = true

variable {m m' : Machine F V E T O} {deeds new : List Deed}

theorem halting_of_abort (h : m.board.abort = true) : m.Halting := by
  cases m with
  | sequential b status => exact h
  | threaded pool => exact .inr h

/-- A step of a pool is a step of one of its workers, or leaves the workers as they are. -/
theorem Acts.pool_cases {p : Threaded.Pool F V E T O} (h : (threaded p).Acts behaviour new m') :
    ∃ p', m' = .threaded p' ∧
      ((∃ index old phase b e, p.workers[index]? = some old ∧
          old.Step behaviour index p.board phase b e ∧ new = old.deeds p.board ∧
          p' = p.stepped index phase b e) ∨
        p'.workers = p.workers ∧ p'.board.tasks = p.board.tasks ∧
          (p.board.abort = true → p'.board.abort = true) ∧
          (p.board.scheduler.closed = true → p'.board.scheduler.closed = true) ∧
          Faultless new ∧ new.filterMap Deed.vertex? = []) := by
  cases h with
  | @actor p p' a hs =>
    refine ⟨p', rfl, ?_⟩
    unfold Threaded.Pool.step at hs
    split at hs
    · cases a with
      | worker index =>
        obtain ⟨old, phase, b, e, hw, hstep, rfl⟩ := Threaded.Pool.stepWorker_eq_some hs
        exact .inl ⟨index, old, phase, b, e, hw, hstep, Threaded.Pool.deeds_worker hw, rfl⟩
      | pool =>
        obtain ⟨hworkers, htasks, habort, hclosed⟩ := Threaded.Pool.stepPool_keeps hs
        obtain ⟨hfaultless, hvertices⟩ := p.deeds_pool
        exact .inr ⟨hworkers, htasks, habort.trans, hclosed, hfaultless, hvertices⟩
    · cases hs
  | abort => exact ⟨_, rfl, .inr ⟨rfl, rfl, fun _ => rfl, id, faultless_nil, rfl⟩⟩

/-! ### Halting -/

/-- Nothing is taken any more, and what ends was under way. -/
theorem Acts.halting (h : m.Acts behaviour new m') (hh : m.Halting) :
    m'.Halting ∧ m'.board.tasks = m.board.tasks ∧
      (new.filterMap Deed.vertex? ++ underWay m'.hands).Perm (underWay m.hands) := by
  cases m with
  | sequential b status =>
    cases h with
    | turn hdoes =>
      cases hdoes with
      | aborted ha => exact ⟨ha, rfl, .refl _⟩
      | drained ha _ => cases ha.symm.trans hh
      | missed ha _ _ => cases ha.symm.trans hh
      | ran ha _ _ _ => cases ha.symm.trans hh
    | abort => exact ⟨rfl, rfl, .refl _⟩
  | threaded p =>
    obtain ⟨p', rfl, ⟨index, old, phase, b, e, hw, hstep, rfl, rfl⟩ |
      ⟨hworkers, htasks, habort, hclosed, -, hvertices⟩⟩ := h.pool_cases
    · obtain ⟨hh', htasks⟩ := hstep.halting hh
      refine ⟨hh', htasks, ?_⟩
      obtain ⟨others, hperm, hperm'⟩ := Threaded.Pool.perm_stepped hw
      have hbefore : (underWay p.hands).Perm (underWay old.hands ++ underWay others) := by
        simpa [underWay] using hperm.filterMap Hand.runsOn?
      have hafter : (underWay (p.stepped index phase b e).hands).Perm
          (underWay phase.hands ++ underWay others) := by
        simpa [underWay] using (hperm' phase b e).filterMap Hand.runsOn?
      refine ((hafter.append_left _).trans ?_).trans hbefore.symm
      rw [← List.append_assoc]
      exact (hstep.underWay_perm hh).append_right _
    · refine ⟨hh.imp hclosed habort, htasks, ?_⟩
      rw [hvertices, List.nil_append]
      simp only [hands, Threaded.Pool.hands, hworkers]
      exact .refl _

/-- From a machine that hands nothing out, a run only finishes the programs that are under way. -/
theorem Passes.halting (h : m.Passes behaviour deeds m') (hh : m.Halting) :
    m'.Halting ∧ m'.board.tasks = m.board.tasks ∧
      (deeds.filterMap Deed.vertex? ++ underWay m'.hands).Perm (underWay m.hands) := by
  induction h with
  | start => exact ⟨hh, rfl, .refl _⟩
  | step _ hs ih =>
    obtain ⟨hh', htasks, hperm⟩ := ih
    obtain ⟨hh'', htasks', hperm'⟩ := hs.halting hh'
    refine ⟨hh'', htasks'.trans htasks, ?_⟩
    rw [List.filterMap_append, List.append_assoc]
    exact (List.perm_append_comm_assoc ..).trans ((hperm'.append_left _).trans hperm)

/-- Whatever happens to a machine that hands nothing out, no program is begun. -/
theorem Step.halting (h : m.Step behaviour m') (hh : m.Halting) :
    m'.Halting ∧ m'.board.tasks = m.board.tasks ∧
      (underWay m'.hands).Subperm (underWay m.hands) := by
  rcases h.acts with ⟨new, hacts⟩ | ⟨p, index, reason, rfl, rfl⟩
  · obtain ⟨hh', htasks, hperm⟩ := hacts.halting hh
    exact ⟨hh', htasks, (List.sublist_append_right ..).subperm.trans hperm.subperm⟩
  · have hhands : (p.spawnFailed index reason).hands.Sublist p.hands := by
      have hsplit : p.workers.flatMap Threaded.Phase.hands =
          (p.workers.take index).flatMap Threaded.Phase.hands ++
            (p.workers.drop index).flatMap Threaded.Phase.hands := by
        rw [← List.flatMap_append, List.take_append_drop]
      simp only [Threaded.Pool.hands, Threaded.Pool.spawnFailed, List.flatMap_append, hsplit]
      exact (List.Sublist.refl _).append (List.nil_sublist _)
    exact ⟨hh, rfl, (hhands.filterMap _).subperm⟩

/-! ### Failing -/

/-- A worker of the machine has failed. -/
def HasFailed (index : Nat) : Machine F V E T O → Prop
  | sequential .. => False
  | threaded p => p.HasFailed index

/-- A worker that has failed does not come back. -/
theorem Acts.hasFailed (h : m.Acts behaviour new m') {index : Nat} (hf : m.HasFailed index) :
    m'.HasFailed index := by
  cases m with
  | sequential b status => exact hf.elim
  | threaded p =>
    obtain ⟨w, hw, hf⟩ := hf
    obtain ⟨p', rfl, ⟨i, old, phase, b, e, hold, hstep, rfl, rfl⟩ |
      ⟨hworkers, -, -, hclosed, -, -⟩⟩ := h.pool_cases
    · by_cases hi : i = index
      · subst hi
        obtain rfl := Option.some.inj (hold.symm.trans hw)
        have hlt : i < p.workers.length := (List.getElem?_eq_some_iff.mp hw).1
        refine ⟨phase, List.getElem?_set_self hlt, ?_⟩
        rcases hf with hf | ⟨hgone, hclosed⟩
        · exact hstep.failing (.inr hf)
        · exact .inr ⟨hstep.gone_of_gone hgone, hstep.closed hclosed⟩
      · exact ⟨w, (List.getElem?_set_ne hi).trans hw, hf.imp_right (.imp_right hstep.closed)⟩
    · exact ⟨w, hworkers ▸ hw, hf.imp_right (.imp_right hclosed)⟩

theorem Passes.hasFailed (h : m.Passes behaviour deeds m') {index : Nat} (hf : m.HasFailed index) :
    m'.HasFailed index := by
  induction h with
  | start => exact hf
  | step _ hs ih => exact hs.hasFailed ih

/-- After a fault of an execution the worker that had it has failed. -/
theorem Passes.exists_hasFailed {p : Threaded.Pool F V E T O}
    (h : (threaded p).Passes behaviour deeds m) (hf : ¬Faultless deeds) :
    ∃ index, m.HasFailed index := by
  -- The induction has to carry along that the machine stays a pool.
  have hinv : (∃ pool, m = .threaded pool) ∧ (¬Faultless deeds → ∃ index, m.HasFailed index) := by
    clear hf
    induction h with
    | start => exact ⟨⟨p, rfl⟩, fun hf => absurd faultless_nil hf⟩
    | @step deeds new m m' _ hs ih =>
      obtain ⟨⟨pool, rfl⟩, ih⟩ := ih
      obtain ⟨pool', rfl, hcases⟩ := hs.pool_cases
      refine ⟨⟨pool', rfl⟩, fun hf => ?_⟩
      -- Either this step is the first fault, or some worker has failed before.
      by_cases hpast : Faultless deeds
      · have hnew : ¬Faultless new := fun hnew => hf (hnew.append hpast)
        rcases hcases with ⟨index, old, phase, b, e, hw, hstep, rfl, rfl⟩ | ⟨-, -, -, -, hnone, -⟩
        · have hlt : index < pool.workers.length := (List.getElem?_eq_some_iff.mp hw).1
          exact ⟨index, phase, List.getElem?_set_self hlt, hstep.failing (.inl hnew)⟩
        · exact absurd hnone hnew
      · obtain ⟨index, hindex⟩ := ih hpast
        exact ⟨index, hs.hasFailed hindex⟩
  exact hinv.2 hf

end Machine

namespace Threaded.Pool

variable {p p' : Pool F V E T O} {index : Nat}

theorem step_closed {a : Actor} (h : p.step behaviour a = some p')
    (hc : p.board.scheduler.closed = true) : p'.board.scheduler.closed = true := by
  obtain ⟨_, ⟨⟩, ⟨i, old, phase, b, e, -, hstep, -, rfl⟩ | ⟨-, -, -, hclosed, -⟩⟩ :=
    (Machine.Acts.actor h).pool_cases
  · exact hstep.closed hc
  · exact hclosed hc

theorem interleave_closed (actors : List Actor) (hc : p.board.scheduler.closed = true) :
    (p.interleave behaviour actors).board.scheduler.closed = true := by
  induction actors generalizing p with
  | nil => exact hc
  | cons a rest ih =>
    rw [interleave]
    cases h : p.step behaviour a with
    | none => exact ih hc
    | some p' => exact ih (step_closed h hc)

/-- A worker that is failing is never held up before it has closed the scheduler. -/
theorem closes_of_failing (hr : p.status = .running) {w : Phase F V T O}
    (hw : p.workers[index]? = some w) (hf : w.IsFailing) {n : Nat} (hn : w.toClose ≤ n) :
    (p.interleave behaviour (List.replicate n (.worker index))).board.scheduler.closed = true := by
  induction n generalizing p w with
  | zero => cases w <;> first | exact hf.elim | cases hn
  | succ n ih =>
    obtain ⟨p', hs⟩ := exists_stepWorker behaviour hw (by rintro rfl; exact hf)
      (by rintro crashed rfl; exact hf)
    rw [List.replicate_succ, interleave, step_worker behaviour hr, hs, Option.getD_some]
    obtain ⟨old, new, b, e, hold, hstep, rfl⟩ := stepWorker_eq_some hs
    obtain rfl := Option.some.inj (hold.symm.trans hw)
    rcases hstep.failing (.inr hf) with hf' | ⟨-, hclosed⟩
    · have hlt : index < p.workers.length := (List.getElem?_eq_some_iff.mp hw).1
      exact ih hr (List.getElem?_set_self hlt) hf'
        (Nat.le_of_lt_succ ((hstep.toClose_lt hf).trans_le hn))
    · exact interleave_closed _ hclosed

theorem HasFailed.closes (h : p.HasFailed index) (hr : p.status = .running) :
    (p.interleave behaviour (List.replicate 3 (.worker index))).board.scheduler.closed = true := by
  obtain ⟨w, hw, hf | ⟨-, hclosed⟩⟩ := h
  · refine closes_of_failing hr hw hf ?_
    cases w <;> simp [Phase.toClose]
  · exact interleave_closed _ hclosed

end Threaded.Pool

/-! ## After a failure -/

/-- What a failure leads to in a pool.  Some worker has failed, which gets no other task, and once
it has made three more steps the scheduler is closed.  From then on no worker gets a task, and each
at most finishes the program that it runs. -/
theorem failure_stops {first p p' : Threaded.Pool F V E T O} {deeds later : List Deed}
    (h : (Machine.threaded first).Passes behaviour deeds (.threaded p)) (hf : ¬Faultless deeds)
    (h' : (Machine.threaded p).Passes behaviour later (.threaded p')) :
    (∃ index, p.HasFailed index ∧ p'.HasFailed index ∧ (p.status = .running →
      (p.interleave behaviour (List.replicate 3 (.worker index))).board.scheduler.closed = true)) ∧
      (p.board.scheduler.closed = true → p'.board.tasks = p.board.tasks ∧
        (later.filterMap Deed.vertex? ++ underWay p'.hands).Perm (underWay p.hands)) := by
  obtain ⟨index, hfailed⟩ := h.exists_hasFailed hf
  have hfailed : p.HasFailed index := hfailed
  have hfailed' : p'.HasFailed index := h'.hasFailed (m := .threaded p) hfailed
  refine ⟨⟨index, hfailed, hfailed', hfailed.closes⟩, fun hclosed => ?_⟩
  obtain ⟨-, htasks, hperm⟩ := h'.halting (.inl hclosed)
  exact ⟨htasks, hperm⟩

/-- The first of two workers has run a task that failed; the second is about to ask for work. -/
def failedPool : Threaded.Pool Unit Nat Unit Nat Empty :=
  twoTasksPool.interleave giveUp [.worker 0, .worker 1, .worker 0, .worker 0]

/-- The first worker has also closed the scheduler. -/
def closedPool : Threaded.Pool Unit Nat Unit Nat Empty :=
  failedPool.interleave giveUp [.worker 0, .worker 0, .worker 0]

/-- Once the scheduler is closed, the second worker leaves with nothing done. -/
theorem failure_stops_failedPool :
    ¬Faultless (twoTasksPool.deedsAlong giveUp [.worker 0, .worker 1, .worker 0, .worker 0]) ∧
      (∃ index, failedPool.HasFailed index) ∧ closedPool.board.scheduler.closed = true ∧
      (closedPool.interleave giveUp [.worker 1, .worker 1]).board.tasks =
        closedPool.board.tasks := by
  have hfault : ¬Faultless (twoTasksPool.deedsAlong giveUp
      [.worker 0, .worker 1, .worker 0, .worker 0]) :=
    fun hf => nomatch hf (.ended 0 (.failed (.other "no"))) List.mem_cons_self
  have hpasses := Machine.passes_interleave giveUp twoTasksPool
    [.worker 0, .worker 1, .worker 0, .worker 0]
  have hclosing := Machine.passes_interleave giveUp failedPool [.worker 0, .worker 0, .worker 0]
  obtain ⟨⟨index, hfailed, -⟩, -⟩ := failure_stops hpasses hfault hclosing
  have hclosed : closedPool.board.scheduler.closed = true := rfl
  obtain ⟨-, hstopped⟩ := failure_stops (hpasses.trans hclosing)
    (fun hf => hfault fun deed hdeed => hf deed (List.mem_append_right _ hdeed))
    (Machine.passes_interleave giveUp closedPool [.worker 1, .worker 1])
  exact ⟨hfault, ⟨index, hfailed⟩, hclosed, (hstopped hclosed).1⟩

/-- Before that the second worker gets a task, and for the vertex that the failed task was for. -/
theorem taken_after_failure :
    (Machine.threaded twoTasksPool).Passes giveUp
        [.ended 0 (.failed (.other "no")), .looked false] (.threaded failedPool) ∧
      ∃ next, (Machine.threaded failedPool).Passes giveUp [.looked false] (.threaded next) ∧
        next.board.taken = 0 :: failedPool.board.taken := by
  refine ⟨?_, _, Machine.passes_interleave giveUp failedPool [.worker 0, .worker 1], rfl⟩
  exact Machine.passes_interleave giveUp twoTasksPool [.worker 0, .worker 1, .worker 0, .worker 0]

end VertexEngine
