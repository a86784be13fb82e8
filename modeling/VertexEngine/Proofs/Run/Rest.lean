import Mathlib.Logic.Hydra
import VertexEngine.Proofs.Run.Halt

/-!
# A run that hands nothing out comes to rest

Once no more tasks are handed out, a worker only finishes what it has in its hands: its program,
which is a finite tree whatever the answers are, the evaluations that are due then, and its way
out.  Nobody can hold it up, and so the run ends, whoever moves next.

No number of steps is enough for all runs, because the answers to a program decide how long it
takes.  So what is said is that there is no endless run.

* `Phase.wellFounded_yields` is this for a worker, by induction on what it has still to do.
* `Halting.acc_works` is it for a machine.  Each step replaces one worker by one that has less to
  do, or the pool notices one more that has left.
-/

namespace VertexEngine

variable {F V E T O : Type} {behaviour : Behaviour F V E T O}

namespace Threaded

/-! ## A worker -/

namespace Phase

/-- What a worker can do next while no tasks are handed out. -/
def Yields (behaviour : Behaviour F V E T O) (new old : Phase F V T O) : Prop :=
  ∃ (index : Nat) (b b' : Board F V E T O) (e : Option EngineError),
    (b.scheduler.closed = true ∨ b.abort = true) ∧ old.Step behaviour index b new b' e

theorem acc_left (crashed : Bool) : Acc (Yields behaviour) (.left crashed) := by
  refine ⟨_, fun _ ⟨_, _, _, _, _, hs⟩ => ?_⟩
  cases hs

theorem acc_leaving : Acc (Yields behaviour) .leaving := by
  refine ⟨_, fun _ ⟨_, _, _, _, _, hs⟩ => ?_⟩
  cases hs
  exact acc_left false

theorem acc_closing : Acc (Yields behaviour) .closing := by
  refine ⟨_, fun _ ⟨_, _, _, _, _, hs⟩ => ?_⟩
  cases hs
  exact acc_leaving

/-- A worker that asks for work is told to finish. -/
theorem acc_idle : Acc (Yields behaviour) .idle := by
  refine ⟨_, fun _ ⟨_, _, _, _, hh, hs⟩ => ?_⟩
  have hfinish := Scheduler.dispatch_of_stopped hh
  cases hs with
  | retire _ => exact acc_leaving
  | load hd _ => cases hd.symm.trans hfinish
  | miss hd _ => cases hd.symm.trans hfinish

theorem acc_missing : Acc (Yields behaviour) .missing := by
  refine ⟨_, fun _ ⟨_, _, _, _, _, hs⟩ => ?_⟩
  cases hs
  exact acc_left false

theorem acc_starting : Acc (Yields behaviour) .starting := by
  refine ⟨_, fun _ ⟨_, _, _, _, _, hs⟩ => ?_⟩
  cases hs
  exact acc_idle

/-- The vertices that are still to be read get fewer. -/
theorem acc_folding {due : List (Sync V T)} (hdue : Acc (Yields behaviour) (.counting due))
    (sync : Sync V T) (total : T) (unread : List VertexId) :
    Acc (Yields behaviour) (.folding sync total unread due) := by
  induction unread generalizing total with
  | nil =>
    refine ⟨_, fun _ ⟨_, _, _, _, _, hs⟩ => ?_⟩
    cases hs with
    | publish _ _ _ _ => exact hdue
    | crashAtEnd _ _ _ _ => exact acc_left true
  | cons v unread ih =>
    refine ⟨_, fun _ ⟨_, _, _, _, _, hs⟩ => ?_⟩
    cases hs with
    | skip _ _ _ _ _ _ => exact ih _
    | fold _ _ _ _ _ _ _ => exact ih _
    | crash _ _ _ _ _ _ _ => exact acc_left true

/-- The syncs that are still to be evaluated get fewer. -/
theorem acc_counting (due : List (Sync V T)) : Acc (Yields behaviour) (.counting due) := by
  induction due with
  | nil =>
    refine ⟨_, fun _ ⟨_, _, _, _, _, hs⟩ => ?_⟩
    cases hs
    exact acc_idle
  | cons sync due ih =>
    refine ⟨_, fun _ ⟨_, _, _, _, _, hs⟩ => ?_⟩
    cases hs
    exact acc_folding ih ..

theorem acc_completed (v : VertexId) (outcome : Outcome) :
    Acc (Yields behaviour) (.completed v outcome) := by
  refine ⟨_, fun _ ⟨_, _, _, _, _, hs⟩ => ?_⟩
  cases hs with
  | count _ => exact acc_counting _
  | noteFailed _ _ => exact acc_closing
  | notePanicked _ => exact acc_closing

theorem acc_returned (v : VertexId) (outcome : Outcome) :
    Acc (Yields behaviour) (.returned v outcome) := by
  refine ⟨_, fun _ ⟨_, _, _, _, _, hs⟩ => ?_⟩
  cases hs
  exact acc_completed ..

/-- Whatever a program is answered, what is left of it is a part of it. -/
theorem acc_running (x : Execution F) (program : Program F V T O Unit) :
    Acc (Yields behaviour) (.running x program) := by
  induction program generalizing x with
  | ask action next ih =>
    refine ⟨_, fun _ ⟨_, _, _, _, _, hs⟩ => ?_⟩
    cases hs
    exact ih _ _
  | _ =>
    refine ⟨_, fun _ ⟨_, _, _, _, _, hs⟩ => ?_⟩
    cases hs
    exact acc_returned ..

theorem wellFounded_yields (behaviour : Behaviour F V E T O) : WellFounded (Yields behaviour) := by
  refine ⟨fun w => ?_⟩
  cases w with
  | starting => exact acc_starting
  | missing => exact acc_missing
  | idle => exact acc_idle
  | running x program => exact acc_running x program
  | returned v outcome => exact acc_returned v outcome
  | completed v outcome => exact acc_completed v outcome
  | closing => exact acc_closing
  | counting due => exact acc_counting due
  | folding sync total unread due => exact acc_folding (acc_counting due) sync total unread
  | leaving => exact acc_leaving
  | left crashed => exact acc_left crashed

end Phase

/-! ## The pool -/

namespace Pool

variable {p p' : Pool F V E T O}

/-- What the pool itself has still to do: to notice that workers have left, and to end the run. -/
def toJoin (p : Pool F V E T O) : Nat :=
  match p.status with
  | .running => p.workers.length - p.joined + 1
  | _ => 0

theorem toJoin_lt (hr : p.status = .running) (h : p.stepPool = some p') : p'.toJoin < p.toJoin := by
  have hjoin : ∀ {crashed : Bool}, p.workers[p.joined]? = some (.left crashed) →
      p.joined < p.workers.length := fun hw => (List.getElem?_eq_some_iff.mp hw).1
  unfold stepPool at h
  split at h
  · obtain rfl := Option.some.inj h
    have hended : p.finish.toJoin = 0 := by
      unfold finish
      split
      · rfl
      · split <;> rfl
    rw [hended, toJoin, hr]
    exact Nat.succ_pos _
  · rename_i hw
    obtain rfl := Option.some.inj h
    have hlt := hjoin hw
    simp only [toJoin, hr]
    omega
  · rename_i hw
    obtain rfl := Option.some.inj h
    have hlt := hjoin hw
    simp only [toJoin, hr]
    omega
  · cases h

/-- What the workers and the pool have still to do. -/
def toDo (p : Pool F V E T O) : Multiset (Phase F V T O) × Nat :=
  (p.workers, p.toJoin)

/-- What is left to do gets less with every step. -/
theorem wellFounded_step (behaviour : Behaviour F V E T O) :
    WellFounded fun p' p : Pool F V E T O =>
      (p.board.scheduler.closed = true ∨ p.board.abort = true) ∧
        ∃ a, p.step behaviour a = some p' := by
  -- A worker's step replaces one of the workers by one below it, and the order in which they stand
  -- does not matter; a step of the pool leaves them as they are and lowers the number.
  have hwf := (Phase.wellFounded_yields behaviour).cutExpand.prod_gameAdd Nat.lt_wfRel.wf
  refine Subrelation.wf ?_ (InvImage.wf toDo hwf)
  rintro p' p ⟨hh, a, hs⟩
  show Prod.GameAdd _ _ p'.toDo p.toDo
  unfold step at hs
  split at hs
  · rename_i hr
    cases a with
    | worker index =>
      obtain ⟨old, new, b, e, hw, hstep, rfl⟩ := stepWorker_eq_some hs
      obtain ⟨before, after, hsplit, -, hset⟩ := split_workers hw
      have hjoin : (p.stepped index new b e).toJoin = p.toJoin := by
        simp only [toJoin, stepped, List.length_set]
      have hyields : new.Yields behaviour old := ⟨index, p.board, b, e, hh, hstep⟩
      rw [toDo, toDo, hjoin, stepped, hset, hsplit, ← Multiset.coe_add, ← Multiset.coe_add]
      refine .fst ((Relation.cutExpand_add_left _).mpr ?_)
      exact Relation.cutExpand_single_add hyields after
    | pool =>
      obtain ⟨hworkers, -⟩ := stepPool_keeps hs
      rw [toDo, toDo, hworkers]
      exact .snd (toJoin_lt hr hs)
  · cases hs

end Pool

end Threaded

/-! ## Both engines -/

namespace Machine

variable {m m' : Machine F V E T O}

/-- There is no endless run of a machine that hands nothing out. -/
theorem Halting.acc_works (hh : m.Halting) :
    Acc (fun m' m : Machine F V E T O => m.Works behaviour m') m := by
  cases m with
  | sequential b status =>
    have ha : b.abort = true := hh
    refine ⟨_, fun m' hw => ?_⟩
    cases hw with
    | turn =>
      have hturn : Sequential.turn behaviour b = (b, .ended (.error .aborted)) := by
        rw [Sequential.turn, if_pos ha]
      rw [hturn]
      exact ⟨_, fun _ hw => by cases hw⟩
  | threaded p =>
    induction p using (Threaded.Pool.wellFounded_step behaviour).induction with
    | _ p ih =>
      refine ⟨_, fun m' hw => ?_⟩
      cases hw with
      | actor hs =>
        obtain ⟨hh', -⟩ := (Acts.actor hs).halting hh
        exact ih _ ⟨hh, _, hs⟩ hh'

end Machine

end VertexEngine
