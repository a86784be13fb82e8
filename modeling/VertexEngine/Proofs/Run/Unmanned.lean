import VertexEngine.Proofs.Core.Reachable
import VertexEngine.Proofs.Run.Ahead

/-!
# A pool without workers

If not even the first worker of a pool can be started, then the run takes no task, and all it can
end with is the error of that worker.

* `Pool.Unmanned` is what every step of such a pool keeps.
* `Core.conclude_of_unmanned` is the result about runs of a core.
-/

namespace VertexEngine

variable {F V E T O : Type} {behaviour : Behaviour F V E T O}

namespace Threaded.Pool

/-- The pool has no worker but for the one that could not be started, and has done nothing since it
showed this board. -/
structure Unmanned (start : Board F V E T O) (reason : String) (p : Pool F V E T O) : Prop where
  workers : p.workers = [.missing] ∨ p.workers = [.left false]
  error : p.firstError = some (.workerSpawn reason)
  status : p.status = .running ∨ p.status = .ended (.error (.workerSpawn reason))
  graph : p.board.graph = start.graph
  syncs : p.board.syncs = start.syncs
  updates : p.board.updates = start.updates
  tasks : p.board.tasks = start.tasks

variable {p p' : Pool F V E T O} {start : Board F V E T O} {reason : String}

/-- The first worker of a pool that has no error yet. -/
theorem unmanned_spawnFailed (hr : p.status = .running) (he : p.firstError = none)
    (reason : String) : (p.spawnFailed 0 reason).Unmanned p.board reason :=
  ⟨.inl rfl, by rw [spawnFailed, he]; rfl, .inl hr, rfl, rfl, rfl, rfl⟩

/-- All that the worker does is to close the scheduler. -/
theorem Unmanned.stepWorker (h : p.Unmanned start reason) {index : Nat}
    (hs : p.stepWorker behaviour index = some p') : p'.Unmanned start reason := by
  obtain ⟨old, new, b, e, hw, hstep, rfl⟩ := stepWorker_eq_some hs
  have hold : old ∈ p.workers := List.mem_of_getElem? hw
  rcases h.workers with hworkers | hworkers
  · obtain rfl : old = .missing := List.mem_singleton.mp (hworkers ▸ hold)
    obtain rfl : index = 0 := by
      have hlt := (List.getElem?_eq_some_iff.mp hw).1
      rw [hworkers] at hlt
      exact Nat.lt_one_iff.mp hlt
    cases hstep
    refine ⟨.inr ?_, ?_, h.status, h.graph, h.syncs, h.updates, h.tasks⟩
    · rw [stepped, hworkers]
      rfl
    · rw [stepped, h.error]
      rfl
  · obtain rfl : old = .left false := List.mem_singleton.mp (hworkers ▸ hold)
    cases hstep

/-- The pool ends the run with the error that it has recorded. -/
theorem Unmanned.stepPool (h : p.Unmanned start reason) (hs : p.stepPool = some p') :
    p'.Unmanned start reason := by
  unfold Pool.stepPool at hs
  split at hs
  · obtain rfl := Option.some.inj hs
    have hfinish : p.finish = { p with status := .ended (.error (.workerSpawn reason)) } := by
      simp only [Pool.finish, h.error]
    rw [hfinish]
    exact ⟨h.workers, h.error, .inr rfl, h.graph, h.syncs, h.updates, h.tasks⟩
  · obtain rfl := Option.some.inj hs
    exact ⟨h.workers, h.error, h.status, h.graph, h.syncs, h.updates, h.tasks⟩
  · rename_i hw
    have hcrashed := List.mem_of_getElem? hw
    rcases h.workers with hworkers | hworkers
    · cases List.mem_singleton.mp (hworkers ▸ hcrashed)
    · cases List.mem_singleton.mp (hworkers ▸ hcrashed)
  · cases hs

theorem Unmanned.step (h : p.Unmanned start reason) {m : Machine F V E T O}
    (hs : (Machine.threaded p).Step behaviour m) :
    ∃ p', m = .threaded p' ∧ p'.Unmanned start reason := by
  cases hs with
  | abort =>
    exact ⟨_, rfl, h.workers, h.error, h.status, h.graph, h.syncs, h.updates, h.tasks⟩
  | @spawnFailed _ index _ _ _ hi hstarting =>
    -- the only worker there is could not be started before
    exfalso
    rcases h.workers with hworkers | hworkers
    · obtain rfl : index = 0 := Nat.lt_one_iff.mp (by simpa [hworkers] using hi)
      cases hstarting .missing (by simp [hworkers])
    · obtain rfl : index = 0 := Nat.lt_one_iff.mp (by simpa [hworkers] using hi)
      cases hstarting (.left false) (by simp [hworkers])
  | @actor _ p' a ha =>
    unfold Pool.step at ha
    split at ha
    · cases a with
      | worker index => exact ⟨p', rfl, h.stepWorker ha⟩
      | pool => exact ⟨p', rfl, h.stepPool ha⟩
    · cases ha

theorem Unmanned.reaches (h : p.Unmanned start reason) {m : Machine F V E T O}
    (hm : (Machine.threaded p).Reaches behaviour m) :
    ∃ p', m = .threaded p' ∧ p'.Unmanned start reason := by
  induction hm with
  | refl => exact ⟨p, rfl, h⟩
  | tail _ hs ih =>
    obtain ⟨p', rfl, h'⟩ := ih
    exact h'.step hs

end Threaded.Pool

/-- Whatever else happens to the run, it ends with the error of the worker. -/
theorem Core.conclude_of_unmanned {core : Core F V E T} {p : Threaded.Pool F V E T O}
    {start : Board F V E T O} {reason : String} (h : p.Unmanned start reason)
    {conclusion : Conclusion} {next : Core F V E T}
    (hc : core.conclude? (.threaded p) = some (conclusion, next)) :
    conclusion = .stopped (.workerSpawn reason) ∧ next.heldGraph? = some start.graph ∧
      next.syncs = start.syncs ∧ next.lastUpdateCount = start.updates := by
  have hstatus : ∀ status, p.status = status →
      status = .running ∨ status = .ended (.error (.workerSpawn reason)) :=
    fun _ hs => hs ▸ h.status
  cases concludes_of_eq_some hc with
  | crashed hs => rcases hstatus _ hs with hs | hs <;> cases hs
  | converged hs => rcases hstatus _ hs with hs | hs <;> cases hs
  | stopped hs =>
    rcases hstatus _ hs with hs | hs
    · cases hs
    · cases hs
      exact ⟨rfl, congrArg some h.graph, h.syncs, h.updates⟩

end VertexEngine
