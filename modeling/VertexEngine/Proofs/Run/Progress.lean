import VertexEngine.Proofs.Run.OneWorker

/-!
# A run is never stuck

As long as a run goes on, the engine can make a step of its own.  A worker that has to wait waits
for a vertex that is in flight, and whoever holds that vertex can move.
-/

namespace VertexEngine

variable {F V E T O : Type} {p : PendingList F}

namespace Threaded.Pool

variable {pool : Pool F V E T O}

theorem step_worker (behaviour : Behaviour F V E T O) (hr : pool.status = .running) (index : Nat) :
    pool.step behaviour (.worker index) = pool.stepWorker behaviour index := by
  rw [step, hr]

theorem step_pool (behaviour : Behaviour F V E T O) (hr : pool.status = .running) :
    pool.step behaviour .pool = pool.stepPool := by
  rw [step, hr]

/-- Only a worker that asks for work, or has left, may be unable to move. -/
theorem exists_stepWorker (behaviour : Behaviour F V E T O) {index : Nat} {w : Phase F V T O}
    (hw : pool.workers[index]? = some w) (hidle : w ≠ .idle)
    (hleft : ∀ crashed, w ≠ .left crashed) :
    ∃ pool', pool.stepWorker behaviour index = some pool' := by
  unfold stepWorker
  rw [hw]
  cases w with
  | idle => exact absurd rfl hidle
  | left crashed => exact absurd rfl (hleft crashed)
  | counting due => cases due <;> exact ⟨_, rfl⟩
  | _ => exact ⟨_, rfl⟩

/-- A task in the hands of a worker can be worked on. -/
theorem exists_step_of_hand (behaviour : Behaviour F V E T O) (hr : pool.status = .running)
    {hand : Hand F V T O} (hh : hand ∈ pool.hands) :
    ∃ a pool', pool.step behaviour a = some pool' := by
  obtain ⟨w, hw, hmem⟩ := List.mem_flatMap.mp hh
  obtain ⟨index, hindex⟩ := List.getElem?_of_mem hw
  obtain ⟨pool', hs⟩ := exists_stepWorker behaviour hindex (by rintro rfl; cases hmem)
    (by rintro crashed rfl; cases hmem)
  exact ⟨.worker index, pool', (step_worker behaviour hr index).trans hs⟩

/-- Some actor of a pool can move until the run has ended. -/
theorem Orderly.exists_step (behaviour : Behaviour F V E T O) (h : pool.Orderly p)
    (hr : pool.status = .running) : ∃ a pool', pool.step behaviour a = some pool' := by
  have hworker : ∀ {index : Nat} {pool' : Pool F V E T O},
      pool.stepWorker behaviour index = some pool' →
        ∃ a pool', pool.step behaviour a = some pool' :=
    fun {index} _ hs => ⟨.worker index, _, (step_worker behaviour hr index).trans hs⟩
  have hpool : ∀ {pool' : Pool F V E T O}, pool.stepPool = some pool' →
      ∃ a pool', pool.step behaviour a = some pool' :=
    fun hs => ⟨.pool, _, (step_pool behaviour hr).trans hs⟩
  cases hw : pool.workers[pool.joined]? with
  | none => exact hpool (by rw [Pool.stepPool, hw])
  | some w =>
    cases w with
    | left crashed => cases crashed <;> exact hpool (by rw [Pool.stepPool, hw])
    | idle =>
      obtain ⟨p', held, hdec, -⟩ := h.tracks.dispatch pool.board.abort
      have hstep : pool.stepWorker behaviour pool.joined = pool.ask behaviour pool.joined := by
        rw [Pool.stepWorker, hw]
      unfold ask at hstep
      rcases hd : pool.board.scheduler.dispatch pool.board.abort with ⟨answer, scheduler⟩
      rw [hd] at hdec hstep
      cases answer with
      | finish => exact hworker hstep
      | run t => exact hworker hstep
      | wait =>
        have hheld : heldBy pool.hands ≠ [] := (hdec.wait_iff.mp rfl).2.1
        obtain ⟨hand, hmem⟩ := List.exists_mem_of_ne_nil pool.hands fun hnil =>
          hheld (by rw [hnil]; rfl)
        exact exists_step_of_hand behaviour hr hmem
    | _ =>
      obtain ⟨pool', hs⟩ := exists_stepWorker behaviour hw (by intro h; cases h)
        (by intro crashed h; cases h)
      exact hworker hs

end Threaded.Pool

/-- The engine can go on until the run has ended. -/
theorem Machine.Orderly.exists_works (behaviour : Behaviour F V E T O) {m : Machine F V E T O}
    (h : m.Orderly p) (hr : m.status = .running) : ∃ m', m.Works behaviour m' := by
  cases m with
  | sequential b status =>
    obtain rfl : status = .running := hr
    exact ⟨_, .turn b⟩
  | threaded pool =>
    obtain ⟨a, pool', hs⟩ := Threaded.Pool.Orderly.exists_step behaviour h hr
    exact ⟨_, .actor hs⟩

end VertexEngine
