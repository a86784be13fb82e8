import VertexEngine.Proofs.Graph.Edit
import VertexEngine.Proofs.Run.Scene

/-!
# What the history of a run tells

Three parts of the history of a board matter to more than one result: the vertices of the tasks that
workers took, the requests of programs that were accepted, and the errors that tasks ended with.

For each of them, and for the values of the graph, this module says what an action of a program
changes.  A quiet change of the board changes none of them.

`Scene.Unharmed` says that no task has failed, and it also looks at the failures that are not in the
history yet.
-/

namespace VertexEngine

variable {F V E T O : Type}

/-! ## Parts of the history -/

/-- Whether an event comes from an action of a program. -/
def Event.isAction : Event F O → Bool
  | requested .. | placed .. | observed .. => true
  | _ => false

/-- The vertex of the task that an event says was taken. -/
def Event.taken? : Event F O → Option VertexId
  | .dispatched t => some t.vertex
  | _ => none

/-- The source and the target of the request that an event says was accepted. -/
def Event.request? : Event F O → Option (VertexId × VertexId)
  | .requested source target => some (source, target)
  | _ => none

/-- The error that an event says a task ended with. -/
def Event.fault? : Event F O → Option (VertexId × EngineError)
  | .failed v e => some (v, e)
  | _ => none

namespace Board

/-- The vertices of the tasks that were taken, the latest first. -/
def taken (b : Board F V E T O) : List VertexId :=
  b.history.filterMap Event.taken?

/-- The sources and targets of the requests that were accepted, the latest first. -/
def requests (b : Board F V E T O) : List (VertexId × VertexId) :=
  b.history.filterMap Event.request?

/-- The errors that tasks ended with, the latest first. -/
def faults (b : Board F V E T O) : List (VertexId × EngineError) :=
  b.history.filterMap Event.fault?

variable {b b' : Board F V E T O}

/-- What a quiet change leaves out of account is not looked at. -/
theorem Quiet.filterMap_history {α : Type} {f : Event F O → Option α}
    (hf : ∀ e, e.concernsTask = false → f e = none) (h : b.Quiet b') :
    b'.history.filterMap f = b.history.filterMap f := by
  have hview : ∀ es : List (Event F O), es.filterMap f =
      (es.filter Event.concernsTask).filterMap f := by
    intro es
    rw [List.filterMap_filter]
    refine List.filterMap_congr fun e _ => ?_
    cases he : e.concernsTask with
    | true => rfl
    | false => exact hf e he
  rw [hview, h.history, ← hview]

namespace Quiet

theorem taken (h : b.Quiet b') : b'.taken = b.taken :=
  h.filterMap_history fun e he => by cases e <;> first | rfl | cases he

theorem requests (h : b.Quiet b') : b'.requests = b.requests :=
  h.filterMap_history fun e he => by cases e <;> first | rfl | cases he

theorem faults (h : b.Quiet b') : b'.faults = b.faults :=
  h.filterMap_history fun e he => by cases e <;> first | rfl | cases he

end Quiet

/-! ## What an action changes -/

variable (b : Board F V E T O) (x : Execution F) (action : Action F V O)

/-- What is told by other events stays as it is. -/
theorem perform_filterMap {α : Type} {f : Event F O → Option α}
    (hf : ∀ e, e.isAction = true → f e = none) :
    (b.perform x action).2.2.history.filterMap f = b.history.filterMap f := by
  have heffect := b.perform_effect x action
  generalize (b.perform x action).2.1 = x', (b.perform x action).2.2 = b' at heffect
  have hnote : ∀ (e : Event F O) (es : List (Event F O)), e.isAction = true →
      (e :: es).filterMap f = es.filterMap f :=
    fun e es he => List.filterMap_cons_none (hf e he)
  cases heffect with
  | requested _ => exact (hnote _ _ rfl).trans (hnote _ _ rfl)
  | observed o => exact hnote _ _ rfl
  | _ => rfl

theorem perform_taken : (b.perform x action).2.2.taken = b.taken :=
  b.perform_filterMap x action fun e he => by cases e <;> first | rfl | cases he

theorem perform_faults : (b.perform x action).2.2.faults = b.faults :=
  b.perform_filterMap x action fun e he => by cases e <;> first | rfl | cases he

/-- A request that is accepted is told with its source. -/
theorem perform_requests : (b.perform x action).2.2.requests =
    match b.request? action with
    | some (v, _, _) => (x.task.vertex, v) :: b.requests
    | none => b.requests := by
  have heffect := b.perform_effect x action
  generalize (b.perform x action).2.1 = x', (b.perform x action).2.2 = b' at heffect
  cases heffect with
  | nothing h =>
    rw [h]
  | requested h =>
    rw [h]
    rfl
  | _ => rfl

theorem perform_contains :
    (b.perform x action).2.2.graph.contains = b.graph.contains := by
  have heffect := b.perform_effect x action
  generalize (b.perform x action).2.1 = x', (b.perform x action).2.2 = b' at heffect
  cases heffect with
  | wrote value => exact Graph.contains_withValue value
  | _ => rfl

/-- Only the vertex of the execution can get another value. -/
theorem perform_value_of_ne {v : VertexId} (h : v ≠ x.task.vertex) :
    (b.perform x action).2.2.graph.value v = b.graph.value v := by
  have heffect := b.perform_effect x action
  generalize (b.perform x action).2.1 = x', (b.perform x action).2.2 = b' at heffect
  cases heffect with
  | wrote value => exact Graph.value_withValue_of_ne h value
  | _ => rfl

end Board

/-! ## Failures -/

/-- A failure is not forgotten. -/
theorem Move.unfailed_of {behaviour : Behaviour F V E T O} {s s' : Scene F V E T O}
    (hm : Move behaviour s s') (h : s'.board.Unfailed) : s.board.Unfailed := by
  cases hm with
  | quiet hb _ => exact hb.unfailed_iff.mp h
  | take _ _ hb _ =>
    subst hb
    exact fun e he => h e (List.mem_cons_of_mem _ he)
  | ask b p before after x action next =>
    have heffect := b.perform_effect x action
    generalize (b.perform x action).2.1 = x', (b.perform x action).2.2 = b' at heffect h
    cases heffect with
    | requested _ => exact fun e he => h e (List.mem_cons_of_mem _ (List.mem_cons_of_mem _ he))
    | observed o => exact fun e he => h e (List.mem_cons_of_mem _ he)
    | _ => exact h
  | finish => exact fun e he => h e (List.mem_cons_of_mem _ he)
  | count => exact fun e he => h e (List.mem_cons_of_mem _ he)
  | noteFailed => exact fun e he => h e (List.mem_cons_of_mem _ he)
  | notePanicked => exact fun e he => h e (List.mem_cons_of_mem _ he)
  | _ => exact h

/-- Whether a task has failed and this is not told yet. -/
def Hand.isHarmed : Hand F V T O → Bool
  | running .. => false
  | returned _ outcome | completed _ outcome =>
    match outcome with
    | .finished => false
    | _ => true

/-- No task has failed or panicked, told or not. -/
structure Scene.Unharmed (s : Scene F V E T O) : Prop where
  board : s.board.Unfailed
  hands : ∀ hand ∈ s.hands, hand.isHarmed = false

theorem Board.Unfailed.unharmed {s : Scene F V E T O} (h : s.board.Unfailed) (hh : s.hands = []) :
    s.Unharmed :=
  ⟨h, hh ▸ nofun⟩

/-- No failure is forgotten, told or not. -/
theorem Move.unharmed_of {behaviour : Behaviour F V E T O} {s s' : Scene F V E T O}
    (hm : Move behaviour s s') (h : s'.Unharmed) : s.Unharmed := by
  refine ⟨hm.unfailed_of h.board, ?_⟩
  have hhands := h.hands
  cases hm with
  | quiet _ _ => exact hhands
  | take _ _ _ _ => exact (forall_mem_middle.mp hhands).2
  | ask => exact forall_mem_replace hhands rfl
  | finish => exact forall_mem_replace hhands rfl
  | fail => exact forall_mem_replace hhands rfl
  | panic => exact forall_mem_replace hhands rfl
  | release p before after v outcome _ =>
    obtain ⟨hnew, hothers⟩ := forall_mem_middle.mp hhands
    exact forall_mem_middle.mpr ⟨hnew, hothers⟩
  | count => exact forall_mem_middle.mpr ⟨rfl, hhands⟩
  | noteFailed b p before after v e => cases h.board _ List.mem_cons_self
  | notePanicked b p before after v => cases h.board _ List.mem_cons_self

end VertexEngine
