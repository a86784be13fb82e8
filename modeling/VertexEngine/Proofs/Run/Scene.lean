import Mathlib.Logic.Relation
import VertexEngine.Proofs.Scheduler
import VertexEngine.Run.Board

/-!
# What both engines do

A `Scene` is what can be seen of a run of either engine: the board, the pending tasks as a plain
list, and the tasks in the hands of workers.  Who the workers are, and who of them waits or has
left, is not in it.

A `Move` changes a scene the way one visible step of a run does.  A statement that every move keeps
holds for the sequential engine and for the threaded one, whatever the interleaving.

* `Hand` and `Scene` come first, with the vertices that are held.
* `Board.request?` and the lemmas after it say what one action of a program changes.
* `Move` is the relation, and `Scene.Sound` the first thing that every move keeps: the board's queue
  holds the pending tasks, and no vertex is held twice.
-/

namespace VertexEngine

variable {F V E T O : Type}

/-! ## One among others -/

section

variable {α : Type} {P : α → Prop} {before after : List α} {old new : α}

theorem forall_mem_middle :
    (∀ x ∈ before ++ new :: after, P x) ↔ P new ∧ ∀ x ∈ before ++ after, P x := by
  simp only [List.perm_middle.mem_iff, List.forall_mem_cons]

/-- Only one of them is changed. -/
theorem forall_mem_replace (h : ∀ x ∈ before ++ old :: after, P x) (hnew : P new) :
    ∀ x ∈ before ++ new :: after, P x :=
  forall_mem_middle.mpr ⟨hnew, (forall_mem_middle.mp h).2⟩

end

/-! ## Scenes -/

/-- A task in the hands of a worker. -/
inductive Hand (F V T O : Type) where
  /-- The program runs, and this is left of it. -/
  | running (x : Execution F) (rest : Program F V T O Unit)
  /-- The program has ended, and its vertex is still held. -/
  | returned (vertex : VertexId) (outcome : Outcome)
  /-- The vertex is given back, and the outcome is still to be dealt with. -/
  | completed (vertex : VertexId) (outcome : Outcome)

/-- The vertex that is held. -/
def Hand.vertex? : Hand F V T O → Option VertexId
  | running x _ => some x.task.vertex
  | returned v _ => some v
  | completed .. => none

/-- The vertices that the workers hold. -/
def heldBy (hands : List (Hand F V T O)) : List VertexId :=
  hands.filterMap Hand.vertex?

section

variable (as bs : List (Hand F V T O))

@[simp] theorem heldBy_nil : heldBy ([] : List (Hand F V T O)) = [] :=
  rfl

@[simp] theorem heldBy_append : heldBy (as ++ bs) = heldBy as ++ heldBy bs :=
  List.filterMap_append

@[simp] theorem heldBy_running (x : Execution F) (rest : Program F V T O Unit) :
    heldBy (.running x rest :: as) = x.task.vertex :: heldBy as :=
  rfl

@[simp] theorem heldBy_returned (v : VertexId) (outcome : Outcome) :
    heldBy (.returned v outcome :: as) = v :: heldBy as :=
  rfl

@[simp] theorem heldBy_completed (v : VertexId) (outcome : Outcome) :
    heldBy (.completed v outcome :: as) = heldBy as :=
  rfl

end

/-- What can be seen of a run. -/
structure Scene (F V E T O : Type) where
  board : Board F V E T O
  pending : PendingList F
  hands : List (Hand F V T O) := []

/-- The queue holds the pending tasks, and no vertex is held twice. -/
structure Scene.Sound (s : Scene F V E T O) : Prop where
  queue : Represents s.board.scheduler.queue s.pending
  alone : (heldBy s.hands).Nodup

/-! ## Actions -/

namespace Board

variable (b : Board F V E T O) (x : Execution F)

@[simp] theorem note_scheduler (e : Event F O) : (b.note e).scheduler = b.scheduler :=
  rfl

@[simp] theorem increment_scheduler : b.increment.scheduler = b.scheduler :=
  rfl

/-- The request that an action makes, if it is accepted. -/
def request? : Action F V O → Option (VertexId × F × Float)
  | .schedule v update priority =>
    match b.checkRequest v priority with
    | .ok () => some (v, update, priority)
    | .error _ => none
  | _ => none

/-- What an action does to its execution and to the board. -/
inductive Effect : Action F V O → Execution F → Board F V E T O → Prop
  | nothing {action : Action F V O} (h : b.request? action = none) : Effect action x b
  | wrote (value : V) :
    Effect (.write value) x { b with graph := b.graph.withValue x.task.vertex value }
  | requested {v : VertexId} {update : F} {priority : Float}
    (h : b.request? (.schedule v update priority : Action F V O) = some (v, update, priority)) :
    Effect (.schedule v update priority) { x with scheduled := x.scheduled + 1 }
      ((b.note (.requested x.task.vertex v)).schedule v update priority)
  | raised : Effect .raiseAbort x { b with abort := true }
  | observed (o : O) : Effect (.observe o) x (b.note (.observed x.task.vertex o))

theorem perform_effect (action : Action F V O) :
    b.Effect x action (b.perform x action).2.1 (b.perform x action).2.2 := by
  cases action with
  | write value => exact .wrote value
  | schedule v update priority =>
    simp only [perform]
    split
    · rename_i e he
      exact .nothing (by simp only [request?, he])
    · rename_i he
      exact .requested (by simp only [request?, he])
  | raiseAbort => exact .raised
  | readShared sync =>
    simp only [perform]
    split
    · exact .nothing rfl
    · exact .nothing rfl
  | observe o => exact .observed o
  | _ => exact .nothing rfl

@[simp] theorem perform_task (action : Action F V O) : (b.perform x action).2.1.task = x.task := by
  have heffect := b.perform_effect x action
  generalize (b.perform x action).2.1 = x', (b.perform x action).2.2 = b' at heffect
  cases heffect <;> rfl

/-- The pending tasks after an action. -/
def afterAction (action : Action F V O) (p : PendingList F) : PendingList F :=
  match b.request? action with
  | some (v, update, priority) => (p.push v update priority).1
  | none => p

end Board

/-! ## Moves -/

/-- Whether an event is about a task, and not about the engine. -/
def Event.concernsTask : Event F O → Bool
  | loopStarted _ | loopDrained _ | workerStarted _ | workerMissing _ | workerFinished _
  | published _ => false
  | _ => true

/-- Whether an event says that a task failed or panicked. -/
def Event.isFailure : Event F O → Bool
  | failed .. | panicked _ => true
  | _ => false

/-- No task has failed or panicked. -/
def Board.Unfailed (b : Board F V E T O) : Prop :=
  ∀ e ∈ b.history, e.isFailure = false

/-- The board changes in nothing that has to do with a task. -/
structure Board.Quiet (b b' : Board F V E T O) : Prop where
  graph : b'.graph = b.graph
  abort : b.abort = true → b'.abort = true
  updates : b'.updates = b.updates
  history : b'.history.filter Event.concernsTask = b.history.filter Event.concernsTask

/-- The hand of a worker that was given a task. -/
def Board.begin (behaviour : Behaviour F V E T O) (b : Board F V E T O) (t : Task F) :
    Hand F V T O :=
  match b.load behaviour t with
  | .ok program => .running ⟨t, 0⟩ program
  | .error e => .returned t.vertex (.failed e)

/-- One visible step of a run. -/
inductive Move (behaviour : Behaviour F V E T O) : Scene F V E T O → Scene F V E T O → Prop
  | quiet {s : Scene F V E T O} {b : Board F V E T O} (hb : s.board.Quiet b)
    (hq : Represents b.scheduler.queue s.pending) : Move behaviour s { s with board := b }
  /-- A worker gets the first task whose vertex is not held. -/
  | take {b : Board F V E T O} {p : PendingList F} {before after : List (Hand F V T O)}
    {held : List VertexId} (hheld : heldBy (before ++ after) = held)
    {t : Task F} (ht : Scheduler.firstFree held p = some t)
    {scheduler : Scheduler F} {b' : Board F V E T O}
    (hb : b' = { b with scheduler }.note (.dispatched t))
    (hq : Represents scheduler.queue (Scheduler.withoutFirstFree held p)) :
    Move behaviour ⟨b, p, before ++ after⟩
      ⟨b', Scheduler.withoutFirstFree held p, before ++ b'.begin behaviour t :: after⟩
  | ask (b : Board F V E T O) (p : PendingList F) (before after : List (Hand F V T O))
    (x : Execution F) (action : Action F V O) (next : action.Answer T → Program F V T O Unit) :
    Move behaviour ⟨b, p, before ++ .running x (.ask action next) :: after⟩
      ⟨(b.perform x action).2.2, b.afterAction action p,
        before ++ .running (b.perform x action).2.1 (next (b.perform x action).1) :: after⟩
  | finish (b : Board F V E T O) (p : PendingList F) (before after : List (Hand F V T O))
    (x : Execution F) :
    Move behaviour ⟨b, p, before ++ .running x (.done ()) :: after⟩
      ⟨b.note (.updated x.task.vertex), p, before ++ .returned x.task.vertex .finished :: after⟩
  | fail (b : Board F V E T O) (p : PendingList F) (before after : List (Hand F V T O))
    (x : Execution F) (e : EngineError) :
    Move behaviour ⟨b, p, before ++ .running x (.fail e) :: after⟩
      ⟨b, p, before ++ .returned x.task.vertex (.failed (.update x.task.vertex e)) :: after⟩
  | panic (b : Board F V E T O) (p : PendingList F) (before after : List (Hand F V T O))
    (x : Execution F) :
    Move behaviour ⟨b, p, before ++ .running x .panic :: after⟩
      ⟨b, p, before ++ .returned x.task.vertex .panicked :: after⟩
  /-- A vertex is given back. -/
  | release {b : Board F V E T O} (p : PendingList F) (before after : List (Hand F V T O))
    (v : VertexId) (outcome : Outcome) {scheduler : Scheduler F}
    (hq : scheduler.queue = b.scheduler.queue) :
    Move behaviour ⟨b, p, before ++ .returned v outcome :: after⟩
      ⟨{ b with scheduler }, p, before ++ .completed v outcome :: after⟩
  | count (b : Board F V E T O) (p : PendingList F) (before after : List (Hand F V T O))
    (v : VertexId) :
    Move behaviour ⟨b, p, before ++ .completed v .finished :: after⟩
      ⟨b.increment, p, before ++ after⟩
  | noteFailed (b : Board F V E T O) (p : PendingList F) (before after : List (Hand F V T O))
    (v : VertexId) (e : EngineError) :
    Move behaviour ⟨b, p, before ++ .completed v (.failed e) :: after⟩
      ⟨b.note (.failed v e), p, before ++ after⟩
  | notePanicked (b : Board F V E T O) (p : PendingList F) (before after : List (Hand F V T O))
    (v : VertexId) :
    Move behaviour ⟨b, p, before ++ .completed v .panicked :: after⟩
      ⟨b.note (.panicked v), p, before ++ after⟩

/-- A sequence of moves. -/
abbrev Moves (behaviour : Behaviour F V E T O) : Scene F V E T O → Scene F V E T O → Prop :=
  Relation.ReflTransGen (Move behaviour)

theorem Board.Quiet.refl (b : Board F V E T O) : b.Quiet b :=
  ⟨rfl, id, rfl, rfl⟩

theorem Event.concernsTask_of_isFailure {e : Event F O} (h : e.isFailure = true) :
    e.concernsTask = true := by
  cases e <;> first | rfl | cases h

theorem Board.unfailed_iff_concernsTask {b : Board F V E T O} :
    b.Unfailed ↔ ∀ e ∈ b.history.filter Event.concernsTask, e.isFailure = false := by
  refine ⟨fun h e he => h e (List.mem_filter.mp he).1, fun h e he => ?_⟩
  cases hf : e.isFailure with
  | false => rfl
  | true => exact hf ▸ h e (List.mem_filter.mpr ⟨he, Event.concernsTask_of_isFailure hf⟩)

theorem Board.Quiet.unfailed_iff {b b' : Board F V E T O} (h : b.Quiet b') :
    b'.Unfailed ↔ b.Unfailed := by
  rw [unfailed_iff_concernsTask, unfailed_iff_concernsTask, h.history]

theorem Board.Quiet.unfailed {b b' : Board F V E T O} (h : b.Quiet b') (hb : b.Unfailed) :
    b'.Unfailed :=
  h.unfailed_iff.mpr hb

theorem Board.Unfailed.note {b : Board F V E T O} (hb : b.Unfailed) {e : Event F O}
    (he : e.isFailure = false) : (b.note e).Unfailed := by
  intro e' he'
  rcases List.mem_cons.mp he' with rfl | he'
  · exact he
  · exact hb e' he'

theorem Board.Unfailed.perform {b : Board F V E T O} (hb : b.Unfailed) (x : Execution F)
    (action : Action F V O) : (b.perform x action).2.2.Unfailed := by
  have heffect := b.perform_effect x action
  generalize (b.perform x action).2.1 = x', (b.perform x action).2.2 = b' at heffect
  cases heffect with
  | requested _ => exact (hb.note rfl).note rfl
  | observed o => exact hb.note rfl
  | _ => exact hb

/-- A round of evaluations is noted in the history, and nothing else changes. -/
theorem Board.noteRound_eq (b : Board F V E T O) (r : SyncRound) : b.noteRound r =
    { b with history := (r.published.map .published).reverse ++ b.history } := by
  unfold Board.noteRound
  induction r.published generalizing b with
  | nil => rfl
  | cons sync rest ih =>
    rw [List.foldl_cons, ih, List.map_cons, List.reverse_cons, List.append_assoc]
    rfl

theorem Board.quiet_noteRound (b : Board F V E T O) (r : SyncRound) :
    b.Quiet (b.noteRound r) ∧ (b.noteRound r).scheduler = b.scheduler := by
  rw [noteRound_eq]
  refine ⟨⟨rfl, id, rfl, ?_⟩, rfl⟩
  have hnone : ∀ e ∈ (r.published.map Event.published).reverse,
      ¬(e : Event F O).concernsTask = true := by simp [Event.concernsTask]
  rw [List.filter_append, List.filter_eq_nil_iff.mpr hnone, List.nil_append]

theorem Board.noteRound_syncs (b : Board F V E T O) (r : SyncRound) :
    (b.noteRound r).syncs = b.syncs := by
  rw [noteRound_eq]

@[simp] theorem Board.heldBy_begin (behaviour : Behaviour F V E T O) (b : Board F V E T O)
    (t : Task F) (hands : List (Hand F V T O)) :
    heldBy (b.begin behaviour t :: hands) = t.vertex :: heldBy hands := by
  unfold Board.begin
  split
  · rfl
  · rfl

theorem Board.represents_afterAction {b : Board F V E T O} {p : PendingList F}
    (h : Represents b.scheduler.queue p) (x : Execution F) (action : Action F V O) :
    Represents (b.perform x action).2.2.scheduler.queue (b.afterAction action p) := by
  have heffect := b.perform_effect x action
  generalize (b.perform x action).2.1 = x', (b.perform x action).2.2 = b' at heffect
  unfold afterAction
  cases heffect with
  | nothing hr =>
    rw [hr]
    exact h
  | requested hr =>
    rw [hr]
    exact (h.push _ _ _).2
  | wrote value => exact h
  | raised => exact h
  | observed o => exact h

theorem Move.sound {behaviour : Behaviour F V E T O} {s s' : Scene F V E T O}
    (hm : Move behaviour s s') (h : s.Sound) : s'.Sound := by
  obtain ⟨hqueue, halone⟩ := h
  cases hm with
  | quiet _ hq => exact ⟨hq, halone⟩
  | @take b p before after held hheld t ht scheduler b' hb hq =>
    refine ⟨by rw [hb]; exact hq, ?_⟩
    rw [heldBy_append, Board.heldBy_begin, List.perm_middle.nodup_iff, ← heldBy_append, hheld]
    exact List.nodup_cons.mpr ⟨Scheduler.not_mem_of_firstFree ht, hheld ▸ halone⟩
  | ask b p before after x action next =>
    exact ⟨Board.represents_afterAction hqueue x action, by simpa using halone⟩
  | finish => exact ⟨hqueue, by simpa using halone⟩
  | fail => exact ⟨hqueue, by simpa using halone⟩
  | panic => exact ⟨hqueue, by simpa using halone⟩
  | release p before after v outcome hq =>
    refine ⟨by simpa [hq] using hqueue, ?_⟩
    rw [heldBy_append, heldBy_returned, List.perm_middle.nodup_iff] at halone
    simpa using (List.nodup_cons.mp halone).2
  | count => exact ⟨hqueue, by simpa using halone⟩
  | noteFailed => exact ⟨hqueue, by simpa using halone⟩
  | notePanicked => exact ⟨hqueue, by simpa using halone⟩

/-- A run changes no edges and no number of vertices. -/
theorem Move.topology {behaviour : Behaviour F V E T O} {s s' : Scene F V E T O}
    (hm : Move behaviour s s') : s'.board.graph.toTopology = s.board.graph.toTopology ∧
      s'.board.graph.values.size = s.board.graph.values.size := by
  cases hm with
  | quiet hb _ => rw [hb.graph]; exact ⟨rfl, rfl⟩
  | take _ _ hb _ => rw [hb]; exact ⟨rfl, rfl⟩
  | ask b p before after x action next =>
    have heffect := b.perform_effect x action
    generalize (b.perform x action).2.1 = x', (b.perform x action).2.2 = b' at heffect
    cases heffect with
    | wrote value => exact ⟨rfl, Array.size_setIfInBounds⟩
    | _ => exact ⟨rfl, rfl⟩
  | _ => exact ⟨rfl, rfl⟩

theorem Moves.topology {behaviour : Behaviour F V E T O} {s s' : Scene F V E T O}
    (hm : Moves behaviour s s') : s'.board.graph.toTopology = s.board.graph.toTopology ∧
      s'.board.graph.values.size = s.board.graph.values.size := by
  induction hm with
  | refl => exact ⟨rfl, rfl⟩
  | tail _ hstep ih => exact ⟨hstep.topology.1.trans ih.1, hstep.topology.2.trans ih.2⟩

theorem Moves.sound {behaviour : Behaviour F V E T O} {s s' : Scene F V E T O}
    (hm : Moves behaviour s s') (h : s.Sound) : s'.Sound := by
  induction hm with
  | refl => exact h
  | tail _ hstep ih => exact hstep.sound ih

end VertexEngine
