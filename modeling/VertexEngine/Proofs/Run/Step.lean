import Mathlib.Data.List.Basic
import Mathlib.Logic.Relation
import VertexEngine.Run.Machine

/-!
# The steps of a run

The definitions that run take each step in one way.  Here every step is a relation that also allows
what the outside world can do at any time: request an abort, or refuse to start another worker.

* `Board.Completes` runs a program to its end, and `Sequential.Turn` is one turn of the loop.
* `Phase.Step` lists what a single worker can do, and `stepWorker_eq_some` says that a step of a
  pool is a step of one of its workers.
* `Machine.Step` puts both engines together, and `Machine.Reaches` is any number of steps.
-/

namespace VertexEngine

variable {F V E T O : Type}

/-! ## The sequential loop -/

namespace Board

/-- A program that is run to its end, with abort requests from outside at any point of it. -/
inductive Completes : Board F V E T O → Execution F → Program F V T O Unit → Outcome →
    Board F V E T O → Prop
  | abort {b : Board F V E T O} {x : Execution F} {p : Program F V T O Unit} {outcome : Outcome}
    {b' : Board F V E T O} (h : Completes { b with abort := true } x p outcome b') :
    Completes b x p outcome b'
  | done (b : Board F V E T O) (x : Execution F) :
    Completes b x (.done ()) .finished (b.note (.updated x.task.vertex))
  | fail (b : Board F V E T O) (x : Execution F) (e : EngineError) :
    Completes b x (.fail e) (.failed (.update x.task.vertex e)) b
  | panic (b : Board F V E T O) (x : Execution F) : Completes b x .panic .panicked b
  | ask {b : Board F V E T O} {x : Execution F} {action : Action F V O}
    {next : action.Answer T → Program F V T O Unit} {outcome : Outcome} {b' : Board F V E T O}
    (h : Completes (b.perform x action).2.2 (b.perform x action).2.1
      (next (b.perform x action).1) outcome b') :
    Completes b x (.ask action next) outcome b'

theorem completes_run (b : Board F V E T O) (x : Execution F) (p : Program F V T O Unit) :
    b.Completes x p (b.run x p).1 (b.run x p).2 := by
  induction p generalizing b x with
  | done _ => exact .done b x
  | fail e => exact .fail b x e
  | panic => exact .panic b x
  | ask action next ih => exact .ask (ih _ _ _)

/-- A task that is run to its end. -/
inductive Executes (behaviour : Behaviour F V E T O) (b : Board F V E T O) (t : Task F) :
    Outcome → Board F V E T O → Prop
  | missing {e : EngineError} (h : b.load behaviour t = .error e) :
    Executes behaviour b t (.failed e) b
  | ran {p : Program F V T O Unit} {outcome : Outcome} {b' : Board F V E T O}
    (h : b.load behaviour t = .ok p) (hc : b.Completes ⟨t, 0⟩ p outcome b') :
    Executes behaviour b t outcome b'

theorem executes_execute (behaviour : Behaviour F V E T O) (b : Board F V E T O) (t : Task F) :
    b.Executes behaviour t (b.execute behaviour t).1 (b.execute behaviour t).2 := by
  unfold execute
  split
  · rename_i e he
    exact .missing he
  · rename_i p hp
    exact .ran hp (b.completes_run _ p)

end Board

namespace Sequential

/-- One turn of the loop. -/
inductive Turn (behaviour : Behaviour F V E T O) (b : Board F V E T O) :
    Board F V E T O × RunStatus → Prop
  | aborted (h : b.abort = true) : Turn behaviour b (b, .ended (.error .aborted))
  | drained {scheduler : Scheduler F} (h : b.abort = false)
    (hn : b.scheduler.next = (none, scheduler)) :
    Turn behaviour b ({ b with scheduler }.note (.loopDrained .sequential), .ended (.ok ()))
  | ran {scheduler : Scheduler F} {t : Task F} {outcome : Outcome} {b' : Board F V E T O}
    (h : b.abort = false) (hn : b.scheduler.next = (some t, scheduler))
    (hx : ({ b with scheduler }.note (.dispatched t)).Executes behaviour t outcome b') :
    Turn behaviour b (settle b' t.vertex outcome)

theorem turn_turn (behaviour : Behaviour F V E T O) (b : Board F V E T O) :
    Turn behaviour b (turn behaviour b) := by
  unfold turn
  split
  · rename_i h
    exact .aborted h
  · rename_i h
    rw [Bool.not_eq_true] at h
    split
    · rename_i scheduler hn
      exact .drained h hn
    · rename_i t scheduler hn
      exact .ran h hn (Board.executes_execute _ _ t)

end Sequential

/-! ## A worker -/

namespace Threaded

/-- What a worker can do: its phase before and after, the board afterwards, and the error that it
records, if any. -/
inductive Phase.Step (behaviour : Behaviour F V E T O) (index : Nat) (b : Board F V E T O) :
    Phase F V T O → Phase F V T O → Board F V E T O → Option EngineError → Prop
  | start : Step behaviour index b .starting .idle (b.note (.workerStarted index)) none
  | withdraw :
    Step behaviour index b .missing (.left false) { b with scheduler := b.scheduler.close } none
  | retire {scheduler : Scheduler F} (h : b.scheduler.dispatch b.abort = (.finish, scheduler)) :
    Step behaviour index b .idle .leaving { b with scheduler } none
  | load {scheduler : Scheduler F} {t : Task F} {program : Program F V T O Unit}
    (h : b.scheduler.dispatch b.abort = (.run t, scheduler))
    (hl : ({ b with scheduler }.note (.dispatched t)).load behaviour t = .ok program) :
    Step behaviour index b .idle (.running ⟨t, 0⟩ program)
      ({ b with scheduler }.note (.dispatched t)) none
  | miss {scheduler : Scheduler F} {t : Task F} {e : EngineError}
    (h : b.scheduler.dispatch b.abort = (.run t, scheduler))
    (hl : ({ b with scheduler }.note (.dispatched t)).load behaviour t = .error e) :
    Step behaviour index b .idle (.returned t.vertex (.failed e))
      ({ b with scheduler }.note (.dispatched t)) none
  | ask (x : Execution F) (action : Action F V O)
    (next : action.Answer T → Program F V T O Unit) :
    Step behaviour index b (.running x (.ask action next))
      (.running (b.perform x action).2.1 (next (b.perform x action).1)) (b.perform x action).2.2
      none
  | finish (x : Execution F) :
    Step behaviour index b (.running x (.done ())) (.returned x.task.vertex .finished)
      (b.note (.updated x.task.vertex)) none
  | fail (x : Execution F) (e : EngineError) :
    Step behaviour index b (.running x (.fail e))
      (.returned x.task.vertex (.failed (.update x.task.vertex e))) b none
  | panic (x : Execution F) :
    Step behaviour index b (.running x .panic) (.returned x.task.vertex .panicked) b none
  | release (v : VertexId) (outcome : Outcome) :
    Step behaviour index b (.returned v outcome) (.completed v outcome)
      { b with scheduler := b.scheduler.complete v } none
  | count (v : VertexId) :
    Step behaviour index b (.completed v .finished)
      (.counting (b.increment.syncs.due b.increment.updates)) b.increment none
  | noteFailed (v : VertexId) (e : EngineError) :
    Step behaviour index b (.completed v (.failed e)) .closing (b.note (.failed v e)) (some e)
  | notePanicked (v : VertexId) :
    Step behaviour index b (.completed v .panicked) .closing (b.note (.panicked v))
      (some .workerPanicked)
  | close : Step behaviour index b .closing .leaving { b with scheduler := b.scheduler.close } none
  | rest : Step behaviour index b (.counting []) .idle b none
  | evaluate (sync : Sync V T) (due : List (Sync V T)) :
    Step behaviour index b (.counting (sync :: due))
      (.folding sync sync.spec.zero (b.graph.vertexIds.filter sync.spec.covers) due) b none
  | skip (sync : Sync V T) (total : T) (v : VertexId) (unread : List VertexId)
    (due : List (Sync V T)) {e : EngineError} (h : b.graph.value v = .error e) :
    Step behaviour index b (.folding sync total (v :: unread) due)
      (.folding sync total unread due) b none
  | fold (sync : Sync V T) (total : T) (v : VertexId) (unread : List VertexId)
    (due : List (Sync V T)) {x : V} {total' : T} (h : b.graph.value v = .ok x)
    (ht : sync.spec.fold total v x = some total') :
    Step behaviour index b (.folding sync total (v :: unread) due)
      (.folding sync total' unread due) b none
  | crash (sync : Sync V T) (total : T) (v : VertexId) (unread : List VertexId)
    (due : List (Sync V T)) {x : V} (h : b.graph.value v = .ok x)
    (ht : sync.spec.fold total v x = none) :
    Step behaviour index b (.folding sync total (v :: unread) due) (.left true) b none
  | publish (sync : Sync V T) (total : T) (due : List (Sync V T)) {value : T}
    (hv : sync.spec.finish total = some value) :
    Step behaviour index b (.folding sync total [] due) (.counting due)
      ({ b with syncs := b.syncs.publish sync.id value }.note (.published sync.id)) none
  | crashAtEnd (sync : Sync V T) (total : T) (due : List (Sync V T))
    (hv : sync.spec.finish total = none) :
    Step behaviour index b (.folding sync total [] due) (.left true) b none
  | leave : Step behaviour index b .leaving (.left false) (b.note (.workerFinished index)) none

namespace Pool

variable {behaviour : Behaviour F V E T O} {p p' : Pool F V E T O} {index : Nat}

theorem split_workers {old : Phase F V T O} (h : p.workers[index]? = some old) :
    ∃ before after, p.workers = before ++ old :: after ∧ before.length = index ∧
      ∀ new, p.workers.set index new = before ++ new :: after := by
  obtain ⟨hlt, hget⟩ := List.getElem?_eq_some_iff.mp h
  refine ⟨p.workers.take index, p.workers.drop (index + 1), ?_, ?_, fun new => ?_⟩
  · rw [← hget, List.getElem_cons_drop, List.take_append_drop]
  · exact List.length_take_of_le (Nat.le_of_lt hlt)
  · exact List.set_eq_take_append_cons_drop.trans (if_pos hlt)

/-- The pool after a step of one worker. -/
def stepped (p : Pool F V E T O) (index : Nat) (new : Phase F V T O) (b : Board F V E T O)
    (e : Option EngineError) : Pool F V E T O :=
  { p with board := b, workers := p.workers.set index new, firstError := p.firstError <|> e }

theorem moved_eq_stepped (p : Pool F V E T O) (index : Nat) (new : Phase F V T O)
    (b : Board F V E T O) : p.moved index new b = p.stepped index new b none := by
  simp [moved, stepped]

theorem ask_eq_some (h : p.ask behaviour index = some p') :
    ∃ new b e, Phase.Step behaviour index p.board .idle new b e ∧ p' = p.stepped index new b e := by
  unfold ask at h
  split at h
  · cases h
  · rename_i scheduler hd
    obtain rfl := Option.some.inj h
    exact ⟨_, _, _, .retire hd, moved_eq_stepped ..⟩
  · rename_i t scheduler hd
    obtain rfl := Option.some.inj h
    cases hl : ({ p.board with scheduler }.note (.dispatched t)).load behaviour t with
    | ok program => exact ⟨_, _, _, .load hd hl, moved_eq_stepped ..⟩
    | error e => exact ⟨_, _, _, .miss hd hl, moved_eq_stepped ..⟩

theorem foldOn_eq (p : Pool F V E T O) (index : Nat) (sync : Sync V T) (total : T)
    (due : List (Sync V T)) (unread : List VertexId) :
    ∃ new b e, Phase.Step behaviour index p.board (.folding sync total unread due) new b e ∧
      p.foldOn index sync total due unread = p.stepped index new b e := by
  cases unread with
  | nil =>
    simp only [foldOn]
    cases hv : sync.spec.finish total with
    | some value =>
      exact ⟨_, _, _, .publish sync total due hv, moved_eq_stepped ..⟩
    | none => exact ⟨_, _, _, .crashAtEnd sync total due hv, moved_eq_stepped ..⟩
  | cons v unread =>
    simp only [foldOn]
    cases hv : p.board.graph.value v with
    | error e => exact ⟨_, _, _, .skip sync total v unread due hv, moved_eq_stepped ..⟩
    | ok x =>
      cases ht : sync.spec.fold total v x with
      | some total' =>
        exact ⟨_, _, _, .fold sync total v unread due hv ht, by simp only [ht, moved_eq_stepped]⟩
      | none =>
        exact ⟨_, _, _, .crash sync total v unread due hv ht, by simp only [ht, moved_eq_stepped]⟩

theorem settle_eq (p : Pool F V E T O) (index : Nat) (v : VertexId) (outcome : Outcome) :
    ∃ new b e, Phase.Step behaviour index p.board (.completed v outcome) new b e ∧
      p.settle index v outcome = p.stepped index new b e := by
  cases outcome with
  | finished => exact ⟨_, _, _, .count v, moved_eq_stepped ..⟩
  | failed e => exact ⟨_, _, _, .noteFailed v e, rfl⟩
  | panicked => exact ⟨_, _, _, .notePanicked v, rfl⟩

theorem runOn_eq (p : Pool F V E T O) (index : Nat) (x : Execution F)
    (program : Program F V T O Unit) :
    ∃ new b e, Phase.Step behaviour index p.board (.running x program) new b e ∧
      p.runOn index x program = p.stepped index new b e := by
  cases program with
  | done _ => exact ⟨_, _, _, .finish x, moved_eq_stepped ..⟩
  | fail e => exact ⟨_, _, _, .fail x e, moved_eq_stepped ..⟩
  | panic => exact ⟨_, _, _, .panic x, moved_eq_stepped ..⟩
  | ask action next => exact ⟨_, _, _, .ask x action next, moved_eq_stepped ..⟩

/-- A step of worker `index` takes this one worker from one phase to another. -/
theorem stepWorker_eq_some (h : p.stepWorker behaviour index = some p') :
    ∃ old new b e, p.workers[index]? = some old ∧ old.Step behaviour index p.board new b e ∧
      p' = p.stepped index new b e := by
  unfold stepWorker at h
  cases hw : p.workers[index]? with
  | none =>
    rw [hw] at h
    cases h
  | some old =>
    rw [hw] at h
    have hfound : (∃ new b e, old.Step behaviour index p.board new b e ∧
        p' = p.stepped index new b e) := by
      cases old with
      | starting => exact ⟨_, _, _, .start, (Option.some.inj h).symm.trans (moved_eq_stepped ..)⟩
      | missing =>
        exact ⟨_, _, _, .withdraw, (Option.some.inj h).symm.trans (moved_eq_stepped ..)⟩
      | idle => exact ask_eq_some h
      | running x rest =>
        obtain rfl := Option.some.inj h
        exact runOn_eq p index x rest
      | returned v outcome =>
        exact ⟨_, _, _, .release v outcome, (Option.some.inj h).symm.trans (moved_eq_stepped ..)⟩
      | completed v outcome =>
        obtain rfl := Option.some.inj h
        exact settle_eq p index v outcome
      | closing => exact ⟨_, _, _, .close, (Option.some.inj h).symm.trans (moved_eq_stepped ..)⟩
      | counting due =>
        cases due with
        | nil => exact ⟨_, _, _, .rest, (Option.some.inj h).symm.trans (moved_eq_stepped ..)⟩
        | cons sync due =>
          exact ⟨_, _, _, .evaluate sync due,
            (Option.some.inj h).symm.trans (moved_eq_stepped ..)⟩
      | folding sync total unread due =>
        obtain rfl := Option.some.inj h
        exact foldOn_eq p index sync total due unread
      | leaving => exact ⟨_, _, _, .leave, (Option.some.inj h).symm.trans (moved_eq_stepped ..)⟩
      | left crashed => cases h
    obtain ⟨new, b, e, hstep, hp⟩ := hfound
    exact ⟨old, new, b, e, rfl, hstep, hp⟩

/-- The pool after it could not start worker `index`: the error is recorded, and the scheduler is
still to be closed.  Later workers are not started at all. -/
def spawnFailed (p : Pool F V E T O) (index : Nat) (reason : String) : Pool F V E T O :=
  { p with
    board := p.board.note (.workerMissing index)
    workers := p.workers.take index ++ [.missing]
    firstError := record p.firstError (.workerSpawn reason) }

end Pool

end Threaded

/-! ## Both engines -/

namespace Machine

/-- One step of a run, or something that happens to it. -/
inductive Step (behaviour : Behaviour F V E T O) : Machine F V E T O → Machine F V E T O → Prop
  | turn {b : Board F V E T O} {r : Board F V E T O × RunStatus}
    (h : Sequential.Turn behaviour b r) :
    Step behaviour (.sequential b .running) (.sequential r.1 r.2)
  | actor {p p' : Threaded.Pool F V E T O} {a : Threaded.Actor}
    (h : p.step behaviour a = some p') : Step behaviour (.threaded p) (.threaded p')
  /-- An abort is requested from outside. -/
  | abort (m : Machine F V E T O) : Step behaviour m m.requestAbort
  /-- A worker cannot be started. -/
  | spawnFailed {p : Threaded.Pool F V E T O} {index : Nat} (reason : String)
    (hr : p.status = .running) (hj : p.joined = 0) (hi : index < p.workers.length)
    (hs : ∀ w ∈ p.workers.drop index, w = .starting) :
    Step behaviour (.threaded p) (.threaded (p.spawnFailed index reason))

/-- Any number of steps. -/
abbrev Reaches (behaviour : Behaviour F V E T O) : Machine F V E T O → Machine F V E T O → Prop :=
  Relation.ReflTransGen (Step behaviour)

theorem reaches_interleave (behaviour : Behaviour F V E T O) (p : Threaded.Pool F V E T O)
    (actors : List Threaded.Actor) :
    Reaches behaviour (.threaded p) (.threaded (p.interleave behaviour actors)) := by
  induction actors generalizing p with
  | nil => exact .refl
  | cons a rest ih =>
    rw [Threaded.Pool.interleave]
    cases h : p.step behaviour a with
    | none => exact ih p
    | some p' => exact .head (.actor h) (ih p')

/-- What `advance` does is one of the steps, or nothing. -/
theorem reaches_advance (behaviour : Behaviour F V E T O) (m : Machine F V E T O) :
    Reaches behaviour m (m.advance behaviour) := by
  cases m with
  | sequential b status =>
    cases status with
    | running => exact .single (.turn (Sequential.turn_turn behaviour b))
    | ended _ => exact .refl
    | crashed => exact .refl
  | threaded p =>
    simp only [advance, Threaded.Pool.advance]
    cases h : p.actors.findSome? (p.step behaviour) with
    | none => exact .refl
    | some p' =>
      obtain ⟨a, -, ha⟩ := List.exists_of_findSome?_eq_some h
      exact .single (.actor ha)

theorem reaches_advanceBy (behaviour : Behaviour F V E T O) (steps : Nat)
    (m : Machine F V E T O) : Reaches behaviour m (m.advanceBy behaviour steps) := by
  induction steps generalizing m with
  | zero => exact .refl
  | succ steps ih =>
    rw [advanceBy]
    split
    · exact (reaches_advance behaviour m).trans (ih _)
    · exact .refl

end Machine

end VertexEngine
