import VertexEngine.Proofs.Run.Scene
import VertexEngine.Proofs.Run.Step

/-!
# What a run does on its way

How a run ends depends on how the executions in it ended, and on what the engine saw when it looked
whether an abort was requested.  These are its `Deed`s.

* `Sequential.Does` is a turn of the loop with its deeds, and `Machine.Acts` any step of a run in
  which workers can be started.  `Step.acts` says that there are no other steps.
* `Machine.Passes` is a run with all its deeds, the latest first.
-/

namespace VertexEngine

variable {F V E T O : Type} {behaviour : Behaviour F V E T O}

/-! ## Deeds -/

/-- How a program came to its end. -/
inductive Ending where
  | finished
  /-- By an error of its own. -/
  | failed (source : EngineError)
  | panicked

namespace Ending

/-- What is reported for an execution on the vertex: an error is wrapped with it. -/
def outcome (v : VertexId) : Ending → Outcome
  | finished => .finished
  | failed source => .failed (.update v source)
  | panicked => .panicked

/-- The error that the caller of the run is to get. -/
def error? (v : VertexId) : Ending → Option EngineError
  | finished => none
  | failed source => some (.update v source)
  | panicked => some .workerPanicked

end Ending

/-- What the end of a run depends on. -/
inductive Deed where
  /-- A program on the vertex came to its end. -/
  | ended (v : VertexId) (ending : Ending)
  /-- An engine looked whether an abort was requested. -/
  | looked (abort : Bool)

namespace Deed

def error? : Deed → Option EngineError
  | ended v ending => ending.error? v
  | looked _ => none

/-- The vertex of an execution that ended. -/
def vertex? : Deed → Option VertexId
  | ended v _ => some v
  | looked _ => none

/-- Whether an execution ended well. -/
def isFinished : Deed → Bool
  | ended _ .finished => true
  | _ => false

def look? : Deed → Option Bool
  | ended .. => none
  | looked abort => some abort

end Deed

/-- No execution failed or panicked. -/
def Faultless (deeds : List Deed) : Prop :=
  ∀ deed ∈ deeds, deed.error? = none

instance (deeds : List Deed) : Decidable (Faultless deeds) :=
  decidable_of_iff (deeds.all fun deed => deed.error?.isNone) (by simp [Faultless])

/-- What an engine saw when it last looked for an abort. -/
def lastLook (deeds : List Deed) : Option Bool :=
  deeds.findSome? Deed.look?

theorem faultless_nil : Faultless [] := by
  intro deed hdeed
  cases hdeed

theorem Faultless.append {as bs : List Deed} (ha : Faultless as) (hb : Faultless bs) :
    Faultless (as ++ bs) := by
  intro deed hdeed
  rcases List.mem_append.mp hdeed with h | h
  · exact ha deed h
  · exact hb deed h

/-- How a program that has come to its end did so. -/
def Program.ending? : Program F V T O Unit → Option Ending
  | .done _ => some .finished
  | .fail source => some (.failed source)
  | .panic => some .panicked
  | .ask .. => none

/-! ## The sequential loop -/

/-- Whatever a program is asked, its outcome comes from the way it ended. -/
theorem Board.Completes.exists_ending {b b' : Board F V E T O} {x : Execution F}
    {program : Program F V T O Unit} {outcome : Outcome} (h : b.Completes x program outcome b') :
    ∃ ending : Ending, ending.outcome x.task.vertex = outcome := by
  induction h with
  | abort _ ih => exact ih
  | done _ _ => exact ⟨.finished, rfl⟩
  | fail _ _ e => exact ⟨.failed e, rfl⟩
  | panic _ _ => exact ⟨.panicked, rfl⟩
  | ask _ ih => simpa using ih

namespace Sequential

/-- One turn of the loop, with its deeds. -/
inductive Does (behaviour : Behaviour F V E T O) (b : Board F V E T O) :
    List Deed → Board F V E T O × RunStatus → Prop
  | aborted (h : b.abort = true) :
    Does behaviour b [.looked true] (b, .ended (.error .aborted))
  | drained {scheduler : Scheduler F} (h : b.abort = false)
    (hn : b.scheduler.next = (none, scheduler)) :
    Does behaviour b [.looked false]
      ({ b with scheduler }.note (.loopDrained .sequential), .ended (.ok ()))
  /-- The vertex of the task is not there. -/
  | missed {scheduler : Scheduler F} {t : Task F} {e : EngineError} (h : b.abort = false)
    (hn : b.scheduler.next = (some t, scheduler))
    (hl : ({ b with scheduler }.note (.dispatched t)).load behaviour t = .error e) :
    Does behaviour b [.looked false]
      (settle ({ b with scheduler }.note (.dispatched t)) t.vertex (.failed e))
  | ran {scheduler : Scheduler F} {t : Task F} {program : Program F V T O Unit} {ending : Ending}
    {b' : Board F V E T O} (h : b.abort = false) (hn : b.scheduler.next = (some t, scheduler))
    (hl : ({ b with scheduler }.note (.dispatched t)).load behaviour t = .ok program)
    (hc : ({ b with scheduler }.note (.dispatched t)).Completes ⟨t, 0⟩ program
      (ending.outcome t.vertex) b') :
    Does behaviour b [.ended t.vertex ending, .looked false]
      (settle b' t.vertex (ending.outcome t.vertex))

variable {b : Board F V E T O} {r : Board F V E T O × RunStatus}

theorem Does.turn {deeds : List Deed} (h : Does behaviour b deeds r) : Turn behaviour b r := by
  cases h with
  | aborted h => exact .aborted h
  | drained h hn => exact .drained h hn
  | missed h hn hl => exact .ran h hn (.missing hl)
  | ran h hn hl hc => exact .ran h hn (.ran hl hc)

theorem Turn.does (h : Turn behaviour b r) : ∃ deeds, Does behaviour b deeds r := by
  cases h with
  | aborted h => exact ⟨_, .aborted h⟩
  | drained h hn => exact ⟨_, .drained h hn⟩
  | ran h hn hx =>
    cases hx with
    | missing hl => exact ⟨_, .missed h hn hl⟩
    | ran hl hc =>
      obtain ⟨ending, rfl⟩ := hc.exists_ending
      exact ⟨_, .ran h hn hl hc⟩

end Sequential

/-! ## The pool -/

namespace Threaded

/-- What a worker in this phase does with its next step.  A scheduler that is closed is not asked
for an abort. -/
def Phase.deeds (b : Board F V E T O) : Phase F V T O → List Deed
  | idle => if b.scheduler.closed then [] else [.looked b.abort]
  | running x rest => (rest.ending?.map (Deed.ended x.task.vertex)).toList
  | _ => []

namespace Pool

/-- What an actor does with its next step.  The pool looks for an abort when all of its workers have
left without an error. -/
def deeds (p : Pool F V E T O) : Actor → List Deed
  | .worker index => (p.workers[index]?.map (Phase.deeds p.board)).getD []
  | .pool =>
    match p.workers[p.joined]?, p.firstError with
    | none, none => [.looked p.board.abort]
    | _, _ => []

theorem deeds_worker {p : Pool F V E T O} {index : Nat} {w : Phase F V T O}
    (hw : p.workers[index]? = some w) : p.deeds (.worker index) = w.deeds p.board := by
  simp only [deeds, hw]
  rfl

/-- What the given actors do, the latest deed first. -/
def deedsAlong (behaviour : Behaviour F V E T O) (p : Pool F V E T O) : List Actor → List Deed
  | [] => []
  | a :: rest =>
    match p.step behaviour a with
    | none => p.deedsAlong behaviour rest
    | some p' => p'.deedsAlong behaviour rest ++ p.deeds a

end Pool

end Threaded

/-! ## Both engines -/

namespace Machine

/-- One step of a run in which workers can be started, or an abort request, with the deeds of it. -/
inductive Acts (behaviour : Behaviour F V E T O) :
    List Deed → Machine F V E T O → Machine F V E T O → Prop
  | turn {b : Board F V E T O} {deeds : List Deed} {r : Board F V E T O × RunStatus}
    (h : Sequential.Does behaviour b deeds r) :
    Acts behaviour deeds (.sequential b .running) (.sequential r.1 r.2)
  | actor {p p' : Threaded.Pool F V E T O} {a : Threaded.Actor}
    (h : p.step behaviour a = some p') : Acts behaviour (p.deeds a) (.threaded p) (.threaded p')
  | abort (m : Machine F V E T O) : Acts behaviour [] m m.requestAbort

/-- A run with its deeds, the latest first. -/
inductive Passes (behaviour : Behaviour F V E T O) (first : Machine F V E T O) :
    List Deed → Machine F V E T O → Prop
  | start : Passes behaviour first [] first
  | step {deeds new : List Deed} {m m' : Machine F V E T O} (h : Passes behaviour first deeds m)
    (hs : m.Acts behaviour new m') : Passes behaviour first (new ++ deeds) m'

variable {m m' m'' : Machine F V E T O} {deeds deeds' : List Deed}

theorem Acts.step (h : m.Acts behaviour deeds m') : m.Step behaviour m' := by
  cases h with
  | turn h => exact .turn h.turn
  | actor h => exact .actor h
  | abort => exact .abort m

/-- All but one kind of step have their deeds. -/
theorem Step.acts (h : m.Step behaviour m') :
    (∃ deeds, m.Acts behaviour deeds m') ∨
      ∃ p index reason, m = .threaded p ∧ m' = .threaded (p.spawnFailed index reason) := by
  cases h with
  | turn h =>
    obtain ⟨deeds, hdoes⟩ := h.does
    exact .inl ⟨deeds, .turn hdoes⟩
  | actor h => exact .inl ⟨_, .actor h⟩
  | abort => exact .inl ⟨_, .abort m⟩
  | spawnFailed reason _ _ _ _ => exact .inr ⟨_, _, reason, rfl, rfl⟩

namespace Passes

theorem reaches (h : m.Passes behaviour deeds m') : m.Reaches behaviour m' := by
  induction h with
  | start => exact .refl
  | step _ hs ih => exact ih.tail hs.step

theorem trans (h : m.Passes behaviour deeds m') (h' : m'.Passes behaviour deeds' m'') :
    m.Passes behaviour (deeds' ++ deeds) m'' := by
  induction h' with
  | start => exact h
  | step _ hs ih =>
    rw [List.append_assoc]
    exact .step ih hs

theorem single (h : m.Acts behaviour deeds m') : m.Passes behaviour deeds m' := by
  simpa using Passes.step .start h

end Passes

theorem passes_interleave (behaviour : Behaviour F V E T O) (p : Threaded.Pool F V E T O)
    (actors : List Threaded.Actor) :
    Passes behaviour (.threaded p) (p.deedsAlong behaviour actors)
      (.threaded (p.interleave behaviour actors)) := by
  induction actors generalizing p with
  | nil => exact .start
  | cons a rest ih =>
    rw [Threaded.Pool.interleave, Threaded.Pool.deedsAlong]
    cases h : p.step behaviour a with
    | none => exact ih p
    | some p' => exact (Passes.single (.actor h)).trans (ih p')

end Machine

end VertexEngine
