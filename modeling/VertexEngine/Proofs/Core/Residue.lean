import VertexEngine.Proofs.Core.Alike
import VertexEngine.Proofs.Core.Lifecycle

/-!
# A run leaves nothing behind

After a run a core is as good as new: it cannot be told from a core that was just made with the same
options, given the same graph and the same syncs, whatever is done with the two.

* `Core.Unfolds` is what can be seen of a core from now on: a list of episodes, each with what the
  operation gave back or what happened in the run.  `Alike.unfolds` says that cores that are alike
  unfold in the same ways.
* `Run.alike_furnish` says that a core after a run is like a new one, and `Consistent.idle` that a
  run of a core without tasks does nothing.
* `Reachable.no_residue` is the result.
-/

namespace VertexEngine

variable {F V E T O : Type} {behaviour : Behaviour F V E T O}

namespace Core

/-! ## What can be seen of a core -/

/-- What a user can see of a core between calls, the totals over past runs apart. -/
structure View (F V E T : Type) where
  options : EngineOptions
  stage : Stage V E
  pending : List (Task F)
  abort : Bool
  /-- The syncs with the values that they published last. -/
  syncs : List (Sync V T)

def view (core : Core F V E T) : View F V E T where
  options := core.options
  stage := core.stage
  pending := core.scheduler.queue.toList
  abort := core.abort
  syncs := core.syncs.syncs

/-- One thing that is done with a core, and what can be seen of it. -/
inductive Episode (F V E T O : Type) where
  | operation (op : Operation F V E T) (answer : Except EngineError (Reply V E))
    (after : View F V E T)
  /-- A run is not started. -/
  | refused (e : EngineError)
  | run (conclusion : Conclusion) (history : List (Event F O)) (after : View F V E T)
  /-- A run has come this far. -/
  | underWay (graph : Graph V E) (history : List (Event F O))

/-- What can be seen of a core from now on, when it is used in some way. -/
inductive Unfolds (behaviour : Behaviour F V E T O) :
    Core F V E T → List (Episode F V E T O) → Prop
  | nothing (core : Core F V E T) : Unfolds behaviour core []
  | operation {core : Core F V E T} (op : Operation F V E T) {later : List (Episode F V E T O)}
    (h : Unfolds behaviour (op.reply.run core).2 later) :
    Unfolds behaviour core
      (.operation op (op.reply.run core).1 (op.reply.run core).2.view :: later)
  | refused {core : Core F V E T} {e : EngineError} (he : core.launch (O := O) = .error e)
    {later : List (Episode F V E T O)} (h : Unfolds behaviour core later) :
    Unfolds behaviour core (.refused e :: later)
  | run {core : Core F V E T} (r : Run behaviour core) {later : List (Episode F V E T O)}
    (h : Unfolds behaviour r.next later) :
    Unfolds behaviour core (.run r.conclusion r.last.board.history r.next.view :: later)
  | underWay {core : Core F V E T} {first m : Machine F V E T O} (hl : core.launch = .ok first)
    (hr : first.Reaches behaviour m) :
    Unfolds behaviour core [.underWay m.board.graph m.board.history]

namespace Alike

variable {core core' : Core F V E T}

theorem view (h : core.Alike core') : core'.view = core.view := by
  simp only [Core.view, h.options, h.stage, h.scheduler.queue.toList_eq, h.abort, h.syncs]

/-- Cores that are alike unfold in the same ways. -/
theorem unfolds (h : core.Alike core') {episodes : List (Episode F V E T O)}
    (hu : core.Unfolds behaviour episodes) : core'.Unfolds behaviour episodes := by
  induction hu generalizing core' with
  | nothing core => exact .nothing core'
  | @operation core op later _ ih =>
    obtain ⟨hanswer, hlike⟩ := op.agrees core core' h
    rw [← hanswer, ← hlike.view]
    exact .operation op (ih hlike)
  | refused he _ ih => exact .refused (h.launch_error he) (ih h)
  | @run core r later _ ih =>
    obtain ⟨r', hconclusion, hhistory, hlike⟩ := h.run r
    rw [← hconclusion, ← hhistory, ← hlike.view]
    exact .run r' (ih hlike)
  | @underWay core first m hl hr =>
    obtain ⟨first', hl', hfirst⟩ := h.launch_ok hl
    obtain ⟨m', hr', hlike⟩ := hfirst.reaches hr
    rw [← hlike.board.graph, ← hlike.board.history]
    exact .underWay hl' hr'

theorem unfolds_iff (h : core.Alike core') {episodes : List (Episode F V E T O)} :
    core.Unfolds behaviour episodes ↔ core'.Unfolds behaviour episodes :=
  ⟨h.unfolds, h.symm.unfolds⟩

end Alike

/-! ## After a run -/

/-- A new core that was given a graph, and syncs with their values. -/
def furnish (new : Core F V E T) (g : Graph V E) (syncs : List (Sync V T)) : Core F V E T :=
  { ((setGraph g).run new).2 with syncs := { syncs } }

/-- What was pending is done or dropped, the abort request is used up, and the rest is as before. -/
theorem Run.swept {core : Core F V E T} (r : Run behaviour core) (hs : core.Sound)
    (hr : r.conclusion ≠ .crashed) :
    r.next.scheduler.queue.toList = [] ∧ r.next.abort = false ∧
      r.next.options = core.options ∧ r.next.stage = .bound r.last.board.graph := by
  obtain ⟨first, last, conclusion, next, hlaunched, hreached, hconcluded⟩ := r
  obtain ⟨p, hp⟩ := hs.tracks
  obtain ⟨g, -, ho, -, -, -⟩ := launch_eq_ok hlaunched hs hp
  obtain ⟨p', -, ho'⟩ := hreached.moves ho
  cases concludes_of_eq_some hconcluded with
  | crashed _ => exact absurd rfl hr
  | converged hstatus =>
    exact ⟨ho'.tracks.queue.toList_eq.trans (ho'.converged hstatus).1, rfl, rfl, rfl⟩
  | stopped _ => exact ⟨toList_reset ho'.tracks, rfl, rfl, rfl⟩

/-- After a run a core is like a new one. -/
theorem Run.alike_furnish {core : Core F V E T} (r : Run behaviour core) (hc : core.Consistent)
    (hr : r.conclusion ≠ .crashed) :
    ∃ new : Core F V E T, withOptions core.options = .ok new ∧
      r.next.Alike (new.furnish r.last.board.graph r.next.syncs.syncs) := by
  have hnext := r.consistent hc
  obtain ⟨htasks, habort, hoptions, hstage⟩ := r.swept hc.toSound hr
  obtain ⟨p, hp⟩ := hnext.tracks
  have hplain : p = ⟨core.options.scheduler, core.options.policy, []⟩ := by
    rw [hp.queue.eq_pendingList, TaskQueue.pendingList, htasks, hnext.kind, hnext.policy, hoptions]
  have hncpus : ¬core.options.ncpus = 0 := Nat.ne_of_gt hc.ncpus
  refine ⟨{ options := core.options
            scheduler := .empty core.options.scheduler core.options.policy }, ?_, ?_⟩
  · rw [withOptions, checkOptions, if_neg hncpus]
    rfl
  · refine ⟨hoptions.symm, hstage.symm, ⟨⟨p, hp.queue, ?_⟩, hp.inFlight.eq_nil.symm,
      hnext.closed.symm⟩, habort.symm, rfl⟩
    rw [hplain]
    exact (Represents.empty core.options.scheduler core.options.policy).clear

end Core

/-- Nothing is pending, nobody has a task, and nothing was done since. -/
structure Scene.Idles (s s' : Scene F V E T O) : Prop where
  pending : s'.pending.tasks = []
  hands : s'.hands = []
  graph : s'.board.graph = s.board.graph
  updates : s'.board.updates = s.board.updates
  taken : s'.board.taken = s.board.taken

theorem Move.idles {s s' : Scene F V E T O} (hm : Move behaviour s s')
    (hp : s.pending.tasks = []) (hh : s.hands = []) : s.Idles s' := by
  cases hm with
  | quiet hb _ => exact ⟨hp, hh, hb.graph, hb.updates, hb.taken⟩
  | take _ ht _ _ =>
    have hmem := List.mem_of_find?_eq_some ht
    rw [show _ = [] from hp] at hmem
    cases hmem
  | _ => simp at hh

/-- Where nothing is pending and nobody has a task, nothing is done. -/
theorem Moves.idles {s s' : Scene F V E T O} (hm : Moves behaviour s s')
    (hp : s.pending.tasks = []) (hh : s.hands = []) : s.Idles s' := by
  induction hm with
  | refl => exact ⟨hp, hh, rfl, rfl, rfl⟩
  | tail _ hstep ih =>
    have h := hstep.idles ih.pending ih.hands
    exact ⟨h.pending, h.hands, h.graph.trans ih.graph, h.updates.trans ih.updates,
      h.taken.trans ih.taken⟩

namespace Core

/-- A run of a core without tasks takes no task, counts no update and changes no value. -/
theorem Consistent.idle {core : Core F V E T} (h : core.Consistent)
    (ht : core.scheduler.queue.toList = []) {g : Graph V E} (hg : core.heldGraph? = some g)
    {first m : Machine F V E T O} (hl : core.launch = .ok first) (hr : first.Reaches behaviour m) :
    m.board.taken = [] ∧ m.board.updates = 0 ∧ m.board.graph = g := by
  obtain ⟨p, hp⟩ := h.tracks
  obtain ⟨g', hg', ho, hhands, hquiet, -⟩ := launch_eq_ok hl h.toSound hp
  obtain rfl := Option.some.inj (hg'.symm.trans hg)
  obtain ⟨p', hmoves, -⟩ := hr.moves ho
  have hidles := Moves.idles hmoves (hp.queue.toList_eq.symm.trans ht) hhands
  exact ⟨hidles.taken.trans hquiet.taken, hidles.updates.trans hquiet.updates,
    hidles.graph.trans hquiet.graph⟩

/-- When a run of a core has returned, however it ended, nothing is pending or in flight, the
scheduler is open and no abort is requested.  From then on the core cannot be told from a new one
with the same options, the graph with its values and the syncs with theirs.  In particular a second
run does nothing. -/
theorem Reachable.no_residue {core : Core F V E T} (hc : core.Reachable behaviour)
    (r : Run behaviour core) (hr : r.conclusion ≠ .crashed) :
    r.next.scheduler.queue.toList = [] ∧ r.next.scheduler.inFlight = [] ∧
      r.next.scheduler.closed = false ∧ r.next.abort = false ∧
      r.next.heldGraph? = some r.last.board.graph ∧
      (∃ new : Core F V E T, withOptions core.options = .ok new ∧
        ∀ (later : Behaviour F V E T O) (episodes : List (Episode F V E T O)),
          r.next.Unfolds later episodes ↔
            (new.furnish r.last.board.graph r.next.syncs.syncs).Unfolds later episodes) ∧
      ∀ (later : Behaviour F V E T O) (first m : Machine F V E T O),
        r.next.launch = .ok first → first.Reaches later m →
        m.board.taken = [] ∧ m.board.updates = 0 ∧ m.board.graph = r.last.board.graph := by
  have hconsistent := hc.consistent
  have hnext := r.consistent hconsistent
  obtain ⟨htasks, habort, -, hstage⟩ := r.swept hconsistent.toSound hr
  obtain ⟨p, hp⟩ := hnext.tracks
  obtain ⟨new, hnew, hlike⟩ := r.alike_furnish hconsistent hr
  have hheld : r.next.heldGraph? = some r.last.board.graph := by rw [heldGraph?, hstage]
  exact ⟨htasks, hp.inFlight.eq_nil, hnext.closed, habort, hheld,
    ⟨new, hnew, fun _ _ => hlike.unfolds_iff⟩, fun _ _ _ hl hr => hnext.idle htasks hheld hl hr⟩

/-- A run of a core with one task that is aborted before its first turn. -/
def abortedOneTask : Run askOnce oneTask :=
  let first : Machine Bool Nat Unit Nat Empty :=
    .start .plain (oneTask.boardOn ((Graph.Operation.addVertex 0).edit.run {}).2)
  { first
    last := first.requestAbort.advance askOnce
    conclusion := .stopped .aborted
    next := oneTask.afterRun (first.requestAbort.advance askOnce).board (.error .aborted)
    launched := rfl
    reached := .head (.abort first) (Machine.reaches_advance askOnce _)
    concluded := rfl }

/-- The task that was not run is dropped, and the request to abort is used up. -/
theorem no_residue_abortedOneTask : oneTask.scheduler.pending = 1 ∧
    abortedOneTask.last.board.abort = true ∧
    abortedOneTask.next.scheduler.queue.toList = [] ∧ abortedOneTask.next.abort = false := by
  obtain ⟨htasks, -, -, habort, -⟩ := reachable_oneTask.no_residue abortedOneTask nofun
  exact ⟨rfl, rfl, htasks, habort⟩

end Core

end VertexEngine
