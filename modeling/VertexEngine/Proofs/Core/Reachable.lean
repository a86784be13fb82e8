import VertexEngine.Core.Basic
import VertexEngine.Proofs.Graph.Built
import VertexEngine.Proofs.Run.Orderly

/-!
# The cores that users can get

`Core.Reachable` are the cores that any sequence of operations and runs can make of a new one,
refused calls included.  Graphs come from `Graph.Built` and are changed by its operations only.

Between calls such a core is `Core.Sound`: its scheduler is open and nothing is in flight, its queue
holds a list of pending tasks, and its graph is well formed.  So a run of it starts on an orderly
machine, which is what `launch_eq_ok` says.
-/

namespace VertexEngine

/-- A number above those of all registered syncs. -/
def SyncSet.nextId {V T : Type} (s : SyncSet V T) : SyncId :=
  (s.syncs.map (·.id + 1)).foldr max 0

namespace Core

variable {F V E T O : Type} {behaviour : Behaviour F V E T O}

/-- An operation of a core that is not a run. -/
inductive Operation (F V E T : Type) where
  | setOptions (options : EngineOptions)
  | setGraph (g : Graph V E) (h : g.Built)
  /-- The bound graph is changed by the operations of graphs alone. -/
  | editGraph (op : Graph.Operation V E)
  | takeGraph
  | schedule (v : VertexId) (update : F) (priority : Float)
  | scheduleMany (vertices : List VertexId) (update : F) (priority : Float)
  | scheduleAll (update : F) (priority : Float)
  | reset
  | requestAbort
  /-- Registers a sync under the next number of a counter, of which all engines take their numbers;
  so many were taken elsewhere in the meantime. -/
  | setSync (elsewhere : Nat) (spec : SyncSpec V T)
  | syncNow (id : SyncId)
  | destroy

/-- The call of an operation; its answer is not looked at. -/
def Operation.call : Operation F V E T → Call F V E T Unit
  | setOptions options => Core.setOptions options
  | setGraph g _ => do
    let _ ← Core.setGraph g
  | editGraph op => Core.editGraph op.edit
  | takeGraph => do
    let _ ← Core.takeGraph
  | schedule v update priority => Core.schedule v update priority
  | scheduleMany vertices update priority => do
    let _ ← Core.scheduleMany vertices update priority
  | scheduleAll update priority => do
    let _ ← Core.scheduleAll update priority
  | reset => do
    let _ ← Core.reset
  | requestAbort => modify Core.requestAbort
  | setSync elsewhere spec => do
    let core ← get
    Core.setSync (core.syncs.nextId + elsewhere) spec
  | syncNow id => do
    let _ ← Core.syncNow id
  | destroy => do
    let _ ← Core.destroy

/-- A run of a core: how it ended, and the core after it. -/
structure Run (behaviour : Behaviour F V E T O) (core : Core F V E T) where
  first : Machine F V E T O
  last : Machine F V E T O
  conclusion : Conclusion
  next : Core F V E T
  launched : core.launch = .ok first
  reached : first.Reaches behaviour last
  concluded : core.conclude? last = some (conclusion, next)

/-- The cores that operations and runs make of a new one. -/
inductive Reachable (behaviour : Behaviour F V E T O) : Core F V E T → Prop
  | new {options : EngineOptions} {core : Core F V E T} (h : withOptions options = .ok core) :
    Reachable behaviour core
  | operation {core : Core F V E T} (h : Reachable behaviour core) (op : Operation F V E T) :
    Reachable behaviour (op.call.run core).2
  | run {core : Core F V E T} (h : Reachable behaviour core) (r : Run behaviour core) :
    Reachable behaviour r.next

theorem withOptions_eq_ok {options : EngineOptions} {core : Core F V E T}
    (h : withOptions options = .ok core) : checkOptions options = .ok () ∧
      core = { options, scheduler := .empty options.scheduler options.policy } := by
  unfold withOptions at h
  cases hc : checkOptions options with
  | error e => rw [hc] at h; cases h
  | ok u =>
    rw [hc] at h
    exact ⟨rfl, (Except.ok.inj h).symm⟩

/-- What holds of a core between calls. -/
structure Sound (core : Core F V E T) : Prop where
  tracks : ∃ p, core.scheduler.Tracks p []
  closed : core.scheduler.closed = false
  graph : ∀ g, core.heldGraph? = some g → g.WellFormed

/-! ## Operations -/

/-- A graph is held by being bound. -/
theorem stage_of_heldGraph {core : Core F V E T} {g : Graph V E} (h : core.heldGraph? = some g) :
    core.stage = .bound g := by
  unfold heldGraph? at h
  split at h
  · rename_i g' hstage
    rw [← Option.some.inj h]
    exact hstage
  · cases h

namespace Sound

variable {core : Core F V E T}

theorem schedule (h : core.Sound) (v : VertexId) (update : F) (priority : Float) :
    { core with scheduler := (core.scheduler.schedule v update priority).1 }.Sound := by
  obtain ⟨p, hp⟩ := h.tracks
  exact ⟨⟨_, hp.schedule v update priority⟩, h.closed, h.graph⟩

theorem reset (h : core.Sound) {stage : Stage V E}
    (hg : ∀ g, stage = .bound g → g.WellFormed) :
    { core with stage, scheduler := core.scheduler.reset }.Sound := by
  obtain ⟨p, hp⟩ := h.tracks
  exact ⟨⟨_, hp.reset⟩, rfl, fun g hheld => hg g (stage_of_heldGraph hheld)⟩

end Sound

theorem keeps_checkAlive {I : Core F V E T → Prop} : Keeps I (checkAlive : Call F V E T Unit) := by
  refine .get_bind fun core _ => ?_
  split
  · exact .throw _
  · exact .pure _

/-- The graph that a call works on is the one that is bound. -/
theorem keeps_getGraph_bind {I : Core F V E T → Prop} {α : Type} {f : Graph V E → Call F V E T α}
    (hf : ∀ core g, I core → core.heldGraph? = some g → Keeps I (f g)) :
    Keeps I (getGraph >>= f) := by
  intro core h
  have hf' := hf core
  obtain ⟨options, stage, scheduler⟩ := core
  cases stage with
  | ready => exact h
  | destroyed => exact h
  | bound g => exact hf' g h rfl _ h

theorem keeps_scheduleMany (vertices : List VertexId) (update : F) (priority : Float) :
    Keeps Sound (scheduleMany vertices update priority : Call F V E T Nat) := by
  refine keeps_getGraph_bind fun _ _ _ _ => .bind (.check _) fun _ =>
    .bind (.forM fun _ _ => .check _) fun _ => .bind (.forM fun v _ => ?_) fun _ => .pure _
  exact .modify fun core h => h.schedule v update priority

theorem Operation.keeps_sound (op : Operation F V E T) : Keeps Sound op.call := by
  cases op with
  | setOptions options =>
    refine .bind keeps_checkAlive fun _ => .get_bind fun core h => ?_
    split
    · exact .throw_bind _ _
    · refine .bind (.check _) fun _ => .set ⟨?_, ?_, h.graph⟩
      · split
        · exact h.tracks
        · exact ⟨_, .empty _ _⟩
      · split
        · exact h.closed
        · rfl
  | setGraph g hg =>
    refine .bind (.bind keeps_checkAlive fun _ => .get_bind fun core _ =>
      .bind (.modify fun core h => h.reset fun g' hg' => ?_) fun _ => .pure _) fun _ => .pure _
    cases hg'
    exact hg.wellFormed
  | editGraph op =>
    refine keeps_getGraph_bind fun core g h hg =>
      .bind (.modify fun core h' => ?_) fun _ => .check _
    refine ⟨h'.tracks, h'.closed, fun g' hg' => ?_⟩
    obtain rfl := Option.some.inj hg'
    exact op.keeps_wellFormed g (h.graph g hg)
  | takeGraph =>
    exact .bind (.bind keeps_checkAlive fun _ => .get_bind fun core _ =>
      .bind (.modify fun core h => h.reset (by simp)) fun _ => .pure _) fun _ => .pure _
  | schedule v update priority =>
    exact keeps_getGraph_bind fun _ _ _ _ => .bind (.check _) fun _ => .bind (.check _) fun _ =>
      .modify fun core h => h.schedule v update priority
  | scheduleMany vertices update priority =>
    exact .bind (keeps_scheduleMany vertices update priority) fun _ => .pure _
  | scheduleAll update priority =>
    exact .bind (keeps_getGraph_bind fun _ g _ _ => keeps_scheduleMany g.vertexIds update priority)
      fun _ => .pure _
  | reset =>
    refine .bind (.bind keeps_checkAlive fun _ => .get_bind fun core _ =>
      .bind (.modify fun core h => ?_) fun _ => .pure _) fun _ => .pure _
    exact h.reset fun g hg => h.graph g (by rw [heldGraph?, hg])
  | requestAbort => exact .modify fun core h => ⟨h.tracks, h.closed, h.graph⟩
  | setSync elsewhere spec =>
    exact .get_bind fun _ _ => .bind keeps_checkAlive fun _ =>
      .modify fun core h => ⟨h.tracks, h.closed, h.graph⟩
  | syncNow id =>
    refine .bind (keeps_getGraph_bind fun _ g _ _ => .get_bind fun core h => ?_) fun _ => .pure _
    split
    · exact .throw _
    · exact .bind (.set ⟨h.tracks, h.closed, h.graph⟩) fun _ => .pure _
  | destroy =>
    exact .bind (.bind keeps_checkAlive fun _ => .get_bind fun core _ =>
      .bind (.modify fun core h => h.reset (by simp)) fun _ => .pure _) fun _ => .pure _

/-- What depends on the syncs, the abort request and the record of past runs alone is kept by every
operation, if it is kept when a sync is registered or evaluated and when an abort is requested. -/
theorem Operation.keeps_of_syncs {I : Core F V E T → Prop}
    (hI : ∀ core options stage scheduler, I core → I { core with options, stage, scheduler })
    (habort : ∀ core, I core → I core.requestAbort)
    (hregister : ∀ core elsewhere spec, I core →
      I { core with syncs := core.syncs.register (core.syncs.nextId + elsewhere) spec })
    (hevaluate : ∀ core id g syncs round, I core →
      core.syncs.evaluateOne id (g : Graph V E) = some (syncs, round) → I { core with syncs })
    (op : Operation F V E T) : Keeps I op.call := by
  have hdrop : ∀ {α : Type} (stage : Core F V E T → Stage V E) (f : Core F V E T → α),
      Keeps I (do
        checkAlive
        let core ← get
        modify fun core => { core with stage := stage core, scheduler := core.scheduler.reset }
        return f core : Call F V E T α) :=
    fun stage f => .bind keeps_checkAlive fun _ => .get_bind fun _ _ =>
      .bind (.modify fun core h => hI core _ _ _ h) fun _ => .pure _
  have hmany : ∀ vertices update priority,
      Keeps I (Core.scheduleMany vertices update priority : Call F V E T Nat) :=
    fun vertices update priority => keeps_getGraph_bind fun _ _ _ _ => .bind (.check _) fun _ =>
      .bind (.forM fun _ _ => .check _) fun _ =>
        .bind (.forM fun _ _ => .modify fun core h => hI core _ _ _ h) fun _ => .pure _
  cases op with
  | setOptions options =>
    refine .bind keeps_checkAlive fun _ => .get_bind fun core h => ?_
    split
    · exact .throw_bind _ _
    · exact .bind (.check _) fun _ => .set (hI core _ _ _ h)
  | setGraph g _ => exact .bind (hdrop (fun _ => .bound g) _) fun _ => .pure _
  | editGraph op =>
    exact keeps_getGraph_bind fun _ _ _ _ => .bind (.modify fun core h => hI core _ _ _ h)
      fun _ => .check _
  | takeGraph => exact .bind (hdrop (fun _ => .ready) _) fun _ => .pure _
  | schedule v update priority =>
    exact keeps_getGraph_bind fun _ _ _ _ => .bind (.check _) fun _ => .bind (.check _) fun _ =>
      .modify fun core h => hI core _ _ _ h
  | scheduleMany vertices update priority =>
    exact .bind (hmany vertices update priority) fun _ => .pure _
  | scheduleAll update priority =>
    exact .bind (keeps_getGraph_bind fun _ g _ _ => hmany g.vertexIds update priority)
      fun _ => .pure _
  | reset => exact .bind (hdrop (fun core => core.stage) _) fun _ => .pure _
  | requestAbort => exact .modify habort
  | setSync elsewhere spec =>
    -- the number is taken from the core as it is found
    intro core h
    have hregistered := hregister core elsewhere spec h
    obtain ⟨options, stage, scheduler⟩ := core
    cases stage with
    | destroyed => exact h
    | ready => exact hregistered
    | bound g => exact hregistered
  | syncNow id =>
    refine .bind (keeps_getGraph_bind fun _ g _ _ => .get_bind fun core h => ?_) fun _ => .pure _
    split
    · exact .throw _
    · rename_i heq
      exact .bind (.set (hevaluate core id g _ _ h heq)) fun _ => .pure _
  | destroy => exact .bind (hdrop (fun _ => .destroyed) _) fun _ => .pure _

/-- What depends on the abort request and the record of past runs alone is kept by every operation
that requests no abort. -/
theorem Operation.keeps_of_aside {I : Core F V E T → Prop}
    (hI : ∀ core options stage scheduler syncs, I core →
      I { core with options, stage, scheduler, syncs })
    (habort : ∀ core, I core → I core.requestAbort) (op : Operation F V E T) : Keeps I op.call :=
  op.keeps_of_syncs (fun core _ _ _ => hI core _ _ _ core.syncs) habort
    (fun core _ _ => hI core core.options core.stage core.scheduler _)
    (fun core _ _ _ _ h _ => hI core core.options core.stage core.scheduler _ h)

/-! ## Runs -/

/-- A run starts on the bound graph, once every sync was evaluated, or crashes in one of them. -/
theorem launch_cases {core : Core F V E T} {m : Machine F V E T O} (h : core.launch = .ok m) :
    ∃ (g : Graph V E) (b : Board F V E T O), core.stage = .bound g ∧ (core.boardOn g).Quiet b ∧
      b.scheduler = core.scheduler ∧ b.syncs = (core.syncs.evaluateAll g).1 ∧
      ((core.syncs.evaluateAll g).2.broken = true ∧ m = .sequential b .crashed ∨
        (core.syncs.evaluateAll g).2.broken = false ∧ m = .start core.options b) := by
  unfold launch at h
  split at h
  · cases h
  · cases h
  · rename_i g hstage
    obtain ⟨⟨h1, h2, h3, h4⟩, h5⟩ := Board.quiet_noteRound
      { (core.boardOn g : Board F V E T O) with syncs := (core.syncs.evaluateAll g).1 }
      (core.syncs.evaluateAll g).2
    refine ⟨g, _, hstage, ⟨h1, h2, h3, h4⟩, h5, Board.noteRound_syncs _ _, ?_⟩
    dsimp only at h
    split at h
    · rename_i hbroken
      exact .inl ⟨hbroken, (Except.ok.inj h).symm⟩
    · rename_i hbroken
      exact .inr ⟨Bool.eq_false_iff.mpr hbroken, (Except.ok.inj h).symm⟩

/-- A run is refused for want of a graph, and for nothing else. -/
theorem launch_eq_error {core : Core F V E T} {e : EngineError} :
    core.launch (O := O) = .error e ↔
      core.stage = .destroyed ∧ e = .useAfterDestroy ∨
        core.stage = .ready ∧ e = .graphNotBound := by
  rw [launch]
  cases core.stage with
  | ready => simp [eq_comm]
  | destroyed => simp [eq_comm]
  | bound g =>
    dsimp only
    split
    · simp
    · simp

/-- A run of a sound core starts on an orderly machine that shows the bound graph and the pending
tasks, and on which nothing has happened yet. -/
theorem launch_eq_ok {core : Core F V E T} {m : Machine F V E T O} (h : core.launch = .ok m)
    (hs : core.Sound) {p : PendingList F} (hp : core.scheduler.Tracks p []) :
    ∃ g, core.heldGraph? = some g ∧ m.Orderly p ∧ m.hands = [] ∧
      (core.boardOn g).Quiet m.board ∧ m.board.scheduler = core.scheduler := by
  obtain ⟨g, b, hstage, hquiet, hscheduler, -, hm⟩ := launch_cases h
  have hheld : core.heldGraph? = some g := by rw [heldGraph?, hstage]
  have hunfailed : b.Unfailed := hquiet.unfailed fun e he => by cases he
  have htracks := hp
  have hclosed := hs.closed
  rw [← hscheduler] at htracks hclosed
  rcases hm with ⟨-, rfl⟩ | ⟨-, rfl⟩
  · exact ⟨g, hheld, ⟨htracks, hclosed, by simp, fun _ => hunfailed⟩, rfl, hquiet, hscheduler⟩
  · refine ⟨g, hheld, .start _ htracks hclosed hunfailed, Machine.Orderly.hands_start _ _, ?_, ?_⟩
    · rw [Machine.Orderly.board_start]
      exact ⟨hquiet.graph, hquiet.abort, hquiet.updates, hquiet.history⟩
    · rw [Machine.Orderly.board_start]
      exact hscheduler

/-- How a run concludes, by what has become of its machine. -/
inductive Concludes (core : Core F V E T) (m : Machine F V E T O) : Conclusion → Core F V E T → Prop
  | crashed (h : m.status = .crashed) : Concludes core m .crashed (core.adopt m.board)
  | converged (h : m.status = .ended (.ok ())) :
    Concludes core m (.converged (core.report m.board)) (core.afterRun m.board (.ok ()))
  | stopped {e : EngineError} (h : m.status = .ended (.error e)) :
    Concludes core m (.stopped e) (core.afterRun m.board (.error e))

theorem concludes_of_eq_some {core core' : Core F V E T} {m : Machine F V E T O}
    {conclusion : Conclusion} (h : core.conclude? m = some (conclusion, core')) :
    core.Concludes m conclusion core' := by
  unfold conclude? at h
  split at h
  · cases h
  · rename_i hstatus
    obtain ⟨rfl, rfl⟩ := Prod.mk.inj (Option.some.inj h)
    exact .crashed hstatus
  · rename_i hstatus
    obtain ⟨rfl, rfl⟩ := Prod.mk.inj (Option.some.inj h)
    exact .converged hstatus
  · rename_i hstatus
    obtain ⟨rfl, rfl⟩ := Prod.mk.inj (Option.some.inj h)
    exact .stopped hstatus

/-- A run is concluded only when it has ended. -/
theorem Concludes.not_running {core core' : Core F V E T} {m : Machine F V E T O}
    {conclusion : Conclusion} (h : core.Concludes m conclusion core') : m.status ≠ .running := by
  cases h with
  | crashed hs | converged hs | stopped hs =>
    rw [hs]
    nofun

/-- The syncs are left as they are when the run ends. -/
theorem Concludes.syncs_eq {core core' : Core F V E T} {m : Machine F V E T O}
    {conclusion : Conclusion} (h : core.Concludes m conclusion core') :
    core'.syncs = m.board.syncs := by
  cases h with
  | crashed _ => rfl
  | converged _ => rfl
  | stopped _ => rfl

/-- Whatever the run did, the core is sound after it. -/
theorem Run.sound {core : Core F V E T} (r : Run behaviour core) (hs : core.Sound) :
    r.next.Sound := by
  obtain ⟨first, last, conclusion, next, hlaunched, hreached, hconcluded⟩ := r
  obtain ⟨p, hp⟩ := hs.tracks
  obtain ⟨g, hheld, ho, hhands, hquiet, -⟩ := launch_eq_ok hlaunched hs hp
  obtain ⟨p', hmoves, ho'⟩ := hreached.moves ho
  have hgraph : ∀ g', some last.board.graph = some g' → g'.WellFormed := by
    rintro g' ⟨⟩
    obtain ⟨htopology, hsize⟩ := Moves.topology hmoves
    have hg : first.board.graph = g := hquiet.graph
    refine (hs.graph g hheld).of_topology (htopology.trans ?_) (hsize.trans ?_)
    · exact congrArg Graph.toTopology hg
    · exact congrArg (fun g => g.values.size) hg
  have htracks : last.status ≠ .running → last.board.scheduler.Tracks p' [] := by
    intro hr
    have htracks := ho'.tracks
    rw [ho'.hands_eq_nil hr] at htracks
    exact htracks
  cases concludes_of_eq_some hconcluded with
  | crashed hstatus =>
    exact ⟨⟨p', htracks (by simp [hstatus])⟩, ho'.open_of_crashed hstatus, hgraph⟩
  | converged hstatus =>
    exact ⟨⟨p', htracks (by simp [hstatus])⟩, (ho'.converged hstatus).2.1, hgraph⟩
  | stopped hstatus => exact ⟨⟨_, (htracks (by simp [hstatus])).reset⟩, rfl, hgraph⟩

theorem Reachable.sound {core : Core F V E T} (h : Reachable behaviour core) : core.Sound := by
  induction h with
  | @new options core h =>
    obtain ⟨-, rfl⟩ := withOptions_eq_ok h
    exact ⟨⟨_, .empty _ _⟩, rfl, fun g hg => by cases hg⟩
  | operation _ op ih => exact op.keeps_sound _ ih
  | run _ r ih => exact r.sound ih

end Core

end VertexEngine
