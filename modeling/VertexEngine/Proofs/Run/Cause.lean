import VertexEngine.Proofs.Core.Reachable
import VertexEngine.Proofs.Run.Evaluation
import VertexEngine.Proofs.Run.Valid

/-!
# Why a run ends with an error

An error of a run always has a cause, and a cause stays: a task has failed, an abort was requested,
a worker could not be started, or the evaluation of a sync panicked.

* `Board.Cause` lists the causes, and `Cause.endsRun` says which errors they come with.
* `Machine.Explained` says that a machine has a cause for every error that it knows of, and that
  only an evaluation can make it crash.
* `Machine.Reaches.explained` is the result about whole runs.
-/

namespace VertexEngine

variable {F V E T O : Type} {behaviour : Behaviour F V E T O} {total : Prop}

/-! ## Causes -/

/-- Why an error may end a run.  Evaluations are no cause when they are `total`. -/
inductive Board.Cause (total : Prop) (b : Board F V E T O) : EngineError → Prop
  | task {e : EngineError} (he : e.EndsRun) (h : ¬b.Unfailed) : Cause total b e
  | abort (h : b.abort = true) : Cause total b .aborted
  | spawn (reason : String) : Cause total b (.workerSpawn reason)
  | sync (h : ¬total) : Cause total b .workerPanicked

namespace Board

variable {b b' : Board F V E T O} {e : EngineError}

theorem not_unfailed_note {event : Event F O} (h : event.isFailure = true) :
    ¬(b.note event).Unfailed := by
  intro hun
  rw [hun event List.mem_cons_self] at h
  cases h

theorem Cause.mono (h : b.Cause total e) (hun : b'.Unfailed → b.Unfailed)
    (ha : b.abort = true → b'.abort = true) : b'.Cause total e := by
  cases h with
  | task he h => exact .task he fun hb => h (hun hb)
  | abort h => exact .abort (ha h)
  | spawn reason => exact .spawn reason
  | sync h => exact .sync h

theorem Cause.endsRun (h : b.Cause total e) : e.EndsRun := by
  cases h with
  | task he _ => exact he
  | _ => trivial

/-- What happens later in a run takes no cause away. -/
theorem Cause.moves {s s' : Scene F V E T O} (h : s.board.Cause total e)
    (hm : Moves behaviour s s') : s'.board.Cause total e := by
  refine h.mono (fun hun => ?_) (Moves.abort hm)
  induction hm with
  | refl => exact hun
  | tail _ hstep ih => exact ih (hstep.unfailed_of hun)

end Board

/-! ## The sequential loop -/

theorem Board.perform_syncs (b : Board F V E T O) (x : Execution F) (action : Action F V O) :
    (b.perform x action).2.2.syncs = b.syncs := by
  have heffect := b.perform_effect x action
  generalize (b.perform x action).2.1 = x', (b.perform x action).2.2 = b' at heffect
  cases heffect <;> rfl

theorem Board.Completes.syncs_eq {b b' : Board F V E T O} {x : Execution F}
    {program : Program F V T O Unit} {outcome : Outcome}
    (h : b.Completes x program outcome b') : b'.syncs = b.syncs := by
  induction h with
  | abort _ ih => exact ih
  | ask _ ih => exact ih.trans (Board.perform_syncs ..)
  | _ => rfl

theorem Board.Executes.syncs_eq {b b' : Board F V E T O} {t : Task F} {outcome : Outcome}
    (h : b.Executes behaviour t outcome b') : b'.syncs = b.syncs := by
  cases h with
  | missing _ => rfl
  | ran _ hc => exact hc.syncs_eq

namespace Sequential

/-- The loop has a cause for the error that it ended with. -/
structure Explained (total : Prop) (b : Board F V E T O) (status : RunStatus) : Prop where
  syncs : total → b.syncs.Total
  ended : ∀ e, status = .ended (.error e) → b.Cause total e
  crashed : status = .crashed → ¬total

theorem explained_settle {b : Board F V E T O} (hs : total → b.syncs.Total) (v : VertexId)
    {outcome : Outcome} (ho : ∀ e, outcome = .failed e → e.IsUpdate) :
    Explained total (settle b v outcome).1 (settle b v outcome).2 := by
  cases outcome with
  | failed e =>
    refine ⟨hs, fun e' he => ?_, nofun⟩
    cases he
    exact .task (ho e rfl).endsRun (Board.not_unfailed_note rfl)
  | panicked =>
    refine ⟨hs, fun e' he => ?_, nofun⟩
    cases he
    exact .task trivial (Board.not_unfailed_note rfl)
  | finished =>
    rw [Board.settle_finished]
    have hdue : total → ∀ sync ∈ b.increment.syncs.due b.increment.updates, sync.spec.Total :=
      fun ht sync hsync => hs ht sync (List.mem_of_mem_filter hsync)
    have hincrement : total → b.increment.syncs.Total := hs
    have hevaluate := fun ht => Board.evaluateDue_of_total (hincrement ht) (hdue ht)
    refine ⟨fun ht => (hevaluate ht).1, fun e he => ?_, fun hc ht => ?_⟩
    · simp only [Board.evaluateDue] at he
      split at he <;> cases he
    · cases hc.symm.trans (hevaluate ht).2

theorem Turn.explained {b : Board F V E T O} {r : Board F V E T O × RunStatus}
    (h : Turn behaviour b r) {p : PendingList F} (ho : Orderly b .running p)
    (hv : ∀ t ∈ p.tasks, b.graph.contains t.vertex = true) (hs : total → b.syncs.Total) :
    Explained total r.1 r.2 := by
  cases h with
  | aborted ha =>
    refine ⟨hs, fun e he => ?_, nofun⟩
    cases he
    exact .abort ha
  | drained _ _ => exact ⟨hs, nofun, nofun⟩
  | @ran scheduler t outcome b' _ hn hx =>
    obtain ⟨hfound, -, -⟩ := ho.tracks.next
    rw [hn] at hfound
    have hpresent : b.graph.contains t.vertex = true :=
      hv t (List.mem_of_find?_eq_some hfound.symm)
    refine explained_settle (fun ht => hx.syncs_eq ▸ hs ht) t.vertex fun e he => ?_
    subst he
    exact hx.failed_isUpdate hpresent

end Sequential

/-! ## The pool -/

namespace Threaded

/-- A worker that records an error has a cause for it. -/
theorem Phase.Step.cause {index : Nat} {b b' : Board F V E T O} {old new : Phase F V T O}
    {e : EngineError} (h : old.Step behaviour index b new b' (some e))
    (hv : ∀ hand ∈ old.hands, hand.FailsByProgram) : b'.Cause total e := by
  cases h with
  | noteFailed v e =>
    have hupdate : e.IsUpdate := hv _ List.mem_cons_self
    exact .task hupdate.endsRun (Board.not_unfailed_note rfl)
  | notePanicked v => exact .task trivial (Board.not_unfailed_note rfl)

namespace Pool

/-- The pool has a cause for every error that it knows of, and a worker that crashed did so in
an evaluation. -/
structure Explained (total : Prop) (p : Pool F V E T O) : Prop where
  syncs : total → p.board.syncs.Total
  due : total → ∀ w ∈ p.workers, ∀ sync ∈ w.due, sync.spec.Total
  crashed : .left true ∈ p.workers → ¬total
  recorded : ∀ e, p.firstError = some e → p.board.Cause total e
  ended : ∀ e, p.status = .ended (.error e) → p.board.Cause total e

variable {p p' : Pool F V E T O}

theorem Explained.start {b : Board F V E T O} (hs : total → b.syncs.Total) (n : Nat) :
    (Pool.start b n).Explained total := by
  have hall : ∀ w ∈ (Pool.start b n).workers, w = .starting :=
    fun w hw => List.eq_of_mem_replicate hw
  refine ⟨hs, fun _ w hw => ?_, fun hc => ?_, nofun, nofun⟩
  · rw [hall w hw]
    exact nofun
  · cases hall _ hc

/-- The error that is recorded first stays. -/
theorem cause_record {slot : Option EngineError} {e e' : EngineError} {b : Board F V E T O}
    (hs : ∀ e, slot = some e → b.Cause total e) (he : b.Cause total e)
    (h : record slot e = some e') : b.Cause total e' := by
  cases slot with
  | none => cases h; exact he
  | some first => cases h; exact hs _ rfl

theorem Explained.stepped (h : p.Explained total) (hr : p.status = .running) {index : Nat}
    {old new : Phase F V T O} {b : Board F V E T O} {error : Option EngineError}
    (hw : p.workers[index]? = some old) (hs : old.Step behaviour index p.board new b error)
    (hv : ∀ hand ∈ p.hands, hand.FailsByProgram)
    (hkeep : ∀ e, p.board.Cause total e → b.Cause total e) :
    (p.stepped index new b error).Explained total := by
  have hold : old ∈ p.workers := List.mem_of_getElem? hw
  have hhands : ∀ hand ∈ old.hands, hand.FailsByProgram :=
    fun hand hmem => hv hand (List.mem_flatMap_of_mem hold hmem)
  have hmem : ∀ w ∈ (p.stepped index new b error).workers, w = new ∨ w ∈ p.workers :=
    fun w hw => (List.mem_or_eq_of_mem_set hw).symm
  refine ⟨fun ht => hs.frame.2 (h.syncs ht), fun ht w hw => ?_, fun hc ht => ?_, fun e he => ?_,
    fun e he => ?_⟩
  · rcases hmem w hw with rfl | hw
    · exact hs.due_total (h.due ht old hold) (h.syncs ht)
    · exact h.due ht w hw
  · rcases hmem _ hc with hnew | hc
    · exact hs.ne_crashed (h.due ht old hold) hnew.symm
    · exact h.crashed hc ht
  · have hrecorded : ∀ e, p.firstError = some e → b.Cause total e :=
      fun e he => hkeep e (h.recorded e he)
    cases error with
    | none => exact hrecorded e (by simpa [Pool.stepped] using he)
    | some error => exact cause_record hrecorded (hs.cause hhands) he
  · cases hr.symm.trans he

theorem Explained.finish (h : p.Explained total) :
    p.finish.Explained total := by
  unfold Pool.finish
  split
  · rename_i e he
    refine ⟨h.syncs, h.due, h.crashed, h.recorded, fun e' he' => ?_⟩
    cases he'
    exact h.recorded e he
  · rename_i hnone
    split
    · rename_i ha
      refine ⟨h.syncs, h.due, h.crashed, h.recorded, fun e' he' => ?_⟩
      cases he'
      exact .abort ha
    · refine ⟨h.syncs, h.due, h.crashed, fun e he => ?_, nofun⟩
      cases hnone.symm.trans he

theorem Explained.stepPool (h : p.Explained total) (hr : p.status = .running)
    (hs : p.stepPool = some p') : p'.Explained total := by
  unfold Pool.stepPool at hs
  split at hs
  · obtain rfl := Option.some.inj hs
    exact h.finish
  · obtain rfl := Option.some.inj hs
    exact ⟨h.syncs, h.due, h.crashed, h.recorded, h.ended⟩
  · rename_i hw
    obtain rfl := Option.some.inj hs
    have hsame : ∀ e, p.board.Cause total e →
        ({ p.board with scheduler := p.board.scheduler.close } : Board F V E T O).Cause total e :=
      fun e he => he.mono id id
    refine ⟨h.syncs, h.due, h.crashed, fun e he => ?_, fun e he => ?_⟩
    · exact cause_record (fun e he => hsame e (h.recorded e he))
        (.sync (h.crashed (List.mem_of_getElem? hw))) he
    · cases hr.symm.trans he
  · cases hs

theorem Explained.spawnFailed (h : p.Explained total) (hr : p.status = .running) (index : Nat)
    (reason : String) : (p.spawnFailed index reason).Explained total := by
  have hnote : ∀ e, p.board.Cause total e → (p.spawnFailed index reason).board.Cause total e :=
    fun e he => he.mono (fun hun event hevent => hun event (List.mem_cons_of_mem _ hevent)) id
  have hmem : ∀ w ∈ (p.spawnFailed index reason).workers, w ∈ p.workers ∨ w = .missing := by
    intro w hw
    rcases List.mem_append.mp hw with hw | hw
    · exact .inl (List.mem_of_mem_take hw)
    · exact .inr (List.mem_singleton.mp hw)
  refine ⟨h.syncs, fun ht w hw => ?_, fun hc => ?_, fun e he => ?_, fun e he => ?_⟩
  · rcases hmem w hw with hw | rfl
    · exact h.due ht w hw
    · exact nofun
  · exact h.crashed ((hmem _ hc).resolve_right nofun)
  · exact cause_record (fun e he => hnote e (h.recorded e he)) (.spawn reason) he
  · cases hr.symm.trans he

end Pool

end Threaded

/-! ## Both engines -/

namespace Machine

/-- A machine has a cause for every error that it knows of, and only an evaluation can make it
crash. -/
def Explained (total : Prop) : Machine F V E T O → Prop
  | sequential b status => Sequential.Explained total b status
  | threaded pool => pool.Explained total

variable {m m' : Machine F V E T O} {p : PendingList F}

theorem Step.explained (h : m.Step behaviour m') (ho : m.Orderly p) (hv : (m.scene p).Valid)
    (hx : m.Explained total) : m'.Explained total := by
  have hkeep : ∀ e, m.board.Cause total e → m'.board.Cause total e := by
    obtain ⟨p', hmoves, -⟩ := h.moves ho
    intro e he
    have hbefore : (m.scene p).board.Cause total e := he
    exact hbefore.moves hmoves
  cases h with
  | turn ht => exact ht.explained ho hv.pending (Sequential.Explained.syncs hx)
  | abort =>
    cases m with
    | sequential b status =>
      have hx : Sequential.Explained total b status := hx
      exact ⟨hx.syncs, fun e he => hkeep e (hx.ended e he), hx.crashed⟩
    | threaded pool =>
      have hx : pool.Explained total := hx
      exact ⟨hx.syncs, hx.due, hx.crashed, fun e he => hkeep e (hx.recorded e he),
        fun e he => hkeep e (hx.ended e he)⟩
  | spawnFailed reason hr _ _ _ => exact Threaded.Pool.Explained.spawnFailed hx hr _ reason
  | @actor pool pool' a ha =>
    unfold Threaded.Pool.step at ha
    split at ha
    · rename_i hr
      cases a with
      | worker index =>
        obtain ⟨old, new, b, error, hw, hs, rfl⟩ := Threaded.Pool.stepWorker_eq_some ha
        exact Threaded.Pool.Explained.stepped hx hr hw hs hv.hands hkeep
      | pool => exact Threaded.Pool.Explained.stepPool hx hr ha
    · cases ha

theorem Reaches.explained (h : m.Reaches behaviour m') (ho : m.Orderly p)
    (hv : (m.scene p).Valid) (hx : m.Explained total) : m'.Explained total := by
  induction h with
  | refl => exact hx
  | tail hreach hstep ih =>
    obtain ⟨p', hmoves, ho'⟩ := Reaches.moves hreach ho
    exact hstep.explained ho' (Moves.valid hmoves hv) ih

/-- A run that has stopped without converging has stopped for a cause. -/
theorem Explained.cause (h : m.Explained total) (ho : m.Orderly p) :
    (∀ e, m.status = .ended (.error e) → m.board.Cause total e) ∧
      (m.status = .crashed → ¬total) := by
  cases m with
  | sequential b status =>
    have h : Sequential.Explained total b status := h
    exact ⟨h.ended, h.crashed⟩
  | threaded pool =>
    have h : pool.Explained total := h
    exact ⟨h.ended, fun hc => absurd hc (Threaded.Pool.Orderly.caught ho)⟩

theorem explained_start (options : EngineOptions) {b : Board F V E T O}
    (hs : total → b.syncs.Total) : (start options b).Explained total := by
  unfold Machine.start
  split
  · exact ⟨hs, nofun, nofun⟩
  · exact Threaded.Pool.Explained.start (b := b.note (.loopStarted options.engine)) hs _

end Machine

/-- A core that holds a graph can be started, if no evaluation of a sync panics. -/
theorem Core.launch_of_total {core : Core F V E T} {g : Graph V E} (hg : core.stage = .bound g)
    (hs : core.syncs.Total) :
    ∃ b : Board F V E T O, b.graph = g ∧ b.syncs.Total ∧
      ∀ options, { core with options }.launch = .ok (.start options b) := by
  obtain ⟨htotal, hbroken⟩ := SyncSet.evaluate_of_total g hs hs
  obtain ⟨hquiet, -⟩ := Board.quiet_noteRound
    { (core.boardOn g : Board F V E T O) with syncs := (core.syncs.evaluateAll g).1 }
    (core.syncs.evaluateAll g).2
  refine ⟨_, hquiet.graph, ?_, fun options => ?_⟩
  · rw [Board.noteRound_syncs]
    exact htotal
  · obtain ⟨coreOptions, stage, scheduler⟩ := core
    obtain rfl : stage = .bound g := hg
    exact if_neg (ne_true_of_eq_false hbroken)

/-- A run that was only just started knows of no error, unless an evaluation has panicked
already. -/
theorem Core.launch_explained {core : Core F V E T} {m : Machine F V E T O}
    (h : core.launch = .ok m) : m.Explained core.syncs.Total := by
  obtain ⟨g, b, -, -, -, hsyncs, hm⟩ := launch_cases h
  have hevaluate : core.syncs.Total → (core.syncs.evaluateAll g).1.Total ∧
      (core.syncs.evaluateAll g).2.broken = false :=
    fun ht => SyncSet.evaluate_of_total g ht ht
  have htotal : core.syncs.Total → b.syncs.Total := fun ht => hsyncs ▸ (hevaluate ht).1
  rcases hm with ⟨hbroken, rfl⟩ | ⟨-, rfl⟩
  · exact ⟨htotal, nofun, fun _ ht => by cases hbroken.symm.trans (hevaluate ht).2⟩
  · exact Machine.explained_start core.options htotal

end VertexEngine
