import VertexEngine.Proofs.Run.Cause

/-!
# Who did what in a run

The history of a board tells what happened, but not who did it.  A chronicle of a run is its history
with the actor of every event, and so it tells for each evaluation of a sync after which update it
was made: after the one that the same worker counted last.

* `Machine.Chronicle` is a run with its chronicle, and `Reaches.exists_chronicle` says that every
  run has one.
* `Duty` is what a step of a worker means for its syncs: it counts an update, and some are due; it
  publishes one that was due; or it does nothing to them.
* `evaluations` reads the evaluations from a chronicle.
-/

namespace VertexEngine

variable {F V E T O : Type} {behaviour : Behaviour F V E T O}

/-! ## Counting and publishing -/

/-- The number that an update was counted with. -/
def Event.counted? : Event F O → Option Nat
  | .counted n => some n
  | _ => none

/-- The sync that was published. -/
def Event.published? : Event F O → Option SyncId
  | .published sync => some sync
  | _ => none

/-- Whether an event counts an update or publishes a sync. -/
def Event.isBooked : Event F O → Bool
  | .counted _ | .published _ => true
  | _ => false

/-- None of these events counts an update or publishes a sync. -/
def Unbooked (events : List (Event F O)) : Prop :=
  ∀ e ∈ events, e.isBooked = false

theorem unbooked_nil : Unbooked ([] : List (Event F O)) :=
  List.forall_mem_nil _

theorem unbooked_singleton {e : Event F O} (h : e.isBooked = false) : Unbooked [e] :=
  List.forall_mem_singleton.mpr h

theorem Unbooked.append {as bs : List (Event F O)} (ha : Unbooked as) (hb : Unbooked bs) :
    Unbooked (as ++ bs) :=
  List.forall_mem_append.mpr ⟨ha, hb⟩

namespace Board

/-- The later board is the earlier one after these events, none of which is booked. -/
structure Passed (b : Board F V E T O) (events : List (Event F O)) (b' : Board F V E T O) :
    Prop where
  history : b'.history = events ++ b.history
  unbooked : Unbooked events
  updates : b'.updates = b.updates
  syncs : b'.syncs = b.syncs

variable {b b' b'' : Board F V E T O} {events events' : List (Event F O)}

theorem Passed.same (hh : b'.history = b.history) (hu : b'.updates = b.updates)
    (hs : b'.syncs = b.syncs) : b.Passed [] b' :=
  ⟨hh, unbooked_nil, hu, hs⟩

theorem passed_note {e : Event F O} (h : e.isBooked = false) : b.Passed [e] (b.note e) :=
  ⟨rfl, unbooked_singleton h, rfl, rfl⟩

theorem Passed.trans (h : b.Passed events b') (h' : b'.Passed events' b'') :
    b.Passed (events' ++ events) b'' where
  history := by rw [h'.history, h.history, List.append_assoc]
  unbooked := h'.unbooked.append h.unbooked
  updates := h'.updates.trans h.updates
  syncs := h'.syncs.trans h.syncs

theorem exists_passed_perform (b : Board F V E T O) (x : Execution F) (action : Action F V O) :
    ∃ events, b.Passed events (b.perform x action).2.2 := by
  have heffect := b.perform_effect x action
  generalize (b.perform x action).2.1 = x', (b.perform x action).2.2 = b' at heffect
  cases heffect with
  | nothing h => exact ⟨_, .same rfl rfl rfl⟩
  | wrote value => exact ⟨_, .same rfl rfl rfl⟩
  | raised => exact ⟨_, .same rfl rfl rfl⟩
  | observed o => exact ⟨_, passed_note rfl⟩
  | @requested v update priority h =>
    let placed : Event F O := .placed v update priority (b.scheduler.schedule v update priority).2
    exact ⟨[placed, .requested x.task.vertex v], rfl,
      (unbooked_singleton rfl).append (unbooked_singleton rfl), rfl, rfl⟩

theorem Completes.exists_passed {x : Execution F} {program : Program F V T O Unit}
    {outcome : Outcome} (h : b.Completes x program outcome b') : ∃ events, b.Passed events b' := by
  induction h with
  | abort _ ih =>
    obtain ⟨events, hpassed⟩ := ih
    exact ⟨events, hpassed.history, hpassed.unbooked, hpassed.updates, hpassed.syncs⟩
  | done _ _ => exact ⟨_, passed_note rfl⟩
  | fail _ _ _ => exact ⟨_, .same rfl rfl rfl⟩
  | panic _ _ => exact ⟨_, .same rfl rfl rfl⟩
  | ask _ ih =>
    obtain ⟨events, hpassed⟩ := exists_passed_perform _ _ _
    obtain ⟨events', hpassed'⟩ := ih
    exact ⟨_, hpassed.trans hpassed'⟩

theorem Executes.exists_passed {t : Task F} {outcome : Outcome}
    (h : b.Executes behaviour t outcome b') : ∃ events, b.Passed events b' := by
  cases h with
  | missing _ => exact ⟨_, .same rfl rfl rfl⟩
  | ran _ hc => exact hc.exists_passed

theorem noteRound_history (b : Board F V E T O) (r : SyncRound) :
    (b.noteRound r).history = (r.published.map .published).reverse ++ b.history := by
  rw [noteRound_eq]

theorem evaluateDue_history (b : Board F V E T O) (due : List (Sync V T)) :
    (b.evaluateDue due).1.history =
      ((b.syncs.evaluate b.graph due).2.published.map .published).reverse ++ b.history :=
  noteRound_history _ _

theorem evaluateDue_syncs (b : Board F V E T O) (due : List (Sync V T)) :
    (b.evaluateDue due).1.syncs = (b.syncs.evaluate b.graph due).1 :=
  noteRound_syncs _ _

end Board

/-! ## Registered syncs -/

namespace SyncSpec

variable (s : SyncSpec V T) (updates : Nat)

theorem isDue_iff : s.isDue updates = true ↔ 0 < s.interval ∧ s.interval ∣ updates := by
  simp [isDue, Nat.dvd_iff_mod_eq_zero]

/-- Each time a sync is due, one more of its intervals is over. -/
theorem div_succ : (updates + 1) / s.interval =
    updates / s.interval + if s.isDue (updates + 1) = true then 1 else 0 := by
  by_cases hpos : 0 < s.interval
  · rw [Nat.succ_div]
    simp [isDue_iff, hpos]
  · simp [isDue_iff, show s.interval = 0 by omega]

end SyncSpec

namespace SyncSet

/-- What is registered, whatever was published. -/
def registered (s : SyncSet V T) : List (SyncId × SyncSpec V T) :=
  s.syncs.map fun sync => (sync.id, sync.spec)

theorem registered_publish (s : SyncSet V T) (id : SyncId) (value : T) :
    (s.publish id value).registered = s.registered := by
  rw [registered, publish, List.map_map]
  refine List.map_congr_left fun sync _ => ?_
  simp only [Function.comp]
  split <;> rfl

theorem map_fst_registered (s : SyncSet V T) :
    s.registered.map Prod.fst = s.syncs.map (·.id) := by
  rw [registered, List.map_map]
  rfl

theorem isSome_value? (s : SyncSet V T) (id : SyncId) :
    (s.value? id).isSome = true ↔ id ∈ s.registered.map Prod.fst := by
  rw [map_fst_registered, value?, Option.isSome_map, List.find?_isSome, List.mem_map]
  simp

/-- What is published is what the sync shows then, and no other one changes. -/
theorem value?_publish (s : SyncSet V T) (id id' : SyncId) (value : T) :
    (s.publish id value).value? id' =
      if id' = id then (s.value? id').map fun _ => value else s.value? id' := by
  have hid : ((fun sync : Sync V T => sync.id == id') ∘ fun sync : Sync V T =>
      if sync.id = id then { sync with value } else sync) = fun sync => sync.id == id' := by
    funext sync
    simp only [Function.comp_apply]
    split <;> rfl
  rw [value?, value?, publish, List.find?_map, hid, Option.map_map]
  cases hfind : s.syncs.find? (·.id == id') with
  | none => simp
  | some sync =>
    have hsync : sync.id = id' := by simpa using List.find?_some hfind
    subst hsync
    simp only [Option.map_some, Function.comp_apply]
    split <;> rfl

theorem registered_evaluate (g : Graph V E) (due : List (Sync V T)) (s : SyncSet V T) :
    (s.evaluate g due).1.registered = s.registered := by
  induction due generalizing s with
  | nil => rfl
  | cons sync rest ih =>
    rw [evaluate]
    split
    · rfl
    · exact (ih _).trans (s.registered_publish _ _)

/-- After an evaluation that does not break off, the syncs that were due show their values for this
graph, and the others what they showed before. -/
theorem value?_evaluate (g : Graph V E) {due : List (Sync V T)} (hn : (due.map (·.id)).Nodup)
    (s : SyncSet V T) (hb : (s.evaluate g due).2.broken = false) :
    (∀ id, id ∉ due.map (·.id) → (s.evaluate g due).1.value? id = s.value? id) ∧
      ∀ sync ∈ due, sync.id ∈ s.registered.map Prod.fst →
        ∃ value, sync.spec.evaluate g.vertices = some value ∧
          (s.evaluate g due).1.value? sync.id = some value := by
  induction due generalizing s with
  | nil => exact ⟨fun _ _ => rfl, nofun⟩
  | cons sync rest ih =>
    rw [List.map_cons, List.nodup_cons] at hn
    rw [evaluate] at hb ⊢
    cases hx : sync.spec.evaluate g.vertices with
    | none => simp [hx] at hb
    | some value =>
      rw [hx] at hb
      obtain ⟨hothers, hdue⟩ := ih hn.2 (s.publish sync.id value) hb
      rw [registered_publish] at hdue
      refine ⟨fun id hid => ?_, fun sync' hsync' hid => ?_⟩
      · rw [List.map_cons, List.mem_cons, not_or] at hid
        refine (hothers id hid.2).trans ?_
        rw [value?_publish, if_neg hid.1]
      · rcases List.mem_cons.mp hsync' with rfl | hrest
        · obtain ⟨old, hold⟩ := Option.isSome_iff_exists.mp ((s.isSome_value? sync'.id).mpr hid)
          refine ⟨value, hx, (hothers _ hn.1).trans ?_⟩
          rw [value?_publish, if_pos rfl, hold, Option.map_some]
        · exact hdue sync' hrest hid

/-- An evaluation that does not break off publishes each of the syncs, in their order. -/
theorem evaluate_published (g : Graph V E) {due : List (Sync V T)}
    (hd : ∀ sync ∈ due, sync.spec.Total) (s : SyncSet V T) :
    (s.evaluate g due).2.published = due.map (·.id) ∧
      (s.evaluate g due).1.registered = s.registered ∧
      (s.evaluate g due).1.performed = s.performed + due.length := by
  induction due generalizing s with
  | nil => exact ⟨rfl, rfl, rfl⟩
  | cons sync rest ih =>
    obtain ⟨x, hx⟩ := (hd sync List.mem_cons_self).evaluate g.vertices
    obtain ⟨hpublished, hregistered, hperformed⟩ :=
      ih (fun sync' h' => hd sync' (List.mem_cons_of_mem _ h')) (s.publish sync.id x)
    simp only [evaluate, hx]
    refine ⟨congrArg (sync.id :: ·) hpublished, hregistered.trans (s.registered_publish _ _), ?_⟩
    have hone : (s.publish sync.id x).performed = s.performed + 1 := rfl
    rw [hperformed, List.length_cons]
    omega

/-- The numbers of the syncs that are due depend only on what is registered. -/
theorem map_id_due (s : SyncSet V T) (n : Nat) :
    (s.due n).map (·.id) = (s.registered.filter (·.2.isDue n)).map Prod.fst := by
  rw [due, registered, List.filter_map, List.map_map]
  rfl

end SyncSet

/-! ## What a step does -/

/-- What a step of a worker means for the syncs that it still has to evaluate, from the board before
it, with the events that it adds, to the board after it. -/
inductive Duty (b : Board F V E T O) : List (Sync V T) → List (Event F O) → Board F V E T O →
    List (Sync V T) → Prop
  | other {events : List (Event F O)} {b' : Board F V E T O} (due : List (Sync V T))
    (h : b.Passed events b') : Duty b due events b' due
  | count : Duty b [] [.counted (b.updates + 1)] b.increment (b.syncs.due (b.updates + 1))
  | publish (sync : Sync V T) (value : T) (due : List (Sync V T)) :
    Duty b (sync :: due) [.published sync.id]
      ({ b with syncs := b.syncs.publish sync.id value }.note (.published sync.id)) due

theorem Duty.history {b b' : Board F V E T O} {due due' : List (Sync V T)}
    {events : List (Event F O)} (h : Duty b due events b' due') :
    b'.history = events ++ b.history := by
  cases h with
  | other _ h => exact h.history
  | count => rfl
  | publish sync value due => rfl

theorem Duty.registered {b b' : Board F V E T O} {due due' : List (Sync V T)}
    {events : List (Event F O)} (h : Duty b due events b' due') :
    b'.syncs.registered = b.syncs.registered := by
  cases h with
  | other _ h => rw [h.syncs]
  | count => rfl
  | publish sync value due => exact b.syncs.registered_publish _ _

/-- A step of a worker, unless the worker panics in an evaluation. -/
theorem Threaded.Phase.Step.duty {index : Nat} {b b' : Board F V E T O}
    {old new : Threaded.Phase F V T O} {e : Option EngineError}
    (h : old.Step behaviour index b new b' e) :
    (∃ events, Duty b old.due events b' new.due) ∨ new = .left true ∧ b' = b := by
  have hsame : ∀ {due : List (Sync V T)} {c : Board F V E T O}, c.history = b.history →
      c.updates = b.updates → c.syncs = b.syncs → ∃ events, Duty b due events c due :=
    fun hh hu hs => ⟨[], .other _ (.same hh hu hs)⟩
  have hnote : ∀ {due : List (Sync V T)} {c : Board F V E T O} {e : Event F O},
      e.isBooked = false → c.history = b.history → c.updates = b.updates → c.syncs = b.syncs →
      ∃ events, Duty b due events (c.note e) due :=
    fun he hh hu hs => ⟨_, .other _ ((Board.Passed.same hh hu hs).trans (Board.passed_note he))⟩
  cases h with
  | ask x action next =>
    obtain ⟨events, hpassed⟩ := b.exists_passed_perform x action
    exact .inl ⟨events, .other _ hpassed⟩
  | count v => exact .inl ⟨_, .count⟩
  | @publish sync total due value hv => exact .inl ⟨_, .publish sync value due⟩
  | crash | crashAtEnd => exact .inr ⟨rfl, rfl⟩
  | start | load _ _ | miss _ _ | finish x | noteFailed v e | notePanicked v | leave =>
    exact .inl (hnote rfl rfl rfl rfl)
  | _ => exact .inl (hsame rfl rfl rfl)

/-- A turn of the loop may end with an update that is counted, and with the evaluations that are due
then. -/
theorem Sequential.Turn.passed {b : Board F V E T O} {r : Board F V E T O × RunStatus}
    (h : Turn behaviour b r) : ∃ events b', b.Passed events b' ∧
      (r.1 = b' ∧ r.2 ≠ .crashed ∨
        r = b'.increment.evaluateDue (b'.syncs.due (b'.updates + 1))) := by
  cases h with
  | aborted _ => exact ⟨_, _, .same rfl rfl rfl, .inl ⟨rfl, by simp⟩⟩
  | drained _ _ =>
    refine ⟨[.loopDrained .sequential], _, ?_, .inl ⟨rfl, by simp⟩⟩
    exact ⟨rfl, unbooked_singleton rfl, rfl, rfl⟩
  | @ran scheduler t outcome b' _ _ hx =>
    have hdispatched : b.Passed [.dispatched t] ({ b with scheduler }.note (.dispatched t)) :=
      ⟨rfl, unbooked_singleton rfl, rfl, rfl⟩
    obtain ⟨events, hpassed⟩ := hx.exists_passed
    have hran := hdispatched.trans hpassed
    cases outcome with
    | finished => exact ⟨_, b', hran, .inr rfl⟩
    | failed e =>
      exact ⟨_, b'.note (.failed t.vertex e), hran.trans (Board.passed_note rfl),
        .inl ⟨rfl, by simp [settle]⟩⟩
    | panicked =>
      exact ⟨_, b'.note (.panicked t.vertex), hran.trans (Board.passed_note rfl),
        .inl ⟨rfl, by simp [settle]⟩⟩

/-- The pool itself neither counts nor publishes. -/
theorem Threaded.Pool.stepPool_passed {p p' : Threaded.Pool F V E T O} (h : p.stepPool = some p') :
    p'.workers = p.workers ∧ ∃ events, p.board.Passed events p'.board := by
  unfold stepPool at h
  split at h
  · obtain rfl := Option.some.inj h
    unfold finish
    split
    · exact ⟨rfl, _, .same rfl rfl rfl⟩
    · split
      · exact ⟨rfl, _, .same rfl rfl rfl⟩
      · exact ⟨rfl, _, Board.passed_note rfl⟩
  · obtain rfl := Option.some.inj h
    exact ⟨rfl, _, .same rfl rfl rfl⟩
  · obtain rfl := Option.some.inj h
    exact ⟨rfl, _, .same rfl rfl rfl⟩
  · cases h

/-! ## Chronicles -/

namespace Machine

/-- One step and who takes it; nobody if it happens to the run. -/
inductive StepBy (behaviour : Behaviour F V E T O) :
    Option Threaded.Actor → Machine F V E T O → Machine F V E T O → Prop
  | turn {b : Board F V E T O} {r : Board F V E T O × RunStatus}
    (h : Sequential.Turn behaviour b r) :
    StepBy behaviour (some (.worker 0)) (.sequential b .running) (.sequential r.1 r.2)
  | actor {p p' : Threaded.Pool F V E T O} {a : Threaded.Actor} (h : p.step behaviour a = some p') :
    StepBy behaviour (some a) (.threaded p) (.threaded p')
  | abort (m : Machine F V E T O) : StepBy behaviour none m m.requestAbort
  | spawnFailed {p : Threaded.Pool F V E T O} {index : Nat} (reason : String)
    (hr : p.status = .running) (hj : p.joined = 0) (hi : index < p.workers.length)
    (hs : ∀ w ∈ p.workers.drop index, w = .starting) :
    StepBy behaviour none (.threaded p) (.threaded (p.spawnFailed index reason))

/-- A run with its history since `first`, the latest event first, and the actor of every event. -/
inductive Chronicle (behaviour : Behaviour F V E T O) (first : Machine F V E T O) :
    List (Option Threaded.Actor × Event F O) → Machine F V E T O → Prop
  | start : Chronicle behaviour first [] first
  | step {log : List (Option Threaded.Actor × Event F O)} {m m' : Machine F V E T O}
    {who : Option Threaded.Actor} {events : List (Event F O)}
    (h : Chronicle behaviour first log m) (hs : StepBy behaviour who m m')
    (he : m'.board.history = events ++ m.board.history) :
    Chronicle behaviour first (events.map (who, ·) ++ log) m'

variable {m m' : Machine F V E T O} {who : Option Threaded.Actor}

theorem StepBy.step (h : StepBy behaviour who m m') : m.Step behaviour m' := by
  cases h with
  | turn h => exact .turn h
  | actor h => exact .actor h
  | abort => exact .abort m
  | spawnFailed reason hr hj hi hs => exact .spawnFailed reason hr hj hi hs

theorem Step.exists_by (h : m.Step behaviour m') : ∃ who, StepBy behaviour who m m' := by
  cases h with
  | turn h => exact ⟨_, .turn h⟩
  | actor h => exact ⟨_, .actor h⟩
  | abort => exact ⟨_, .abort m⟩
  | spawnFailed reason hr hj hi hs => exact ⟨_, .spawnFailed reason hr hj hi hs⟩

/-- What happened is not forgotten. -/
theorem Step.exists_events (h : m.Step behaviour m') :
    ∃ events, m'.board.history = events ++ m.board.history := by
  cases h with
  | @turn b r h =>
    obtain ⟨events, b', hpassed, ⟨hr, -⟩ | hr⟩ := h.passed
    · exact ⟨events, hr ▸ hpassed.history⟩
    · have hhistory := Board.evaluateDue_history b'.increment (b'.syncs.due (b'.updates + 1))
      have hcounted : b'.increment.history = .counted (b'.updates + 1) :: b'.history := rfl
      rw [hcounted, hpassed.history, ← List.cons_append, ← List.append_assoc] at hhistory
      exact ⟨_, hr ▸ hhistory⟩
  | abort =>
    cases m with
    | sequential b status => exact ⟨[], rfl⟩
    | threaded p => exact ⟨[], rfl⟩
  | spawnFailed reason hr hj hi hs => exact ⟨[_], rfl⟩
  | @actor p p' a h =>
    unfold Threaded.Pool.step at h
    split at h
    · cases a with
      | worker index =>
        obtain ⟨old, new, b, e, -, hs, rfl⟩ := Threaded.Pool.stepWorker_eq_some h
        rcases hs.duty with ⟨events, hduty⟩ | ⟨-, hb⟩
        · exact ⟨events, hduty.history⟩
        · exact ⟨[], congrArg Board.history hb⟩
      | pool =>
        obtain ⟨-, events, hpassed⟩ := Threaded.Pool.stepPool_passed h
        exact ⟨events, hpassed.history⟩
    · cases h

/-- A run registers no syncs. -/
theorem Step.registered (h : m.Step behaviour m') :
    m'.board.syncs.registered = m.board.syncs.registered := by
  cases h with
  | @turn b r h =>
    obtain ⟨events, b', hpassed, ⟨hr, -⟩ | hr⟩ := h.passed
    · exact congrArg SyncSet.registered (hr ▸ hpassed.syncs)
    · subst hr
      show (b'.increment.evaluateDue _).1.syncs.registered = _
      rw [Board.evaluateDue_syncs, SyncSet.registered_evaluate]
      exact congrArg SyncSet.registered hpassed.syncs
  | abort =>
    cases m with
    | sequential b status => rfl
    | threaded p => rfl
  | spawnFailed reason hr hj hi hs => rfl
  | @actor p p' a h =>
    unfold Threaded.Pool.step at h
    split at h
    · cases a with
      | worker index =>
        obtain ⟨old, new, b, e, -, hs, rfl⟩ := Threaded.Pool.stepWorker_eq_some h
        rcases hs.duty with ⟨events, hduty⟩ | ⟨-, hb⟩
        · exact hduty.registered
        · exact congrArg (fun b => b.syncs.registered) hb
      | pool =>
        obtain ⟨-, events, hpassed⟩ := Threaded.Pool.stepPool_passed h
        exact congrArg SyncSet.registered hpassed.syncs
    · cases h

theorem Reaches.registered (h : m.Reaches behaviour m') :
    m'.board.syncs.registered = m.board.syncs.registered := by
  induction h with
  | refl => rfl
  | tail _ hs ih => exact hs.registered.trans ih

theorem Chronicle.reaches {log : List (Option Threaded.Actor × Event F O)}
    (h : m.Chronicle behaviour log m') : m.Reaches behaviour m' := by
  induction h with
  | start => exact .refl
  | step _ hs _ ih => exact ih.tail hs.step

/-- Every run has a chronicle. -/
theorem Reaches.exists_chronicle (h : m.Reaches behaviour m') :
    ∃ log, m.Chronicle behaviour log m' := by
  induction h with
  | refl => exact ⟨[], .start⟩
  | tail _ hs ih =>
    obtain ⟨log, hlog⟩ := ih
    obtain ⟨who, hby⟩ := hs.exists_by
    obtain ⟨events, he⟩ := hs.exists_events
    exact ⟨_, hlog.step hby he⟩

end Machine

/-! ## Reading a chronicle -/

/-- The number that an actor counted last; zero if it has counted nothing. -/
def countedLast (who : Option Threaded.Actor) :
    List (Option Threaded.Actor × Event F O) → Nat
  | [] => 0
  | (who', e) :: log =>
    match e.counted? with
    | some n => if who' = who then n else countedLast who log
    | none => countedLast who log

/-- The evaluations of syncs, the latest first, each with the number of the update that it follows:
the one that the same actor counted last. -/
def evaluations : List (Option Threaded.Actor × Event F O) → List (Nat × SyncId)
  | [] => []
  | (who, e) :: log =>
    match e.published? with
    | some sync => (countedLast who log, sync) :: evaluations log
    | none => evaluations log

/-- The numbers that were counted, the latest first. -/
def counts (log : List (Option Threaded.Actor × Event F O)) : List Nat :=
  log.filterMap (·.2.counted?)

section

variable (who who' : Option Threaded.Actor) (log : List (Option Threaded.Actor × Event F O))

theorem Event.counted?_eq_none {e : Event F O} (h : e.isBooked = false) : e.counted? = none := by
  cases e <;> first | rfl | cases h

theorem Event.published?_eq_none {e : Event F O} (h : e.isBooked = false) :
    e.published? = none := by
  cases e <;> first | rfl | cases h

/-- Events that are not booked say nothing about counts and evaluations. -/
theorem Unbooked.reading {events : List (Event F O)} (h : Unbooked events) :
    (∀ who', countedLast who' (events.map (who, ·) ++ log) = countedLast who' log) ∧
      evaluations (events.map (who, ·) ++ log) = evaluations log ∧
      counts (events.map (who, ·) ++ log) = counts log := by
  induction events with
  | nil => exact ⟨fun _ => rfl, rfl, rfl⟩
  | cons e events ih =>
    obtain ⟨he, hrest⟩ := List.forall_mem_cons.mp h
    obtain ⟨hlast, hevaluations, hcounts⟩ := ih hrest
    have hcounted := Event.counted?_eq_none he
    have hpublished := Event.published?_eq_none he
    refine ⟨fun who' => ?_, ?_, ?_⟩
    · rw [List.map_cons, List.cons_append, countedLast, hcounted]
      exact hlast who'
    · rw [List.map_cons, List.cons_append, evaluations, hpublished]
      exact hevaluations
    · rw [List.map_cons, List.cons_append, counts, List.filterMap_cons, hcounted]
      exact hcounts

end

end VertexEngine
