import VertexEngine.Proofs.Run.Evaluation

/-!
# Every step is made of moves

A machine shows a scene: its board, the tasks in the hands of its workers, and the pending tasks.
Between two turns of the sequential loop nobody holds a task.  Every step of a machine is a sequence
of moves of what it shows, so what the moves keep is true of both engines.

Along the way each engine keeps what it needs in order to stop at the right time.  For the pool this
is `Pool.Orderly`: a scheduler is closed only after an error was recorded, and a worker leaves only
after an error, an abort, or when nothing is pending and nothing is held.
-/

namespace VertexEngine

variable {F V E T O : Type} {behaviour : Behaviour F V E T O}

/-! ## The sequential loop -/

/-- The queue is all that an action changes in the scheduler. -/
theorem Board.perform_scheduler (b : Board F V E T O) (x : Execution F) (action : Action F V O) :
    (b.perform x action).2.2.scheduler =
      { b.scheduler with queue := (b.perform x action).2.2.scheduler.queue } := by
  have heffect := b.perform_effect x action
  generalize (b.perform x action).2.1 = x', (b.perform x action).2.2 = b' at heffect
  cases heffect <;> rfl

namespace Board.Completes

variable {b b' : Board F V E T O} {x : Execution F} {program : Program F V T O Unit}
  {outcome : Outcome}

theorem moves (h : b.Completes x program outcome b') {p : PendingList F}
    (hq : Represents b.scheduler.queue p) :
    ∃ p', Moves behaviour ⟨b, p, [.running x program]⟩
      ⟨b', p', [.returned x.task.vertex outcome]⟩ := by
  induction h generalizing p with
  | @abort b x program outcome b' _ ih =>
    obtain ⟨p', hmoves⟩ := ih hq
    have hquiet : b.Quiet { b with abort := true } := ⟨rfl, fun _ => rfl, rfl, rfl⟩
    exact ⟨p', .head (.quiet (s := ⟨b, p, [.running x program]⟩) hquiet hq) hmoves⟩
  | done b x => exact ⟨p, .single (.finish b p [] [] x)⟩
  | fail b x e => exact ⟨p, .single (.fail b p [] [] x e)⟩
  | panic b x => exact ⟨p, .single (.panic b p [] [] x)⟩
  | @ask b x action next outcome b' _ ih =>
    obtain ⟨p', hmoves⟩ := ih (represents_afterAction hq x action)
    rw [perform_task] at hmoves
    exact ⟨p', .head (.ask b p [] [] x action next) hmoves⟩

theorem scheduler_eq (h : b.Completes x program outcome b') :
    b'.scheduler = { b.scheduler with queue := b'.scheduler.queue } := by
  induction h with
  | abort _ ih => exact ih
  | done => rfl
  | fail => rfl
  | panic => rfl
  | @ask b x action next outcome b' _ ih =>
    rw [perform_scheduler] at ih
    exact ih

theorem unfailed (h : b.Completes x program outcome b') (hb : b.Unfailed) : b'.Unfailed := by
  induction h with
  | abort _ ih => exact ih hb
  | done => exact hb.note rfl
  | fail => exact hb
  | panic => exact hb
  | ask _ ih => exact ih (hb.perform _ _)

end Board.Completes

namespace Board.Executes

variable {b b' : Board F V E T O} {t : Task F} {outcome : Outcome}

theorem moves (h : b.Executes behaviour t outcome b') {p : PendingList F}
    (hq : Represents b.scheduler.queue p) :
    ∃ p', Moves behaviour ⟨b, p, [b.begin behaviour t]⟩ ⟨b', p', [.returned t.vertex outcome]⟩ := by
  cases h with
  | missing hl =>
    rw [Board.begin, hl]
    exact ⟨p, .refl⟩
  | ran hl hc =>
    rw [Board.begin, hl]
    exact hc.moves hq

theorem scheduler_eq (h : b.Executes behaviour t outcome b') :
    b'.scheduler = { b.scheduler with queue := b'.scheduler.queue } := by
  cases h with
  | missing _ => rfl
  | ran _ hc => exact hc.scheduler_eq

theorem unfailed (h : b.Executes behaviour t outcome b') (hb : b.Unfailed) : b'.Unfailed := by
  cases h with
  | missing _ => exact hb
  | ran _ hc => exact hc.unfailed hb

end Board.Executes

theorem Scheduler.Tracks.perm {s : Scheduler F} {p : PendingList F} {held held' : List VertexId}
    (h : s.Tracks p held) (hh : held.Perm held') : s.Tracks p held' :=
  ⟨h.queue, h.inFlight.trans hh, hh.nodup_iff.mp h.nodup⟩

theorem Scheduler.Tracks.next {s : Scheduler F} {p : PendingList F} (h : s.Tracks p []) :
    s.next.1 = firstFree [] p ∧ s.next.2.Tracks (withoutFirstFree [] p) [] ∧
      s.next.2.closed = s.closed := by
  obtain ⟨hfound, hrest⟩ := h.queue.popWhere fun _ => true
  exact ⟨hfound, ⟨hrest, h.inFlight, h.nodup⟩, rfl⟩

namespace Sequential

/-- What the loop keeps between two turns. -/
structure Orderly (b : Board F V E T O) (status : RunStatus) (p : PendingList F) : Prop where
  tracks : b.scheduler.Tracks p []
  closed : b.scheduler.closed = false
  /-- A run that ends well has done everything. -/
  converged : status = .ended (.ok ()) → p.tasks = []
  unfailed : (∀ e, status ≠ .ended (.error e)) → b.Unfailed

theorem Orderly.settle (behaviour : Behaviour F V E T O) {b : Board F V E T O} {p : PendingList F}
    (h : Orderly b .running p) (v : VertexId) (outcome : Outcome) :
    Moves behaviour ⟨b, p, [.completed v outcome]⟩ ⟨(settle b v outcome).1, p, []⟩ ∧
      Orderly (settle b v outcome).1 (settle b v outcome).2 p := by
  cases outcome with
  | failed e =>
    exact ⟨.single (.noteFailed b p [] [] v e),
      ⟨h.tracks, h.closed, by simp [Sequential.settle], fun hne => absurd rfl (hne e)⟩⟩
  | panicked =>
    exact ⟨.single (.notePanicked b p [] [] v),
      ⟨h.tracks, h.closed, by simp [Sequential.settle], fun hne => absurd rfl (hne _)⟩⟩
  | finished =>
    obtain ⟨hquiet, hscheduler⟩ :=
      b.increment.quiet_evaluateDue (b.increment.syncs.due b.increment.updates)
    rw [← Board.settle_finished b v] at hquiet hscheduler
    have hunfailed : b.increment.Unfailed := (h.unfailed (by simp)).note rfl
    refine ⟨.tail (.single (.count b p [] [] v)) (.quiet (s := ⟨b.increment, p, []⟩) hquiet ?_), ?_⟩
    · rw [hscheduler]
      exact h.tracks.queue
    · refine ⟨by rw [hscheduler]; exact h.tracks, by rw [hscheduler]; exact h.closed, ?_,
        fun _ => hquiet.unfailed hunfailed⟩
      simp only [Sequential.settle]
      split <;> simp

theorem Turn.moves {b : Board F V E T O} {r : Board F V E T O × RunStatus}
    (h : Turn behaviour b r) {p : PendingList F} (ho : Orderly b .running p) :
    ∃ p', Moves behaviour ⟨b, p, []⟩ ⟨r.1, p', []⟩ ∧ Orderly r.1 r.2 p' := by
  have hb : b.Unfailed := ho.unfailed (by simp)
  cases h with
  | aborted _ =>
    exact ⟨p, .refl, ho.tracks, ho.closed, by simp, fun hne => absurd rfl (hne _)⟩
  | @drained scheduler _ hn =>
    obtain ⟨hfound, hrest, hclosed⟩ := ho.tracks.next
    rw [hn] at hfound hrest hclosed
    have hempty : p.tasks = [] := by
      simpa [List.eq_nil_iff_forall_not_mem] using Scheduler.firstFree_eq_none.mp hfound.symm
    have hsame : Scheduler.withoutFirstFree [] p = p := by
      simp only [Scheduler.withoutFirstFree, hempty, List.eraseP_nil]
      rw [← hempty]
    rw [hsame] at hrest
    exact ⟨p, .single (.quiet (s := ⟨b, p, []⟩) ⟨rfl, id, rfl, rfl⟩ hrest.queue), hrest,
      hclosed.trans ho.closed, fun _ => hempty, fun _ => hb.note rfl⟩
  | @ran scheduler t outcome b' _ hn hx =>
    obtain ⟨hfound, hrest, hclosed⟩ := ho.tracks.next
    rw [hn] at hfound hrest hclosed
    obtain ⟨p', hmoves⟩ := hx.moves hrest.queue
    have hnone : heldBy ([] ++ [] : List (Hand F V T O)) = [] := rfl
    have htake : Moves behaviour ⟨b, p, []⟩ _ :=
      .single (.take hnone hfound.symm rfl hrest.queue)
    have hran := htake.trans hmoves
    have hb' := hx.scheduler_eq
    have ho' : Orderly b' .running p' := by
      refine ⟨⟨(Moves.sound hran ⟨ho.tracks.queue, .nil⟩).queue, ?_, .nil⟩, ?_, by simp,
        fun _ => ?_⟩
      · rw [hb']
        exact hrest.inFlight
      · rw [hb']
        exact hclosed.trans ho.closed
      · exact hx.unfailed (hb.note rfl)
    obtain ⟨hsettle, hsettled⟩ := ho'.settle behaviour t.vertex outcome
    exact ⟨p', (hran.tail (.release p' [] [] t.vertex outcome rfl)).trans hsettle, hsettled⟩

end Sequential

/-! ## What cannot be undone -/

/-- Nothing is pending and nothing is held. -/
def Scene.Settled (s : Scene F V E T O) : Prop :=
  s.pending.tasks = [] ∧ heldBy s.hands = []

/-- Once nothing is pending and nothing is held, no task is ever taken again. -/
theorem Move.settled {s s' : Scene F V E T O} (hm : Move behaviour s s') (h : s.Settled) :
    s'.Settled := by
  obtain ⟨hp, hh⟩ := h
  cases hm with
  | quiet _ _ => exact ⟨hp, hh⟩
  | take _ ht _ _ =>
    have hmem := List.mem_of_find?_eq_some ht
    rw [show _ = [] from hp] at hmem
    cases hmem
  | count _ _ _ _ _ => exact ⟨hp, by simpa using hh⟩
  | noteFailed _ _ _ _ _ _ => exact ⟨hp, by simpa using hh⟩
  | notePanicked _ _ _ _ _ => exact ⟨hp, by simpa using hh⟩
  | _ => simp at hh

theorem Moves.settled {s s' : Scene F V E T O} (hm : Moves behaviour s s') (h : s.Settled) :
    s'.Settled := by
  induction hm with
  | refl => exact h
  | tail _ hstep ih => exact hstep.settled ih

theorem Move.abort {s s' : Scene F V E T O} (hm : Move behaviour s s')
    (h : s.board.abort = true) : s'.board.abort = true := by
  cases hm with
  | quiet hb _ => exact hb.abort h
  | take _ _ hb _ => rw [hb]; exact h
  | ask b p before after x action next =>
    have heffect := b.perform_effect x action
    generalize (b.perform x action).2.1 = x', (b.perform x action).2.2 = b' at heffect
    cases heffect with
    | raised => rfl
    | _ => exact h
  | _ => exact h

theorem Moves.abort {s s' : Scene F V E T O} (hm : Moves behaviour s s')
    (h : s.board.abort = true) : s'.board.abort = true := by
  induction hm with
  | refl => exact h
  | tail _ hstep ih => exact hstep.abort ih

/-! ## The pool -/

namespace Threaded

/-- The task in the hands of a worker. -/
def Phase.hands : Phase F V T O → List (Hand F V T O)
  | running x rest => [.running x rest]
  | returned v outcome => [.returned v outcome]
  | completed v outcome => [.completed v outcome]
  | _ => []

/-- Whether an error is recorded for a worker, and the scheduler is still to be closed. -/
def Phase.isClosing : Phase F V T O → Bool
  | missing | closing => true
  | _ => false

/-- Whether a worker has been told to finish. -/
def Phase.isGone : Phase F V T O → Bool
  | leaving => true
  | left crashed => !crashed
  | _ => false

namespace Phase.Step

variable {index : Nat} {b b' : Board F V E T O} {old new : Phase F V T O} {e : Option EngineError}
  {as bs : List (Hand F V T O)} {p : PendingList F}

/-- A worker is given a task. -/
theorem take_moves (behaviour : Behaviour F V E T O) {scheduler : Scheduler F} {t : Task F}
    (ht : b.scheduler.Tracks p (heldBy (as ++ bs)))
    (hd : b.scheduler.dispatch b.abort = (.run t, scheduler))
    (hb : b' = { b with scheduler }.note (.dispatched t)) :
    ∃ p', Moves behaviour ⟨b, p, as ++ bs⟩ ⟨b', p', as ++ b'.begin behaviour t :: bs⟩ ∧
      b'.scheduler.Tracks p' (heldBy (as ++ b'.begin behaviour t :: bs)) := by
  obtain ⟨p', held', hdec, htracks⟩ := ht.dispatch b.abort
  rw [hd] at hdec htracks
  cases hdec with
  | handOut _ hfirst =>
    refine ⟨_, .single (.take rfl hfirst hb htracks.queue), ?_⟩
    have hperm : (t.vertex :: heldBy (as ++ bs)).Perm
        (heldBy (as ++ b'.begin behaviour t :: bs)) := by
      simpa using List.perm_middle.symm
    subst hb
    exact htracks.perm hperm

/-- A step of a worker is made of moves, and the scheduler keeps track of what is held. -/
theorem moves (h : old.Step behaviour index b new b' e)
    (ht : b.scheduler.Tracks p (heldBy (as ++ (old.hands ++ bs)))) :
    ∃ p', Moves behaviour ⟨b, p, as ++ (old.hands ++ bs)⟩ ⟨b', p', as ++ (new.hands ++ bs)⟩ ∧
      b'.scheduler.Tracks p' (heldBy (as ++ (new.hands ++ bs))) := by
  have hquiet : ∀ {c : Board F V E T O}, b.Quiet c → old.hands = new.hands →
      c.scheduler.Tracks p (heldBy (as ++ (old.hands ++ bs))) →
      ∃ p', Moves behaviour ⟨b, p, as ++ (old.hands ++ bs)⟩ ⟨c, p', as ++ (new.hands ++ bs)⟩ ∧
        c.scheduler.Tracks p' (heldBy (as ++ (new.hands ++ bs))) :=
    fun hb hhands hc =>
      ⟨p, hhands ▸ .single (.quiet (s := ⟨b, p, as ++ (old.hands ++ bs)⟩) hb hc.queue), hhands ▸ hc⟩
  cases h with
  | retire hd =>
    obtain ⟨p', held', hdec, htracks⟩ := ht.dispatch b.abort
    rw [hd] at hdec htracks
    cases hdec with
    | stop _ => exact hquiet ⟨rfl, id, rfl, rfl⟩ rfl htracks
    | converged _ _ _ => exact hquiet ⟨rfl, id, rfl, rfl⟩ rfl htracks
  | load hd hl =>
    obtain ⟨p', hmoves, htracks⟩ := take_moves behaviour ht hd rfl
    rw [Board.begin, hl] at hmoves htracks
    exact ⟨p', hmoves, htracks⟩
  | miss hd hl =>
    obtain ⟨p', hmoves, htracks⟩ := take_moves behaviour ht hd rfl
    rw [Board.begin, hl] at hmoves htracks
    exact ⟨p', hmoves, htracks⟩
  | ask x action next =>
    refine ⟨_, .single (.ask b p as bs x action next),
      Board.represents_afterAction ht.queue x action, ?_, ?_⟩
    · rw [Board.perform_scheduler]
      simpa [hands] using ht.inFlight
    · simpa [hands] using ht.nodup
  | finish x => exact ⟨p, .single (.finish b p as bs x), by simpa [hands] using ht⟩
  | fail x e => exact ⟨p, .single (.fail b p as bs x e), by simpa [hands] using ht⟩
  | panic x => exact ⟨p, .single (.panic b p as bs x), by simpa [hands] using ht⟩
  | release v outcome =>
    refine ⟨p, .single (.release p as bs v outcome rfl), ?_⟩
    simp only [hands, List.singleton_append, heldBy_append, heldBy_returned,
      heldBy_completed] at ht ⊢
    exact ht.complete
  | count v => exact ⟨p, .single (.count b p as bs v), by simpa [hands] using ht⟩
  | noteFailed v e => exact ⟨p, .single (.noteFailed b p as bs v e), by simpa [hands] using ht⟩
  | notePanicked v => exact ⟨p, .single (.notePanicked b p as bs v), by simpa [hands] using ht⟩
  | withdraw | close => exact hquiet ⟨rfl, id, rfl, rfl⟩ rfl ht.close
  | _ => exact hquiet ⟨rfl, id, rfl, rfl⟩ rfl ht

theorem closed_of_closed (h : old.Step behaviour index b new b' e)
    (hc : b'.scheduler.closed = true) :
    b.scheduler.closed = true ∨ old.isClosing = true := by
  cases h with
  | retire hd =>
    have hkeep := b.scheduler.closed_dispatch b.abort
    rw [hd] at hkeep
    exact .inl (hkeep ▸ hc)
  | load hd _ =>
    have hkeep := b.scheduler.closed_dispatch b.abort
    rw [hd] at hkeep
    exact .inl (hkeep ▸ hc)
  | miss hd _ =>
    have hkeep := b.scheduler.closed_dispatch b.abort
    rw [hd] at hkeep
    exact .inl (hkeep ▸ hc)
  | ask x action next =>
    rw [Board.perform_scheduler] at hc
    exact .inl hc
  | withdraw | close => exact .inr rfl
  | _ => exact .inl hc

theorem isSome_of_closing (h : old.Step behaviour index b new b' e)
    (hn : new.isClosing = true) : e.isSome = true := by
  cases h with
  | noteFailed | notePanicked => rfl
  | _ => cases hn

/-- A worker is told to finish only for a reason. -/
theorem gone (h : old.Step behaviour index b new b' e) (hg : new.isGone = true)
    (ht : b.scheduler.Tracks p (heldBy as)) :
    old.isGone = true ∨ old.isClosing = true ∨ b.scheduler.closed = true ∨ b.abort = true ∨
      p.tasks = [] ∧ heldBy as = [] := by
  cases h with
  | retire hd =>
    obtain ⟨p', held', hdec, -⟩ := ht.dispatch b.abort
    rw [hd] at hdec
    have hwhy := hdec.finish_iff.mp rfl
    rw [Bool.or_eq_true, or_assoc] at hwhy
    exact .inr (.inr hwhy)
  | withdraw | close => exact .inr (.inl rfl)
  | leave => exact .inl rfl
  | _ => cases hg

/-- A failure is reported together with an error. -/
theorem unfailed (h : old.Step behaviour index b new b' e) (he : e = none) (hb : b.Unfailed) :
    b'.Unfailed := by
  cases h with
  | ask x action next => exact hb.perform x action
  | noteFailed v e => cases he
  | notePanicked v => cases he
  | start | load | miss | finish | count | publish | leave => exact hb.note rfl
  | _ => exact hb

theorem ne_left (h : old.Step behaviour index b new b' e) (crashed : Bool) :
    old ≠ .left crashed := by
  rintro rfl
  cases h

end Phase.Step

namespace Pool

/-- The tasks in the hands of the workers. -/
def hands (p : Pool F V E T O) : List (Hand F V T O) :=
  p.workers.flatMap Phase.hands

/-- A step of a worker changes what this worker has in its hands. -/
theorem hands_stepped {p : Pool F V E T O} {index : Nat} {old : Phase F V T O}
    (hw : p.workers[index]? = some old) :
    ∃ before after, p.hands = before ++ (old.hands ++ after) ∧
      ∀ new b e, (p.stepped index new b e).hands = before ++ (new.hands ++ after) := by
  obtain ⟨before, after, hsplit, -, hset⟩ := split_workers hw
  refine ⟨before.flatMap Phase.hands, after.flatMap Phase.hands, ?_, fun new b e => ?_⟩
  · simp [hands, hsplit]
  · simp [hands, stepped, hset]

/-- The same, without the order of the workers. -/
theorem perm_stepped {p : Pool F V E T O} {index : Nat} {old : Phase F V T O}
    (hw : p.workers[index]? = some old) :
    ∃ others, p.hands.Perm (old.hands ++ others) ∧
      ∀ new b e, (p.stepped index new b e).hands.Perm (new.hands ++ others) := by
  obtain ⟨before, after, hhands, hhands'⟩ := hands_stepped hw
  refine ⟨before ++ after, ?_, fun new b e => ?_⟩
  · rw [hhands]
    exact List.perm_append_comm_assoc ..
  · rw [hhands']
    exact List.perm_append_comm_assoc ..

/-- What a pool keeps in order to stop at the right time. -/
structure Orderly (p : Pool F V E T O) (pending : PendingList F) : Prop where
  tracks : p.board.scheduler.Tracks pending (heldBy p.hands)
  workers : p.workers ≠ []
  closed : p.board.scheduler.closed = true → p.firstError.isSome = true
  closing : ∀ w ∈ p.workers, w.isClosing = true → p.firstError.isSome = true
  /-- A worker leaves only for a reason that stays. -/
  gone : ∀ w ∈ p.workers, w.isGone = true →
    p.firstError.isSome = true ∨ p.board.abort = true ∨ pending.tasks = [] ∧ heldBy p.hands = []
  joined : ∀ i < p.joined, i < p.workers.length → ∃ crashed, p.workers[i]? = some (.left crashed) ∧
    (crashed = true → p.firstError.isSome = true)
  ended : p.status ≠ .running → p.workers.length ≤ p.joined
  /-- A run that ends well has done everything. -/
  converged : p.status = .ended (.ok ()) → p.firstError = none ∧ pending.tasks = []
  /-- No panic leaves a pool. -/
  caught : p.status ≠ .crashed
  unfailed : p.firstError = none → p.board.Unfailed

namespace Orderly

variable {p p' : Pool F V E T O} {pending : PendingList F}

theorem hands_start (b : Board F V E T O) (n : Nat) : (Pool.start b n).hands = [] := by
  refine List.flatMap_eq_nil_iff.mpr fun w hw => ?_
  rw [List.eq_of_mem_replicate hw]
  rfl

theorem start (b : Board F V E T O) (n : Nat) (ht : b.scheduler.Tracks pending [])
    (hc : b.scheduler.closed = false) (hb : b.Unfailed) : (Pool.start b n).Orderly pending := by
  have hall : ∀ w ∈ (Pool.start b n).workers, w = .starting :=
    fun w hw => List.eq_of_mem_replicate hw
  refine ⟨hands_start b n ▸ ht, ?_, ?_, ?_, ?_, ?_, ?_, ?_, ?_, fun _ => hb⟩
  · have hpos : 0 < workerCount n := Nat.lt_of_lt_of_le Nat.one_pos (Nat.le_max_right n 1)
    exact List.ne_nil_of_length_pos (by simpa [Pool.start] using hpos)
  · intro h
    exact absurd (hc.symm.trans h) Bool.false_ne_true
  · intro w hw hc
    rw [hall w hw] at hc
    cases hc
  · intro w hw hg
    rw [hall w hw] at hg
    cases hg
  · intro i hi
    exact absurd hi (Nat.not_lt_zero i)
  · intro h
    exact absurd rfl h
  · intro h
    cases h
  · intro h
    cases h

/-- A step of a worker. -/
theorem stepped (h : p.Orderly pending) (hr : p.status = .running) {index : Nat}
    {old new : Phase F V T O} {b : Board F V E T O} {e : Option EngineError}
    (hw : p.workers[index]? = some old) (hs : old.Step behaviour index p.board new b e) :
    ∃ pending', Moves behaviour ⟨p.board, pending, p.hands⟩
        ⟨b, pending', (p.stepped index new b e).hands⟩ ∧
      (p.stepped index new b e).Orderly pending' := by
  obtain ⟨before, after, hhands, hhands'⟩ := hands_stepped hw
  have htracks := h.tracks
  rw [hhands] at htracks
  obtain ⟨pending', hmoves, htracks'⟩ := hs.moves htracks
  rw [← hhands, ← hhands' new b e] at hmoves
  rw [← hhands' new b e] at htracks'
  have herror :
      p.firstError.isSome = true → (p.stepped index new b e).firstError.isSome = true := by
    intro hsome
    obtain ⟨e', he'⟩ := Option.isSome_iff_exists.mp hsome
    simp [Pool.stepped, he']
  have hold : old ∈ p.workers := List.mem_of_getElem? hw
  have hmem : ∀ w ∈ (p.stepped index new b e).workers, w = new ∨ w ∈ p.workers := by
    intro w hw
    exact (List.mem_or_eq_of_mem_set hw).symm
  have hreason : ∀ {hs : List (Hand F V T O)}, hs = p.hands →
      (p.firstError.isSome = true ∨ p.board.abort = true ∨ pending.tasks = [] ∧ heldBy hs = []) →
      (p.stepped index new b e).firstError.isSome = true ∨ b.abort = true ∨
        pending'.tasks = [] ∧ heldBy (p.stepped index new b e).hands = [] := by
    rintro hs rfl (hwhy | hwhy | hwhy)
    · exact .inl (herror hwhy)
    · exact .inr (.inl (Moves.abort hmoves hwhy))
    · exact .inr (.inr (Moves.settled hmoves hwhy))
  refine ⟨pending', hmoves, htracks', ?_, ?_, ?_, ?_, ?_, ?_, ?_, ?_, ?_⟩
  · simp [Pool.stepped, h.workers]
  · intro hc
    rcases hs.closed_of_closed hc with hc | hc
    · exact herror (h.closed hc)
    · exact herror (h.closing old hold hc)
  · intro w hw hc
    rcases hmem w hw with rfl | hw
    · obtain ⟨e', he'⟩ := Option.isSome_iff_exists.mp (hs.isSome_of_closing hc)
      cases hf : p.firstError <;> simp [Pool.stepped, he', hf]
    · exact herror (h.closing w hw hc)
  · intro w hw hg
    rcases hmem w hw with rfl | hw
    · rcases hs.gone hg h.tracks with hg | hg | hg | hg
      · exact hreason rfl (h.gone old hold hg)
      · exact .inl (herror (h.closing old hold hg))
      · exact .inl (herror (h.closed hg))
      · exact hreason rfl (.inr hg)
    · exact hreason rfl (h.gone w hw hg)
  · intro i hi hlt
    rw [show (p.stepped index new b e).workers.length = p.workers.length by simp [Pool.stepped]]
      at hlt
    obtain ⟨crashed, hleft, hcrash⟩ := h.joined i hi hlt
    refine ⟨crashed, ?_, fun hc => herror (hcrash hc)⟩
    have hne : index ≠ i := by
      rintro rfl
      exact hs.ne_left crashed (Option.some.inj (hw.symm.trans hleft))
    rw [Pool.stepped, List.getElem?_set_ne hne]
    exact hleft
  · intro hne
    exact absurd hr hne
  · intro hok
    exact absurd (hr.symm.trans hok) (by simp)
  · intro hc
    exact absurd (hr.symm.trans hc) (by simp)
  · intro hf
    obtain ⟨hf, he⟩ : p.firstError = none ∧ e = none := by simpa [Pool.stepped] using hf
    exact hs.unfailed he (h.unfailed hf)

/-- A worker that is known to have left holds nothing. -/
theorem hands_eq_nil (h : p.Orderly pending) (hj : p.workers.length ≤ p.joined) : p.hands = [] := by
  refine List.flatMap_eq_nil_iff.mpr fun w hw => ?_
  obtain ⟨i, hi, hget⟩ := List.getElem_of_mem hw
  obtain ⟨crashed, hleft, -⟩ := h.joined i (Nat.lt_of_lt_of_le hi hj) hi
  rw [List.getElem?_eq_getElem hi, Option.some.injEq, hget] at hleft
  rw [hleft]
  rfl

/-- A pool whose workers have all left without an error has done everything, or was aborted. -/
theorem settled_of_left (h : p.Orderly pending) (hj : p.workers.length ≤ p.joined)
    (hf : p.firstError = none) : p.board.abort = true ∨ pending.tasks = [] := by
  have hpos : 0 < p.workers.length := List.length_pos_iff.mpr h.workers
  obtain ⟨crashed, hleft, hcrash⟩ := h.joined 0 (Nat.lt_of_lt_of_le hpos hj) hpos
  have hsome : ¬p.firstError.isSome = true := by simp [hf]
  have hgone : (Phase.left crashed : Phase F V T O).isGone = true := by
    simpa [Phase.isGone] using fun hc => hsome (hcrash hc)
  rcases h.gone _ (List.mem_of_getElem? hleft) hgone with hwhy | hwhy | hwhy
  · exact absurd hwhy hsome
  · exact .inl hwhy
  · exact .inr hwhy.1

theorem finish (h : p.Orderly pending) (hj : p.workers.length ≤ p.joined) :
    p.finish.Orderly pending ∧ p.board.Quiet p.finish.board ∧ p.finish.hands = p.hands := by
  have hboard : ∀ {q : Pool F V E T O}, q.board.scheduler = p.board.scheduler →
      q.board.abort = p.board.abort → q.workers = p.workers → q.firstError = p.firstError →
      q.joined = p.joined →
      (q.status = .ended (.ok ()) → p.firstError = none ∧ pending.tasks = []) →
      q.status ≠ .crashed → p.board.Quiet q.board → q.Orderly pending := by
    intro q h1 h2 h3 h4 h5 h6 h7 h8
    have hhands : q.hands = p.hands := by rw [hands, h3, hands]
    refine ⟨?_, ?_, ?_, ?_, ?_, ?_, ?_, ?_, h7, ?_⟩
    · rw [h1, hhands]
      exact h.tracks
    · rw [h3]
      exact h.workers
    · rw [h1, h4]
      exact h.closed
    · rw [h3, h4]
      exact h.closing
    · rw [h2, h3, h4, hhands]
      exact h.gone
    · rw [h3, h4, h5]
      exact h.joined
    · rw [h3, h5]
      exact fun _ => hj
    · rw [h4]
      exact h6
    · rw [h4]
      exact fun hf => h8.unfailed (h.unfailed hf)
  unfold Pool.finish
  split
  · exact ⟨hboard rfl rfl rfl rfl rfl (by simp) (by simp) (.refl _), .refl _, rfl⟩
  · rename_i hf
    split
    · exact ⟨hboard rfl rfl rfl rfl rfl (by simp) (by simp) (.refl _), .refl _, rfl⟩
    · rename_i ha
      have hquiet : p.board.Quiet (p.board.note (.loopDrained .threaded)) := ⟨rfl, id, rfl, rfl⟩
      refine ⟨hboard rfl rfl rfl rfl rfl (fun _ => ⟨hf, ?_⟩) (by simp) hquiet, hquiet, rfl⟩
      exact (h.settled_of_left hj hf).resolve_left ha

theorem stepPool (h : p.Orderly pending) (hr : p.status = .running)
    (hs : p.stepPool = some p') :
    p'.Orderly pending ∧ p.board.Quiet p'.board ∧ p'.hands = p.hands := by
  have hlater : ∀ {i : Nat} {old : Phase F V T O}, p.workers[p.joined]? = some old →
      i < p.joined + 1 → i < p.joined ∨ p.workers[i]? = some old := by
    intro i old hw hi
    rcases Nat.lt_succ_iff_lt_or_eq.mp hi with hi | rfl
    · exact .inl hi
    · exact .inr hw
  have hrun : ∀ {P : Prop}, p.status ≠ .running → P := fun hne => absurd hr hne
  have hok : ¬p.status = .ended (.ok ()) := by simp [hr]
  unfold Pool.stepPool at hs
  split at hs
  · rename_i hw
    obtain rfl := Option.some.inj hs
    exact h.finish (List.getElem?_eq_none_iff.mp hw)
  · rename_i hw
    obtain rfl := Option.some.inj hs
    refine ⟨⟨h.tracks, h.workers, h.closed, h.closing, h.gone, ?_, hrun, (absurd · hok), h.caught,
      h.unfailed⟩, .refl _, rfl⟩
    intro i hi hlt
    rcases hlater hw hi with hi | hi
    · exact h.joined i hi hlt
    · exact ⟨false, hi, by simp⟩
  · rename_i hw
    obtain rfl := Option.some.inj hs
    have hsome : (record p.firstError .workerPanicked).isSome = true := by
      cases hf : p.firstError <;> simp [record]
    refine ⟨⟨h.tracks.close, h.workers, fun _ => hsome, fun _ _ _ => hsome,
      fun _ _ _ => .inl hsome, ?_,
      hrun, (absurd · hok), h.caught, fun hf => ?_⟩, ⟨rfl, id, rfl, rfl⟩, rfl⟩
    intro i hi hlt
    rcases hlater hw hi with hi | hi
    · obtain ⟨crashed, hleft, -⟩ := h.joined i hi hlt
      exact ⟨crashed, hleft, fun _ => hsome⟩
    · exact ⟨true, hi, fun _ => hsome⟩
    · exact absurd hf (Option.isSome_iff_ne_none.mp hsome)
  · cases hs

/-- A worker cannot be started, and those behind it are not there any more. -/
theorem spawnFailed (h : p.Orderly pending) (hr : p.status = .running) {index : Nat}
    (reason : String) (hj : p.joined = 0) (hs : ∀ w ∈ p.workers.drop index, w = .starting) :
    (p.spawnFailed index reason).Orderly pending ∧
      (p.spawnFailed index reason).hands = p.hands := by
  have hsome : (p.spawnFailed index reason).firstError.isSome = true := by
    simp only [Pool.spawnFailed]
    cases p.firstError <;> rfl
  have hhands : (p.spawnFailed index reason).hands = p.hands := by
    have hrest : (p.workers.drop index).flatMap Phase.hands = [] :=
      List.flatMap_eq_nil_iff.mpr fun w hw => by rw [hs w hw]; rfl
    have hsplit : p.hands = (p.workers.take index).flatMap Phase.hands := by
      rw [hands, ← List.take_append_drop index p.workers, List.flatMap_append, hrest]
      simp
    rw [hsplit]
    simp [hands, Pool.spawnFailed, Phase.hands]
  refine ⟨⟨?_, ?_, fun _ => hsome, fun _ _ _ => hsome, fun _ _ _ => .inl hsome, ?_, ?_, ?_,
    h.caught, fun hf => ?_⟩, hhands⟩
  · rw [hhands]
    exact h.tracks
  · simp [Pool.spawnFailed]
  · intro i hi
    rw [Pool.spawnFailed, hj] at hi
    exact absurd hi (Nat.not_lt_zero i)
  · exact fun hne => absurd hr hne
  · exact fun hok => absurd (hr.symm.trans hok) (by simp)
  · exact absurd hf (Option.isSome_iff_ne_none.mp hsome)

end Orderly

end Pool

end Threaded

/-! ## Both engines -/

namespace Machine

/-- The tasks in the hands of workers. -/
def hands : Machine F V E T O → List (Hand F V T O)
  | sequential .. => []
  | threaded p => p.hands

/-- What a machine shows. -/
def scene (m : Machine F V E T O) (p : PendingList F) : Scene F V E T O :=
  ⟨m.board, p, m.hands⟩

/-- What a machine keeps. -/
def Orderly : Machine F V E T O → PendingList F → Prop
  | sequential b status, p => Sequential.Orderly b status p
  | threaded pool, p => pool.Orderly p

variable {m m' : Machine F V E T O} {p : PendingList F}

namespace Orderly

theorem tracks (h : m.Orderly p) : m.board.scheduler.Tracks p (heldBy m.hands) := by
  cases m with
  | sequential b status => exact Sequential.Orderly.tracks h
  | threaded pool => exact Threaded.Pool.Orderly.tracks h

theorem hands_eq_nil (h : m.Orderly p) (hr : m.status ≠ .running) : m.hands = [] := by
  cases m with
  | sequential b status => rfl
  | threaded pool =>
    exact Threaded.Pool.Orderly.hands_eq_nil h (Threaded.Pool.Orderly.ended h hr)

theorem converged (h : m.Orderly p) (hs : m.status = .ended (.ok ())) :
    p.tasks = [] ∧ m.board.scheduler.closed = false ∧ m.board.Unfailed := by
  cases m with
  | sequential b status =>
    have hs : status = .ended (.ok ()) := hs
    exact ⟨Sequential.Orderly.converged h hs, Sequential.Orderly.closed h,
      Sequential.Orderly.unfailed h (by simp [hs])⟩
  | threaded pool =>
    obtain ⟨hf, hp⟩ := Threaded.Pool.Orderly.converged h hs
    refine ⟨hp, ?_, Threaded.Pool.Orderly.unfailed h hf⟩
    cases hc : pool.board.scheduler.closed with
    | false => exact hc
    | true => simpa [hf] using Threaded.Pool.Orderly.closed h hc

theorem open_of_crashed (h : m.Orderly p) (hs : m.status = .crashed) :
    m.board.scheduler.closed = false := by
  cases m with
  | sequential b status => exact Sequential.Orderly.closed h
  | threaded pool => exact absurd hs (Threaded.Pool.Orderly.caught h)

theorem hands_start (options : EngineOptions) (b : Board F V E T O) :
    (start options b).hands = [] := by
  unfold Machine.start
  split
  · rfl
  · exact Threaded.Pool.Orderly.hands_start _ _

theorem board_start (options : EngineOptions) (b : Board F V E T O) :
    (start options b).board = b.note (.loopStarted options.engine) := by
  unfold Machine.start
  split <;> rfl

theorem start (options : EngineOptions) {b : Board F V E T O} (ht : b.scheduler.Tracks p [])
    (hc : b.scheduler.closed = false) (hb : b.Unfailed) : (start options b).Orderly p := by
  unfold Machine.start
  split
  · exact ⟨ht, hc, by simp, fun _ => hb.note rfl⟩
  · exact Threaded.Pool.Orderly.start _ _ ht hc (hb.note rfl)

end Orderly

theorem Step.moves (h : Step behaviour m m') (ho : m.Orderly p) :
    ∃ p', Moves behaviour (m.scene p) (m'.scene p') ∧ m'.Orderly p' := by
  have hquiet : ∀ {m' : Machine F V E T O}, m.board.Quiet m'.board → m'.hands = m.hands →
      m'.Orderly p → ∃ p', Moves behaviour (m.scene p) (m'.scene p') ∧ m'.Orderly p' := by
    intro m' hb hh ho'
    refine ⟨p, ?_, ho'⟩
    rw [scene, scene, hh]
    exact .single (.quiet (s := ⟨m.board, p, m.hands⟩) hb ho'.tracks.queue)
  cases h with
  | turn ht => exact ht.moves ho
  | @actor pool pool' a ha =>
    unfold Threaded.Pool.step at ha
    split at ha
    · rename_i hr
      cases a with
      | worker index =>
        obtain ⟨old, new, b, e, hw, hs, rfl⟩ := Threaded.Pool.stepWorker_eq_some ha
        exact Threaded.Pool.Orderly.stepped ho hr hw hs
      | pool =>
        obtain ⟨ho', hb, hh⟩ := Threaded.Pool.Orderly.stepPool ho hr ha
        exact hquiet hb hh ho'
    · cases ha
  | abort =>
    refine hquiet ?_ ?_ ?_
    · cases m <;> exact ⟨rfl, fun _ => rfl, rfl, rfl⟩
    · cases m <;> rfl
    · cases m with
      | sequential b status =>
        have ho : Sequential.Orderly b status p := ho
        exact ⟨ho.tracks, ho.closed, ho.converged, ho.unfailed⟩
      | threaded pool =>
        have ho : pool.Orderly p := ho
        exact ⟨ho.tracks, ho.workers, ho.closed, ho.closing, fun _ _ _ => .inr (.inl rfl),
          ho.joined, ho.ended, ho.converged, ho.caught, ho.unfailed⟩
  | @spawnFailed pool index reason hr hj _ hs =>
    obtain ⟨ho', hh⟩ := Threaded.Pool.Orderly.spawnFailed ho hr reason hj hs
    exact hquiet ⟨rfl, id, rfl, rfl⟩ hh ho'

theorem Reaches.moves (h : Reaches behaviour m m') (ho : m.Orderly p) :
    ∃ p', Moves behaviour (m.scene p) (m'.scene p') ∧ m'.Orderly p' := by
  induction h with
  | refl => exact ⟨p, .refl, ho⟩
  | tail _ hstep ih =>
    obtain ⟨p1, hmoves, ho1⟩ := ih
    obtain ⟨p2, hmoves', ho2⟩ := hstep.moves ho1
    exact ⟨p2, hmoves.trans hmoves', ho2⟩

end Machine

end VertexEngine
