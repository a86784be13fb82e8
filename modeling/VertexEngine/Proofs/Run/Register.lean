import VertexEngine.Proofs.Core.Reachable
import VertexEngine.Proofs.Queue.Rename

/-!
# No task is lost or run twice

A `Register` gives every task of a run a ticket, those pending at the start and those enqueued
later, and follows the history of the run event by event.  It keeps its own pending list, in which
the functions carry the tickets: a request that is merged leaves the ticket with the task that was
pending.

* `Register.note` is what one event does.
* `Register.Matches` says that a register and a scene agree: every ticket is executed or pending,
  exactly once and for its own vertex, and everything that was executed has ended, failed or is in
  the hands of a worker.  `Move.matches` says that every move keeps this.
* `tasks_run_once` is the result about whole runs.
-/

namespace VertexEngine

variable {F V E T O : Type} {behaviour : Behaviour F V E T O}

/-! ## Registers -/

/-- What became of the tasks of a run. -/
structure Register (F : Type) where
  /-- The pending tasks, with their tickets. -/
  pending : PendingList (Nat × F)
  /-- The vertices that tickets were given for, in the order of the tickets. -/
  enqueued : List VertexId
  /-- The vertices of the requests that became a task, as the queue said, in their order. -/
  accepted : List VertexId := []
  /-- The tasks that workers took, the latest first, with their tickets. -/
  executed : List (Task (Nat × F)) := []
  /-- The same tasks, as the workers got them. -/
  dispatched : List (Task F) := []
  /-- The vertices whose programs ended well. -/
  updated : List VertexId := []
  /-- The vertices whose tasks failed or panicked. -/
  stopped : List VertexId := []

namespace Register

/-- The register of a run that starts with this queue. -/
def opened (q : TaskQueue F) : Register F where
  pending := ⟨q.kind, q.policy, q.toList.zipIdx.map fun x => x.1.rename fun update => (x.2, update)⟩
  enqueued := q.toList.map Task.vertex

/-- A request that reached the queue.  A new task gets the next ticket. -/
def place (r : Register F) (v : VertexId) (update : F) (priority : Float) : Register F :=
  match
    if r.pending.policy.isDeduplicating then r.pending.tasks.find? (·.vertex == v) else none with
  | some t => { r with pending := (r.pending.push v (t.update.1, update) priority).1 }
  | none =>
    { r with
      pending := (r.pending.push v (r.enqueued.length, update) priority).1
      enqueued := r.enqueued ++ [v] }

/-- A worker takes the first task for the vertex. -/
def take (r : Register F) (v : VertexId) : Register F :=
  match r.pending.tasks.find? (·.vertex == v) with
  | some t =>
    { r with
      pending := { r.pending with tasks := r.pending.tasks.eraseP (·.vertex == v) }
      executed := t :: r.executed }
  | none => r

/-- What an event does to the register. -/
def note {O : Type} : Event F O → Register F → Register F
  | .placed v update priority placement, r =>
    let r := r.place v update priority
    { r with accepted := if placement = .enqueued then r.accepted ++ [v] else r.accepted }
  | .dispatched t, r =>
    let r := r.take t.vertex
    { r with dispatched := t :: r.dispatched }
  | .updated v, r => { r with updated := v :: r.updated }
  | .failed v _, r => { r with stopped := v :: r.stopped }
  | .panicked v, r => { r with stopped := v :: r.stopped }
  | _, r => r

end Register

/-- The register after everything that happened on a board. -/
def Board.register (b : Board F V E T O) (r : Register F) : Register F :=
  b.history.foldr Register.note r

/-- The vertex of a task that has neither ended well nor been reported as stopped. -/
def Hand.unfinished? : Hand F V T O → Option VertexId
  | running x _ => some x.task.vertex
  | returned _ .finished => none
  | returned v _ => some v
  | completed _ .finished => none
  | completed v _ => some v

/-- Whether a task has ended well and is not counted yet. -/
def Hand.isUncounted : Hand F V T O → Bool
  | returned _ .finished => true
  | completed _ .finished => true
  | _ => false

/-- The register says what the scene shows. -/
structure Register.Matches (r : Register F) (start : List VertexId) (s : Scene F V E T O) :
    Prop where
  pending : r.pending.rename Prod.snd = s.pending
  /-- Every ticket is executed or pending, once, and for the vertex it was given for. -/
  stubs : ((r.executed ++ r.pending.tasks).map Task.stub).Perm r.enqueued.zipIdx
  executed : r.executed.map (Task.rename Prod.snd) = r.dispatched
  enqueued : r.enqueued = start ++ r.accepted
  ended : (r.executed.map Task.vertex).Perm
    (r.updated ++ r.stopped ++ s.hands.filterMap Hand.unfinished?)
  counted : r.updated.length = s.board.updates + s.hands.countP Hand.isUncounted

namespace Register

variable {r : Register F}

theorem note_eq_self {O : Type} {e : Event F O} (h : e.concernsTask = false) (r : Register F) :
    note e r = r := by
  cases e <;> first | rfl | cases h

theorem register_quiet {b b' : Board F V E T O} (h : b.Quiet b') (r : Register F) :
    b'.register r = b.register r := by
  have hfilter : ∀ b : Board F V E T O, b.register r =
      (b.history.filter Event.concernsTask).foldr note r := by
    intro b
    rw [List.foldr_filter]
    refine congrArg (fun f => b.history.foldr f r) ?_
    funext e r
    cases he : e.concernsTask with
    | true => rfl
    | false => exact note_eq_self he r
  rw [hfilter, hfilter, h.history]

/-- A request goes into the task that is pending for its vertex, or becomes one with the next
ticket. -/
theorem place_eq (r : Register F) (v : VertexId) (update : F) (priority : Float) :
    (∃ t finite, r.pending.policy.isDeduplicating = true ∧
        r.pending.tasks.find? (·.vertex == v) = some t ∧
        r.pending.push v (t.update.1, update) priority =
          (r.pending.merge v (t.update.1, update) finite, false) ∧
        r.place v update priority =
          { r with pending := r.pending.merge v (t.update.1, update) finite }) ∨
      ∃ tasks finite, tasks =
          PendingList.insert r.pending.kind ⟨v, (r.enqueued.length, update), finite⟩
            r.pending.tasks ∧
        r.pending.push v (r.enqueued.length, update) priority =
          ({ r.pending with tasks }, true) ∧
        r.place v update priority =
          { r with pending := { r.pending with tasks }, enqueued := r.enqueued ++ [v] } := by
  unfold place
  split
  · rename_i t ht
    split at ht
    · rename_i hd
      have hcontains : r.pending.contains v = true :=
        List.any_eq_true.mpr ⟨t, List.mem_of_find?_eq_some ht, by simpa using List.find?_some ht⟩
      refine .inl ⟨t, TaskQueue.effectivePriority priority, hd, ht, ?_, ?_⟩
      · rw [PendingList.push, hd, hcontains]
        rfl
      · rw [PendingList.push, hd, hcontains]
        rfl
    · cases ht
  · rename_i hnone
    have hnew : (r.pending.policy.isDeduplicating && r.pending.contains v) = false := by
      split at hnone
      · rename_i hd
        rw [hd, Bool.true_and, PendingList.contains, List.any_eq_false]
        exact List.find?_eq_none.mp hnone
      · rename_i hd
        rw [Bool.not_eq_true] at hd
        rw [hd, Bool.false_and]
    refine .inr ⟨_, TaskQueue.effectivePriority priority, rfl, ?_, ?_⟩
    · rw [PendingList.push, hnew]
      rfl
    · rw [PendingList.push, hnew]
      rfl

/-- A request is merged and leaves all tickets as they are, or it gets the next ticket. -/
theorem place_cases {p : PendingList F} (h : r.pending.rename Prod.snd = p)
    (hn : p.policy.isDeduplicating = true → (p.tasks.map Task.vertex).Nodup)
    (v : VertexId) (update : F) (priority : Float) :
    ∃ p', p'.rename Prod.snd = (p.push v update priority).1 ∧
      ((p.push v update priority).2 = false ∧ r.place v update priority = { r with pending := p' } ∧
          (p'.tasks.map Task.stub).Perm (r.pending.tasks.map Task.stub) ∨
        (p.push v update priority).2 = true ∧
          r.place v update priority = { r with pending := p', enqueued := r.enqueued ++ [v] } ∧
          (p'.tasks.map Task.stub).Perm
            ((v, r.enqueued.length) :: r.pending.tasks.map Task.stub)) := by
  subst h
  have hvertices : (r.pending.rename Prod.snd).tasks.map Task.vertex =
      r.pending.tasks.map Task.vertex := by
    rw [PendingList.rename, List.map_map]
    rfl
  rw [hvertices] at hn
  rcases r.place_eq v update priority with ⟨t, finite, hd, ht, hpush, hplace⟩ |
    ⟨tasks, finite, htasks, hpush, hplace⟩
  · obtain ⟨hpending, hadded⟩ :=
      PendingList.rename_push Prod.snd r.pending v (t.update.1, update) priority
    rw [hpush] at hpending hadded
    exact ⟨_, hpending, .inl ⟨hadded.symm, hplace, PendingList.stub_merge (hn hd) ht update _⟩⟩
  · obtain ⟨hpending, hadded⟩ :=
      PendingList.rename_push Prod.snd r.pending v (r.enqueued.length, update) priority
    rw [hpush] at hpending hadded
    subst htasks
    exact ⟨_, hpending, .inr ⟨hadded.symm, hplace,
      PendingList.stub_insert r.pending.kind _ r.pending.tasks⟩⟩

/-- The task that a worker gets is the first one of its vertex. -/
theorem take_eq {p : PendingList F} (h : r.pending.rename Prod.snd = p) {held : List VertexId}
    {t : Task F} (ht : Scheduler.firstFree held p = some t) :
    ∃ x, x.rename Prod.snd = t ∧ r.pending.tasks.find? (·.vertex == t.vertex) = some x ∧
      r.take t.vertex = { r with
        pending := { r.pending with tasks := r.pending.tasks.eraseP (·.vertex == t.vertex) }
        executed := x :: r.executed } ∧
      (r.take t.vertex).pending.rename Prod.snd = Scheduler.withoutFirstFree held p := by
  subst h
  have hfind : (r.pending.rename Prod.snd).tasks.find? (fun u => !held.contains u.vertex) =
      (r.pending.tasks.find? fun u => !held.contains u.vertex).map (Task.rename Prod.snd) :=
    List.find?_map
  rw [Scheduler.firstFree, hfind] at ht
  obtain ⟨x, hx, rfl⟩ := Option.map_eq_some_iff.mp ht
  obtain ⟨hfirst, herase⟩ := find?_key Task.vertex (fun v => !held.contains v) hx
  have htake : r.take (x.rename Prod.snd).vertex = { r with
      pending := { r.pending with tasks := r.pending.tasks.eraseP (·.vertex == x.vertex) }
      executed := x :: r.executed } := by
    rw [take, show (x.rename Prod.snd).vertex = x.vertex from rfl, hfirst]
  refine ⟨x, rfl, hfirst, htake, ?_⟩
  rw [htake, herase, Scheduler.withoutFirstFree, PendingList.rename, PendingList.rename,
    List.eraseP_map]
  rfl

end Register

/-! ## Moves -/

section

variable {r : Register F} {start : List VertexId}

theorem Register.Matches.congr_hands {b b' : Board F V E T O} {p : PendingList F}
    {hands hands' : List (Hand F V T O)} (h : r.Matches start ⟨b, p, hands⟩)
    (hu : b'.updates = b.updates)
    (hf : hands'.filterMap Hand.unfinished? = hands.filterMap Hand.unfinished?)
    (hc : hands'.countP Hand.isUncounted = hands.countP Hand.isUncounted) :
    r.Matches start ⟨b', p, hands'⟩ :=
  ⟨h.pending, h.stubs, h.executed, h.enqueued, by rw [hf]; exact h.ended,
    by rw [hc, hu]; exact h.counted⟩

/-- A request of a program. -/
theorem Register.Matches.placed {s : Scene F V E T O} (h : r.Matches start s)
    (hn : s.pending.policy.isDeduplicating = true → (s.pending.tasks.map Task.vertex).Nodup)
    {v : VertexId} {update : F} {priority : Float} {placement : Placement}
    (hp : placement = .enqueued ↔ (s.pending.push v update priority).2 = true) :
    (Register.note (.placed v update priority placement : Event F O) r).Matches start
      { s with pending := (s.pending.push v update priority).1 } := by
  obtain ⟨p', hpending, ⟨hadded, hplace, hstubs⟩ | ⟨hadded, hplace, hstubs⟩⟩ :=
    r.place_cases h.pending hn v update priority
  · have hmerged : placement ≠ .enqueued := fun he => by simp [hadded] at hp; exact hp he
    simp only [Register.note, hplace, if_neg hmerged]
    refine ⟨hpending, ?_, h.executed, h.enqueued, h.ended, h.counted⟩
    have hold := h.stubs
    rw [List.map_append] at hold ⊢
    exact (hstubs.append_left _).trans hold
  · simp only [Register.note, hplace, if_pos (hp.mpr hadded)]
    refine ⟨hpending, ?_, h.executed, ?_, h.ended, h.counted⟩
    · have hold := h.stubs
      rw [List.map_append] at hold ⊢
      refine (hstubs.append_left _).trans (List.perm_middle.trans ?_)
      rw [List.zipIdx_append, Nat.zero_add]
      exact (hold.cons _).trans (List.perm_append_singleton _ _).symm
    · rw [h.enqueued, List.append_assoc]

theorem Board.unfinished?_begin (behaviour : Behaviour F V E T O) (b : Board F V E T O)
    (t : Task F) :
    (b.begin behaviour t).unfinished? = some t.vertex ∧
      (b.begin behaviour t).isUncounted = false := by
  unfold Board.begin
  split
  · exact ⟨rfl, rfl⟩
  · exact ⟨rfl, rfl⟩

namespace Register.Matches

variable {b b' : Board F V E T O} {p : PendingList F} {before after : List (Hand F V T O)}

/-- A task that a worker gets. -/
theorem taken (h : r.Matches start ⟨b, p, before ++ after⟩) {held : List VertexId} {t : Task F}
    (ht : Scheduler.firstFree held p = some t) (hu : b'.updates = b.updates) :
    (Register.note (.dispatched t : Event F O) r).Matches start
      ⟨b', Scheduler.withoutFirstFree held p, before ++ b'.begin behaviour t :: after⟩ := by
  obtain ⟨x, hx, hfirst, htake, hpending⟩ := Register.take_eq h.pending ht
  obtain ⟨hunfinished, huncounted⟩ := b'.unfinished?_begin behaviour t
  refine ⟨hpending, ?_, ?_, ?_, ?_, ?_⟩
  · rw [Register.note, htake]
    refine .trans (.map Task.stub ?_) h.stubs
    exact List.perm_middle.symm.trans ((perm_cons_eraseP hfirst).symm.append_left _)
  · rw [Register.note, htake, List.map_cons, hx, h.executed]
  · rw [Register.note, htake]
    exact h.enqueued
  · have hended := h.ended
    have hvertex : x.vertex = t.vertex := by rw [← hx]; rfl
    rw [Register.note, htake]
    simp only [List.map_cons, hvertex, List.filterMap_append, List.filterMap_cons,
      hunfinished] at hended ⊢
    refine (hended.cons t.vertex).trans ?_
    rw [← List.append_assoc, ← List.append_assoc]
    exact List.perm_middle.symm
  · have hcounted := h.counted
    rw [Register.note, htake, hu]
    simpa [huncounted, List.countP_cons] using hcounted

/-- A question of a program, which is a request or of no concern. -/
theorem asked {x : Execution F} {action : Action F V O}
    {next : action.Answer T → Program F V T O Unit}
    (h : (b.register r).Matches start ⟨b, p, before ++ .running x (.ask action next) :: after⟩)
    (hq : Represents b.scheduler.queue p) :
    ((b.perform x action).2.2.register r).Matches start
      ⟨(b.perform x action).2.2, b.afterAction action p,
        before ++ .running (b.perform x action).2.1 (next (b.perform x action).1) :: after⟩ := by
  have hframe : ∀ {b' : Board F V E T O} {x' : Execution F}, b'.updates = b.updates →
      x'.task = x.task → (b.register r).Matches start ⟨b', p,
        before ++ .running x' (next (b.perform x action).1) :: after⟩ := by
    intro b' x' hu hx'
    exact h.congr_hands hu (by simp [Hand.unfinished?, hx']) (by simp [Hand.isUncounted])
  have heffect := b.perform_effect x action
  unfold Board.afterAction
  generalize (b.perform x action).2.1 = x', (b.perform x action).2.2 = b' at heffect
  cases heffect with
  | nothing hr =>
    rw [hr]
    exact hframe rfl rfl
  | wrote value => exact hframe rfl rfl
  | raised => exact hframe rfl rfl
  | observed o => exact hframe rfl rfl
  | @requested v update priority hr =>
    rw [hr]
    obtain ⟨hplacement, -⟩ := hq.push v update priority
    have hregister : ((b.note (.requested x.task.vertex v)).schedule v update priority).register r
        = Register.note (.placed v update priority (b.scheduler.schedule v update priority).2
          : Event F O) (b.register r) := rfl
    rw [hregister]
    exact (h.placed hq.nodup_vertices hplacement).congr_hands rfl
      (by simp [Hand.unfinished?]) (by simp [Hand.isUncounted])

/-- A task that ended well. -/
theorem finished {x : Execution F}
    (h : r.Matches start ⟨b, p, before ++ .running x (.done ()) :: after⟩)
    (hu : b'.updates = b.updates) :
    (Register.note (.updated x.task.vertex : Event F O) r).Matches start
      ⟨b', p, before ++ .returned x.task.vertex .finished :: after⟩ := by
  have hended := h.ended
  have hcounted := h.counted
  refine ⟨h.pending, h.stubs, h.executed, h.enqueued, hended.trans ?_, ?_⟩
  · simp only [Register.note, List.filterMap_append, List.filterMap_cons, Hand.unfinished?]
    refine List.perm_iff_count.mpr fun v => ?_
    simp only [List.count_append, List.count_cons]
    omega
  · simp only [Register.note, List.countP_append, List.countP_cons, Hand.isUncounted] at hcounted ⊢
    rw [List.length_cons, hcounted, hu]
    simp
    omega

/-- A task that ended well is counted. -/
theorem counted_up {v : VertexId}
    (h : r.Matches start ⟨b, p, before ++ .completed v .finished :: after⟩)
    (hu : b'.updates = b.updates + 1) : r.Matches start ⟨b', p, before ++ after⟩ := by
  have hended := h.ended
  have hcounted := h.counted
  refine ⟨h.pending, h.stubs, h.executed, h.enqueued, ?_, ?_⟩
  · simpa [Hand.unfinished?, List.filterMap_cons] using hended
  · simp only [List.countP_append, List.countP_cons, Hand.isUncounted] at hcounted ⊢
    rw [hcounted, hu]
    simp
    omega

/-- A task that failed or panicked. -/
theorem stopped {v : VertexId} {outcome : Outcome} {e : Event F O}
    (h : r.Matches start ⟨b, p, before ++ .completed v outcome :: after⟩)
    (he : Register.note e r = { r with stopped := v :: r.stopped })
    (ho : (∃ error, outcome = .failed error) ∨ outcome = .panicked)
    (hu : b'.updates = b.updates) :
    (Register.note e r).Matches start ⟨b', p, before ++ after⟩ := by
  have hended := h.ended
  have hcounted := h.counted
  rw [he]
  refine ⟨h.pending, h.stubs, h.executed, h.enqueued, ?_, ?_⟩
  · refine hended.trans (List.perm_iff_count.mpr fun w => ?_)
    rcases ho with ⟨error, rfl⟩ | rfl <;>
      simp only [List.filterMap_append, List.filterMap_cons, Hand.unfinished?, List.count_append,
        List.count_cons] <;> omega
  · rw [hu]
    rcases ho with ⟨error, rfl⟩ | rfl <;>
      simpa [Hand.isUncounted, List.countP_cons] using hcounted

end Register.Matches

/-- The register follows every move. -/
theorem Move.matches {s s' : Scene F V E T O} (hm : Move behaviour s s') (hs : s.Sound)
    (h : (s.board.register r).Matches start s) : (s'.board.register r).Matches start s' := by
  cases hm with
  | quiet hb _ =>
    rw [Register.register_quiet hb]
    exact h.congr_hands hb.updates rfl rfl
  | @take b p before after held hheld t ht scheduler b' hb hq =>
    have hregister : b'.register r = Register.note (.dispatched t : Event F O) (b.register r) := by
      rw [hb]
      rfl
    rw [hregister]
    exact h.taken ht (by rw [hb]; rfl)
  | ask b p before after x action next => exact h.asked hs.queue
  | finish b p before after x => exact h.finished rfl
  | fail b p before after x e =>
    refine h.congr_hands rfl ?_ ?_
    · simp [Hand.unfinished?]
    · simp [Hand.isUncounted]
  | panic b p before after x =>
    refine h.congr_hands rfl ?_ ?_
    · simp [Hand.unfinished?]
    · simp [Hand.isUncounted]
  | @release b p before after v outcome scheduler hq =>
    refine h.congr_hands rfl ?_ ?_
    · cases outcome <;> simp [Hand.unfinished?, List.filterMap_cons]
    · cases outcome <;> simp [Hand.isUncounted, List.countP_cons]
  | count b p before after v => exact h.counted_up rfl
  | noteFailed b p before after v e => exact h.stopped (e := .failed v e) rfl (Or.inl ⟨e, rfl⟩) rfl
  | notePanicked b p before after v => exact h.stopped (e := .panicked v) rfl (Or.inr rfl) rfl

theorem Moves.matches {s s' : Scene F V E T O} (hm : Moves behaviour s s') (hs : s.Sound)
    (h : (s.board.register r).Matches start s) : (s'.board.register r).Matches start s' := by
  induction hm with
  | refl => exact h
  | tail hmoves hstep ih => exact hstep.matches (Moves.sound hmoves hs) ih

/-- Once nothing is pending and nothing is held, no task is dispatched. -/
theorem Moves.dispatched_eq {s s' : Scene F V E T O} (hm : Moves behaviour s s')
    (h : s.Settled) : (s'.board.register r).dispatched = (s.board.register r).dispatched := by
  induction hm with
  | refl => rfl
  | tail hmoves hstep ih =>
    have hsettled := Moves.settled hmoves h
    rw [← ih]
    cases hstep with
    | quiet hb _ => rw [Register.register_quiet hb]
    | take _ ht _ _ =>
      have hmem := List.mem_of_find?_eq_some ht
      rw [show _ = [] from hsettled.1] at hmem
      cases hmem
    | ask => simp [Scene.Settled] at hsettled
    | _ => rfl

end

/-! ## Runs -/

namespace Register

theorem opened_matches {q : TaskQueue F} {p : PendingList F} (h : Represents q p)
    {b : Board F V E T O} (hu : b.updates = 0) :
    (opened q).Matches (q.toList.map Task.vertex) ⟨b, p, []⟩ := by
  have hlist := h.toList_eq
  refine ⟨?_, ?_, rfl, (List.append_nil _).symm, .refl _, ?_⟩
  · obtain ⟨kind, policy, tasks⟩ := p
    obtain ⟨rfl, rfl, -⟩ := h
    refine congrArg (PendingList.mk q.kind q.policy) ?_
    have hlist : q.toList = tasks := hlist
    simp only [opened, List.map_map]
    rw [← hlist]
    exact (List.map_congr_left fun x _ => rfl).trans (List.zipIdx_map_fst 0 q.toList)
  · simp only [opened, List.nil_append, List.map_map]
    rw [List.zipIdx_map]
    exact .refl _
  · simp [opened, hu]

theorem stopped_register {b : Board F V E T O} (hb : b.Unfailed) (r : Register F) :
    (b.register r).stopped = r.stopped := by
  have hplace : ∀ (r : Register F) v update priority,
      (r.place v update priority).stopped = r.stopped := by
    intro r v update priority
    unfold place
    split <;> rfl
  have htake : ∀ (r : Register F) v, (r.take v).stopped = r.stopped := by
    intro r v
    unfold take
    split <;> rfl
  unfold Board.register
  unfold Board.Unfailed at hb
  generalize b.history = history at hb
  induction history with
  | nil => rfl
  | cons e history ih =>
    rw [List.foldr_cons, ← ih fun e' he' => hb e' (List.mem_cons_of_mem _ he')]
    have he := hb e List.mem_cons_self
    cases e with
    | placed v update priority placement => exact hplace _ _ _ _
    | dispatched t => exact htake _ _
    | failed v e => cases he
    | panicked v => cases he
    | _ => rfl

end Register

/-- When no worker holds a task, every task has ended one way, and every ticket is accounted for. -/
theorem Register.Matches.totals {r : Register F} {start : List VertexId} {b : Board F V E T O}
    {p : PendingList F} (h : r.Matches start ⟨b, p, []⟩) :
    (r.executed.map Task.vertex).Perm (r.updated ++ r.stopped) ∧
      start.length + r.accepted.length = b.updates + r.stopped.length + r.pending.tasks.length := by
  have hended := h.ended
  have hcounted := h.counted
  simp only [List.filterMap_nil, List.append_nil, List.countP_nil, Nat.add_zero] at hended hcounted
  have hstubs := h.stubs.length_eq
  have hlength := hended.length_eq
  rw [List.length_map, List.length_append, List.length_zipIdx, h.enqueued,
    List.length_append] at hstubs
  rw [List.length_map, List.length_append] at hlength
  exact ⟨hended, by omega⟩

/-- The register of a run agrees with its machine at every step. -/
theorem Machine.Reaches.matches {core : Core F V E T} (hs : core.Sound)
    {m₀ m : Machine F V E T O} (hl : core.launch = .ok m₀) (hr : m₀.Reaches behaviour m) :
    ∃ p, m.Orderly p ∧
      (m.board.register (.opened core.scheduler.queue)).Matches
        (core.scheduler.queue.toList.map Task.vertex) (m.scene p) := by
  obtain ⟨p, hp⟩ := hs.tracks
  obtain ⟨g, -, ho, hhands, hquiet, hscheduler⟩ := Core.launch_eq_ok hl hs hp
  obtain ⟨p', hmoves, ho'⟩ := hr.moves ho
  refine ⟨p', ho', Moves.matches hmoves ⟨ho.tracks.queue, ho.tracks.nodup⟩ ?_⟩
  have hregister :
      m₀.board.register (.opened core.scheduler.queue) = .opened core.scheduler.queue :=
    Register.register_quiet hquiet _
  rw [Machine.scene, hhands, hregister]
  exact Register.opened_matches hp.queue hquiet.updates

/-- Every task of a run that was pending at the start or enqueued later is executed at most once,
and for its own vertex.  A run that ends well has executed each of them, and counts as many updates
as there were; a run that ends with an error counts those it executed well, and the others failed,
panicked or were dropped.  After a worker has found nothing pending and nothing in flight, no task
is dispatched any more. -/
theorem tasks_run_once {core : Core F V E T} (hc : core.Reachable behaviour)
    {m₀ m : Machine F V E T O} (hl : core.launch = .ok m₀) (hr : m₀.Reaches behaviour m) :
    let r := m.board.register (.opened core.scheduler.queue)
    r.enqueued = core.scheduler.queue.toList.map Task.vertex ++ r.accepted ∧
      r.executed.map (Task.rename Prod.snd) = r.dispatched ∧
      r.pending.tasks.map (Task.rename Prod.snd) = m.board.scheduler.queue.toList ∧
      ((r.executed ++ r.pending.tasks).map Task.stub).Perm r.enqueued.zipIdx ∧
      (∀ report core', core.conclude? m = some (.converged report, core') →
        core'.scheduler.pending = 0 ∧ (r.executed.map Task.stub).Perm r.enqueued.zipIdx ∧
          r.updated.Perm r.enqueued ∧
          report.updates = core.scheduler.pending + r.accepted.length) ∧
      (∀ e core', core.conclude? m = some (.stopped e, core') →
        (r.executed.map Task.vertex).Perm (r.updated ++ r.stopped) ∧
          core.scheduler.pending + r.accepted.length =
            core'.lastUpdateCount + r.stopped.length + m.board.scheduler.pending ∧
          core'.scheduler.pending = 0) ∧
      (m.board.scheduler.closed = false → m.board.abort = false →
        (m.board.scheduler.dispatch m.board.abort).1 = .finish →
        ∀ m', m.Reaches behaviour m' →
          (m'.board.register (.opened core.scheduler.queue)).dispatched = r.dispatched) := by
  intro r
  obtain ⟨p₀, hp₀⟩ := hc.sound.tracks
  obtain ⟨p, ho, hmatches⟩ := hr.matches hc.sound hl
  have hlist := ho.tracks.queue.toList_eq
  have hpending : r.pending.tasks.map (Task.rename Prod.snd) = p.tasks :=
    congrArg PendingList.tasks hmatches.pending
  have hsize : m.board.scheduler.pending = r.pending.tasks.length := by
    rw [← List.length_map (Task.rename Prod.snd), hpending]
    exact ho.tracks.queue.size_eq
  have hcount : m.status ≠ .running →
      core.scheduler.pending + r.accepted.length =
        m.board.updates + r.stopped.length + m.board.scheduler.pending ∧
        (r.executed.map Task.vertex).Perm (r.updated ++ r.stopped) := by
    intro hstatus
    have hsettled := hmatches
    rw [Machine.scene, ho.hands_eq_nil hstatus] at hsettled
    obtain ⟨hended, htotal⟩ := hsettled.totals
    have hstart :
        core.scheduler.pending = (core.scheduler.queue.toList.map Task.vertex).length := by
      rw [List.length_map, hp₀.queue.toList_eq]
      exact hp₀.queue.size_eq
    rw [hstart, hsize]
    exact ⟨htotal, hended⟩
  refine ⟨hmatches.enqueued, hmatches.executed, hpending.trans hlist.symm, hmatches.stubs, ?_, ?_,
    ?_⟩
  · intro report core' hconclude
    cases Core.concludes_of_eq_some hconclude with
    | converged hstatus =>
      obtain ⟨hempty, -, hunfailed⟩ := ho.converged hstatus
      obtain ⟨htotal, hended⟩ := hcount (by simp [hstatus])
      have hstopped : r.stopped = [] := Register.stopped_register hunfailed _
      have hnone : r.pending.tasks = [] := by
        rw [hempty] at hpending
        exact List.map_eq_nil_iff.mp hpending
      have hstubs : (r.executed.map Task.stub).Perm r.enqueued.zipIdx := by
        have hstubs := hmatches.stubs
        rwa [show (m.board.register _).pending.tasks = [] from hnone, List.append_nil] at hstubs
      rw [hstopped, List.append_nil] at hended
      rw [hnone, List.length_nil] at hsize
      refine ⟨hsize, hstubs, hended.symm.trans ?_, ?_⟩
      · have hfst := hstubs.map Prod.fst
        rwa [List.map_map, List.zipIdx_map_fst] at hfst
      · rw [htotal, hstopped, hsize]
        rfl
  · intro e core' hconclude
    cases Core.concludes_of_eq_some hconclude with
    | stopped hstatus =>
      obtain ⟨htotal, hended⟩ := hcount (by simp [hstatus])
      exact ⟨hended, htotal, ho.tracks.reset.queue.size_eq⟩
  · intro hclosed habort hfinish m' hr'
    obtain ⟨p', hmoves, -⟩ := hr'.moves ho
    obtain ⟨q, held, hdec, -⟩ := ho.tracks.dispatch m.board.abort
    have hwhy := hdec.finish_iff.mp hfinish
    rw [hclosed, habort] at hwhy
    exact Moves.dispatched_eq hmoves (hwhy.resolve_left (by simp))

/-- A task that asks for another one, which does nothing. -/
def askOnce : Behaviour Bool Nat Unit Nat Empty :=
  fun first _ v => if first then Program.schedule v false 1 else .done ()

/-- A core with one vertex and one task for it. -/
def oneTask : Core Bool Nat Unit Nat where
  options := .plain
  stage := .bound ((Graph.Operation.addVertex 0).edit.run {}).2
  scheduler := ((Scheduler.empty .fifo .coalesce).schedule 0 true 1).1

theorem reachable_oneTask : oneTask.Reachable askOnce :=
  .operation (.operation (.new (rfl : Core.withOptions .plain = .ok _))
    (.setGraph _ (.operation .empty (.addVertex 0)))) (.schedule 0 true 1)

/-- Both tasks are executed, and both are counted. -/
theorem tasks_run_once_oneTask : ∃ (m₀ m : Machine Bool Nat Unit Nat Empty) (report : RunReport)
    (core' : Core Bool Nat Unit Nat), oneTask.launch = .ok m₀ ∧ m₀.Reaches askOnce m ∧
      oneTask.conclude? m = some (.converged report, core') ∧
      (m.board.register (.opened oneTask.scheduler.queue)).updated.Perm [0, 0] ∧
      report.updates = 2 := by
  let m₀ : Machine Bool Nat Unit Nat Empty :=
    .start .plain (oneTask.boardOn ((Graph.Operation.addVertex 0).edit.run {}).2)
  let m := ((m₀.advance askOnce).advance askOnce).advance askOnce
  have hreach : m₀.Reaches askOnce m :=
    ((Machine.reaches_advance askOnce m₀).trans (Machine.reaches_advance ..)).trans
      (Machine.reaches_advance ..)
  have hconclude : oneTask.conclude? m = some (.converged _, _) := rfl
  have hlaunch : oneTask.launch = .ok m₀ := rfl
  obtain ⟨-, -, -, -, hok, -⟩ := tasks_run_once reachable_oneTask hlaunch hreach
  obtain ⟨-, -, hupdated, hcount⟩ := hok _ _ hconclude
  exact ⟨m₀, m, _, _, hlaunch, hreach, hconclude, hupdated, hcount⟩

end VertexEngine
