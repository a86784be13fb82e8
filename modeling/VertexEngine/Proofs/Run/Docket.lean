import VertexEngine.Proofs.Core.Lifecycle
import VertexEngine.Proofs.Run.Halt

/-!
# First come, first served

A docket is kept of what reaches the queue in a run: an entry for every task that is pending at the
start, in the order of the queue, and one for every request that becomes a task, in the order of the
calls.  A request that is merged is written into the latest entry of its vertex.

The sequential loop with a first-in-first-out scheduler works off this docket from its front.

* `Board.docket` follows the history of a run, and `Entry.update` is the function that a policy
  makes of the requests in an entry.
* `Board.InOrder` says that the tasks that were taken and those that are pending are the entries of
  the docket, and that the entries of `past` are at its front for good.
* `Turn.inOrder` says that a turn of the loop keeps this.
-/

namespace VertexEngine

variable {F V E T O : Type} {behaviour : Behaviour F V E T O}

/-! ## Dockets -/

/-- A task as it came to the queue, with what was merged into it. -/
structure Entry (F : Type) where
  vertex : VertexId
  first : F
  /-- The functions of the requests that were merged, in their order. -/
  later : List F := []

/-- What a task is to do. -/
def Task.work (t : Task F) : VertexId × F :=
  (t.vertex, t.update)

namespace Entry

/-- The function first given or, if the policy replaces it, the one last given. -/
def update (policy : SchedulePolicy) (e : Entry F) : F :=
  if policy = .replace then e.later.getLastD e.first else e.first

def work (policy : SchedulePolicy) (e : Entry F) : VertexId × F :=
  (e.vertex, e.update policy)

/-- Writes a merged request for the vertex into the entry, if it is the one of the vertex. -/
def addFor (v : VertexId) (update : F) (e : Entry F) : Entry F :=
  if e.vertex == v then { e with later := e.later ++ [update] } else e

/-- Writes a merged request into the first entry of its vertex. -/
def addToFirst (v : VertexId) (update : F) : List (Entry F) → List (Entry F)
  | [] => []
  | e :: rest =>
    if e.vertex == v then e.addFor v update :: rest else e :: addToFirst v update rest

end Entry

/-- A request that reached the queue. -/
structure Arrival (F : Type) where
  vertex : VertexId
  update : F
  /-- Whether it became a task; otherwise it was merged into one. -/
  enqueued : Bool

/-- The docket after a request, the latest entry first. -/
def Arrival.enter (a : Arrival F) (docket : List (Entry F)) : List (Entry F) :=
  if a.enqueued then { vertex := a.vertex, first := a.update } :: docket
  else Entry.addToFirst a.vertex a.update docket

/-- The entries of the pending tasks, the latest first. -/
def TaskQueue.entered (q : TaskQueue F) : List (Entry F) :=
  (q.toList.map fun t => { vertex := t.vertex, first := t.update }).reverse

/-- The request that an event says has reached the queue. -/
def Event.arrival? : Event F O → Option (Arrival F)
  | .placed v update _ placement => some ⟨v, update, placement = .enqueued⟩
  | _ => none

/-- The requests that reached the queue, the latest first. -/
def Board.arrivals (b : Board F V E T O) : List (Arrival F) :=
  b.history.filterMap Event.arrival?

/-- The docket of a run that started with these entries, the latest entry first. -/
def Board.docket (start : List (Entry F)) (b : Board F V E T O) : List (Entry F) :=
  b.arrivals.foldr Arrival.enter start

/-! ## Merged requests -/

namespace Entry

variable {v : VertexId} {update : F}

/-- Older entries are not looked at when there is a newer one. -/
theorem addToFirst_append {new : List (Entry F)} (h : v ∈ new.map vertex) (old : List (Entry F)) :
    addToFirst v update (new ++ old) = addToFirst v update new ++ old := by
  induction new with
  | nil => cases h
  | cons e rest ih =>
    simp only [List.cons_append, addToFirst]
    split
    · rfl
    · rename_i hne
      have hrest : v ∈ rest.map vertex := by
        rcases List.mem_cons.mp h with heq | hrest
        · exact absurd (beq_iff_eq.mpr heq.symm) hne
        · exact hrest
      rw [ih hrest, List.cons_append]

/-- Where no vertex has two entries, there is only one that can be meant. -/
theorem addToFirst_eq_map {es : List (Entry F)} (hn : (es.map vertex).Nodup) :
    addToFirst v update es = es.map (addFor v update) := by
  induction es with
  | nil => rfl
  | cons e rest ih =>
    obtain ⟨hnot, hrest⟩ := List.nodup_cons.mp hn
    rw [addToFirst, List.map_cons]
    split
    · rename_i heq
      have hsame : rest.map (addFor v update) = rest.map id := by
        refine List.map_congr_left fun e' he' => ?_
        have hne : e'.vertex ≠ v := fun hv =>
          hnot (beq_iff_eq.mp heq ▸ hv ▸ List.mem_map_of_mem he')
        exact if_neg (by simpa using hne)
      rw [hsame, List.map_id]
    · rename_i hne
      rw [ih hrest, addFor, if_neg hne]

/-- What a request does to the work of its vertex. -/
def rework (policy : SchedulePolicy) (v : VertexId) (update : F) (w : VertexId × F) :
    VertexId × F :=
  if w.1 == v then (w.1, if policy = .replace then update else w.2) else w

theorem work_addFor (policy : SchedulePolicy) (v : VertexId) (update : F) (e : Entry F) :
    (e.addFor v update).work policy = rework policy v update (e.work policy) := by
  by_cases hv : (e.vertex == v) = true
  · have hlast : (e.later ++ [update]).getLastD e.first = update := by simp
    simp only [work, addFor, rework, if_pos hv, Entry.update, hlast]
    split <;> rfl
  · rw [addFor, if_neg hv]
    exact (if_neg hv).symm

theorem work_refit (policy : SchedulePolicy) (v : VertexId) (update : F) (t : Task F) :
    (if t.vertex == v then PendingList.refit policy update t else t).work =
      rework policy v update t.work := by
  by_cases hv : (t.vertex == v) = true
  · simp only [Task.work, rework, if_pos hv, PendingList.refit]
    split <;> rfl
  · rw [if_neg hv]
    exact (if_neg hv).symm

/-- A merged request does the same to the entries as to the tasks. -/
theorem work_merged {policy : SchedulePolicy} {es : List (Entry F)} {tasks : List (Task F)}
    (h : es.map (work policy) = tasks.map Task.work) (v : VertexId) (update : F) :
    (es.map (addFor v update)).map (work policy) =
      (tasks.map fun t =>
        if t.vertex == v then PendingList.refit policy update t else t).map Task.work := by
  calc (es.map (addFor v update)).map (work policy)
      = (es.map (work policy)).map (rework policy v update) := by
        rw [List.map_map, List.map_map]
        exact List.map_congr_left fun e _ => work_addFor policy v update e
    _ = (tasks.map Task.work).map (rework policy v update) := by rw [h]
    _ = _ := by
        rw [List.map_map, List.map_map]
        exact List.map_congr_left fun t _ => (work_refit policy v update t).symm

end Entry

/-! ## In order -/

/-- The docket, latest entry first, has the pending tasks and before them the tasks that were taken.
The entries of `past` are those of tasks that were taken. -/
structure Served (policy : SchedulePolicy) (past docket : List (Entry F)) (taken : List (Task F))
    (p : PendingList F) : Prop where
  fifo : p.kind = .fifo
  same : p.policy = policy
  order : (p.tasks.reverse ++ taken).map Task.work = docket.map (Entry.work policy)
  kept : past <:+ docket
  short : past.length ≤ taken.length

namespace Served

variable {policy : SchedulePolicy} {past docket : List (Entry F)} {taken : List (Task F)}
  {p : PendingList F}

/-- The docket falls into the entries of the pending tasks and those of the tasks that were
taken. -/
theorem split (h : Served policy past docket taken p) : ∃ new old, docket = new ++ old ∧
    new.map (Entry.work policy) = p.tasks.reverse.map Task.work ∧
    old.map (Entry.work policy) = taken.map Task.work ∧ past <:+ old := by
  have horder := h.order
  rw [List.map_append] at horder
  obtain ⟨new, old, rfl, hnew, hold⟩ := List.map_eq_append_iff.mp horder.symm
  refine ⟨new, old, rfl, hnew, hold, ?_⟩
  refine List.suffix_of_suffix_length_le h.kept (List.suffix_append _ _) ?_
  have hlength := congrArg List.length hold
  rw [List.length_map, List.length_map] at hlength
  exact hlength ▸ h.short

/-- A request is entered in the docket as the queue has dealt with it. -/
theorem push (h : Served policy past docket taken p)
    (hn : p.policy.isDeduplicating = true → (p.tasks.map Task.vertex).Nodup)
    (v : VertexId) (update : F) (priority : Float) :
    Served policy past (Arrival.enter ⟨v, update, (p.push v update priority).2⟩ docket) taken
      (p.push v update priority).1 := by
  obtain ⟨new, old, rfl, hnew, hold, hpast⟩ := h.split
  obtain ⟨kind, policy', tasks⟩ := p
  obtain rfl : kind = .fifo := h.fifo
  obtain rfl : policy' = policy := h.same
  simp only [PendingList.push]
  split
  · rename_i hmerge
    obtain ⟨hd, hcontains⟩ := Bool.and_eq_true_iff.mp hmerge
    obtain ⟨t, ht, rfl⟩ := PendingList.contains_iff.mp hcontains
    have hvertices : new.map Entry.vertex = (tasks.map Task.vertex).reverse := by
      have hfst := congrArg (List.map Prod.fst) hnew
      rw [List.map_map, List.map_map, List.map_reverse] at hfst
      exact hfst
    have hnodup : (new.map Entry.vertex).Nodup := hvertices ▸ List.nodup_reverse.mpr (hn hd)
    have hmem : t.vertex ∈ new.map Entry.vertex := by
      rw [hvertices]
      exact List.mem_reverse.mpr (List.mem_map_of_mem ht)
    obtain ⟨u, hu⟩ : ∃ u, tasks.find? (·.vertex == t.vertex) = some u :=
      Option.isSome_iff_exists.mp (List.find?_isSome.mpr ⟨t, ht, beq_self_eq_true _⟩)
    rw [PendingList.merge_of_fifo rfl hu, Arrival.enter, if_neg Bool.false_ne_true,
      Entry.addToFirst_append hmem, Entry.addToFirst_eq_map hnodup]
    refine ⟨rfl, rfl, ?_, hpast.trans (List.suffix_append _ _), h.short⟩
    rw [List.map_append, List.map_append, hold, ← List.map_reverse]
    exact congrArg (· ++ _) (Entry.work_merged hnew t.vertex update).symm
  · refine ⟨rfl, rfl, ?_, h.kept.trans (List.suffix_cons _ _), h.short⟩
    have hentry :
        Entry.work policy' ({ vertex := v, first := update } : Entry F) = (v, update) := by
      unfold Entry.work Entry.update
      split <;> rfl
    have horder := h.order
    rw [Arrival.enter, if_pos rfl, List.map_cons, ← horder, hentry]
    show (((tasks ++ [_]).reverse ++ taken).map Task.work) = _
    rw [List.reverse_append, List.reverse_singleton, List.singleton_append, List.cons_append,
      List.map_cons]
    rfl

/-- The first task is taken. -/
theorem take {t : Task F} {rest : List (Task F)} (h : Served policy past docket taken p)
    (hp : p.tasks = t :: rest) :
    Served policy past docket (t :: taken) { p with tasks := rest } := by
  refine ⟨h.fifo, h.same, ?_, h.kept, Nat.le_succ_of_le h.short⟩
  have horder := h.order
  rw [hp, List.reverse_cons, List.append_assoc, List.singleton_append] at horder
  exact horder

end Served

/-! ## What keeps the order -/

namespace Board

variable {b b' : Board F V E T O}

theorem Quiet.arrivals (h : b.Quiet b') : b'.arrivals = b.arrivals :=
  h.filterMap_history fun e he => by cases e <;> first | rfl | cases he

/-- A request that is accepted reaches the queue. -/
theorem perform_arrivals (b : Board F V E T O) (x : Execution F) (action : Action F V O) :
    (b.perform x action).2.2.arrivals =
      match b.request? action with
      | some (v, update, priority) =>
        ⟨v, update, (b.scheduler.queue.push v update priority).2 = .enqueued⟩ :: b.arrivals
      | none => b.arrivals := by
  have heffect := b.perform_effect x action
  generalize (b.perform x action).2.1 = x', (b.perform x action).2.2 = b' at heffect
  cases heffect with
  | nothing h => rw [h]
  | requested h =>
    rw [h]
    rfl
  | _ => rfl

/-- The tasks that were taken and those that are pending are the entries of the docket, in its
order, and the entries of `past` are those of tasks that were taken. -/
structure InOrder (policy : SchedulePolicy) (start past : List (Entry F)) (b : Board F V E T O)
    (p : PendingList F) : Prop where
  queue : Represents b.scheduler.queue p
  served : Served policy past (b.docket start) b.tasks p

variable {policy : SchedulePolicy} {start past : List (Entry F)} {p : PendingList F}

namespace InOrder

theorem congr (h : b.InOrder policy start past p) (hq : b'.scheduler.queue = b.scheduler.queue)
    (ha : b'.arrivals = b.arrivals) (ht : b'.tasks = b.tasks) : b'.InOrder policy start past p := by
  refine ⟨hq ▸ h.queue, ?_⟩
  rw [docket, ha, ht]
  exact h.served

theorem perform (h : b.InOrder policy start past p) (x : Execution F) (action : Action F V O) :
    (b.perform x action).2.2.InOrder policy start past (b.afterAction action p) := by
  refine ⟨represents_afterAction h.queue x action, ?_⟩
  have harrivals := b.perform_arrivals x action
  unfold afterAction docket
  rw [perform_tasks]
  cases hr : b.request? action with
  | none =>
    rw [hr] at harrivals
    rw [harrivals]
    exact h.served
  | some request =>
    obtain ⟨v, update, priority⟩ := request
    rw [hr] at harrivals
    have hadded : decide ((b.scheduler.queue.push v update priority).2 = .enqueued) =
        (p.push v update priority).2 := by
      rw [Bool.eq_iff_iff, decide_eq_true_iff]
      exact (h.queue.push v update priority).1
    simp only [harrivals, hadded]
    exact h.served.push h.queue.nodup_vertices v update priority

/-- All entries of tasks that were taken are in their places for good. -/
theorem exists_past (h : b.InOrder policy start past p) :
    ∃ old, b.InOrder policy start old p ∧ old.length = b.tasks.length := by
  obtain ⟨new, old, hdocket, -, hold, -⟩ := h.served.split
  have hlength : old.length = b.tasks.length := by
    simpa using congrArg List.length hold
  exact ⟨old, ⟨h.queue, h.served.fifo, h.served.same, h.served.order,
    hdocket ▸ List.suffix_append _ _, hlength.le⟩, hlength⟩

theorem take_docket (h : b.InOrder policy start past p) :
    (b.docket start).reverse.take past.length = past.reverse := by
  have hprefix := List.reverse_prefix.mpr h.served.kept
  rw [List.prefix_iff_eq_take, List.length_reverse] at hprefix
  exact hprefix.symm

/-- The tasks in their order are the entries in theirs. -/
theorem works (h : b.InOrder policy start past p) :
    (b.tasks.reverse ++ b.scheduler.queue.toList).map Task.work =
      (b.docket start).reverse.map (Entry.work policy) := by
  have horder := congrArg List.reverse h.served.order
  rw [← List.map_reverse, ← List.map_reverse, List.reverse_append, List.reverse_reverse] at horder
  rw [h.queue.toList_eq]
  exact horder

end InOrder

/-- A program that runs to its end leaves the order as it is. -/
theorem Completes.inOrder {x : Execution F} {program : Program F V T O Unit} {outcome : Outcome}
    (h : b.Completes x program outcome b') (hi : b.InOrder policy start past p) :
    ∃ p', b'.InOrder policy start past p' := by
  induction h generalizing p with
  | abort _ ih => exact ih (hi.congr rfl rfl rfl)
  | done => exact ⟨p, hi.congr rfl rfl rfl⟩
  | fail => exact ⟨p, hi⟩
  | panic => exact ⟨p, hi⟩
  | ask _ ih => exact ih (hi.perform _ _)

theorem Executes.inOrder {t : Task F} {outcome : Outcome}
    (h : b.Executes behaviour t outcome b') (hi : b.InOrder policy start past p) :
    ∃ p', b'.InOrder policy start past p' := by
  cases h with
  | missing _ => exact ⟨p, hi⟩
  | ran _ hc => exact hc.inOrder hi

end Board

namespace Sequential

variable {policy : SchedulePolicy} {start past : List (Entry F)} {b : Board F V E T O}
  {p : PendingList F}

theorem inOrder_settle (h : b.InOrder policy start past p) (v : VertexId) (outcome : Outcome) :
    (settle b v outcome).1.InOrder policy start past p := by
  cases outcome with
  | finished =>
    obtain ⟨hquiet, hscheduler⟩ :=
      b.increment.quiet_evaluateDue (b.increment.syncs.due b.increment.updates)
    rw [Board.settle_finished]
    exact h.congr (by rw [hscheduler]; rfl) hquiet.arrivals hquiet.tasks
  | failed e => exact h.congr rfl rfl rfl
  | panicked => exact h.congr rfl rfl rfl

/-- A turn of the loop takes the task at the front, if there is one. -/
theorem Turn.inOrder {r : Board F V E T O × RunStatus} (h : Turn behaviour b r)
    (hi : b.InOrder policy start past p) :
    ∃ p', r.1.InOrder policy start past p' := by
  cases h with
  | aborted _ => exact ⟨p, hi⟩
  | @drained scheduler _ hn =>
    obtain ⟨hfound, hrest⟩ := Scheduler.next_of_represents hi.queue
    rw [hn] at hfound hrest
    have hnone : p.tasks = [] := List.head?_eq_none_iff.mp hfound.symm
    have hsame : ({ p with tasks := p.tasks.tail } : PendingList F) = p := by
      rw [hnone, List.tail_nil, ← hnone]
    exact ⟨p, hsame ▸ hrest, hi.served⟩
  | @ran scheduler t outcome b' _ hn hx =>
    obtain ⟨hfound, hrest⟩ := Scheduler.next_of_represents hi.queue
    rw [hn] at hfound hrest
    obtain ⟨rest, hp⟩ := List.head?_eq_some_iff.mp hfound.symm
    rw [hp, List.tail_cons] at hrest
    have htaken : ({ b with scheduler }.note (.dispatched t)).InOrder policy start past
        { p with tasks := rest } := ⟨hrest, hi.served.take hp⟩
    obtain ⟨p', hi'⟩ := hx.inOrder htaken
    exact ⟨p', inOrder_settle hi' t.vertex outcome⟩

end Sequential

namespace Machine

variable {policy : SchedulePolicy} {start past : List (Entry F)} {b : Board F V E T O}
  {status : RunStatus} {p : PendingList F} {m : Machine F V E T O}

theorem Step.inOrder (h : (sequential b status).Step behaviour m)
    (ho : Sequential.Orderly b status p) (hi : b.InOrder policy start past p) :
    ∃ b' status' p', m = .sequential b' status' ∧ Sequential.Orderly b' status' p' ∧
      b'.InOrder policy start past p' := by
  cases h with
  | @turn _ r ht =>
    obtain ⟨p', -, ho'⟩ := ht.moves ho
    obtain ⟨p'', hi'⟩ := ht.inOrder hi
    obtain rfl := ho'.tracks.queue.eq_pendingList.trans hi'.queue.eq_pendingList.symm
    exact ⟨r.1, r.2, p', rfl, ho', hi'⟩
  | abort =>
    exact ⟨_, status, p, rfl, ⟨ho.tracks, ho.closed, ho.converged, ho.unfailed⟩,
      hi.congr rfl rfl rfl⟩

/-- The loop keeps the order, whatever happens outside. -/
theorem Reaches.inOrder (h : (sequential b status).Reaches behaviour m)
    (ho : Sequential.Orderly b status p) (hi : b.InOrder policy start past p) :
    ∃ b' status' p', m = .sequential b' status' ∧ Sequential.Orderly b' status' p' ∧
      b'.InOrder policy start past p' := by
  induction h with
  | refl => exact ⟨b, status, p, rfl, ho, hi⟩
  | tail _ hstep ih =>
    obtain ⟨b', status', p', rfl, ho', hi'⟩ := ih
    exact hstep.inOrder ho' hi'

end Machine

/-- A sequential run starts with its pending tasks in order, and with none taken. -/
theorem Core.Consistent.launch_inOrder {core : Core F V E T} (hc : core.Consistent)
    (he : core.options.engine = .sequential) (hf : core.options.scheduler = .fifo)
    {first : Machine F V E T O} (hl : core.launch = .ok first) :
    ∃ b status, first = .sequential b status ∧
      Sequential.Orderly b status core.scheduler.queue.pendingList ∧
      b.InOrder core.options.policy core.scheduler.queue.entered []
        core.scheduler.queue.pendingList ∧
      b.updates = 0 ∧ b.tasks = [] ∧ ∀ e, status ≠ .ended (.error e) := by
  obtain ⟨ho, -⟩ := hc.launch hl
  obtain ⟨g, b, -, hquiet, -, -, hm⟩ := launch_cases hl
  have hupdates : b.updates = 0 := hquiet.updates
  have htasks : b.tasks = [] := hquiet.tasks
  have harrivals : b.arrivals = [] := hquiet.arrivals
  have hserved : Served core.options.policy [] core.scheduler.queue.entered []
      core.scheduler.queue.pendingList := by
    refine ⟨hc.kind.trans hf, hc.policy, ?_, List.nil_suffix, Nat.le_refl 0⟩
    rw [List.append_nil, TaskQueue.entered, TaskQueue.pendingList, List.map_reverse,
      List.map_reverse, List.map_map]
    refine congrArg List.reverse (List.map_congr_left fun t _ => ?_)
    simp only [Function.comp_apply, Task.work, Entry.work, Entry.update]
    split <;> rfl
  have hin : ∀ {b' : Board F V E T O}, b'.arrivals = b.arrivals → b'.tasks = b.tasks →
      Represents b'.scheduler.queue core.scheduler.queue.pendingList →
      b'.InOrder core.options.policy core.scheduler.queue.entered []
        core.scheduler.queue.pendingList := by
    intro b' ha ht hq
    refine ⟨hq, ?_⟩
    rw [Board.docket, ha, ht, harrivals, htasks]
    exact hserved
  rcases hm with ⟨-, rfl⟩ | ⟨-, rfl⟩
  · exact ⟨b, .crashed, rfl, ho, hin rfl rfl ho.tracks.queue, hupdates, htasks, nofun⟩
  · have hstart : Machine.start core.options b =
        .sequential (b.note (.loopStarted core.options.engine)) .running := by
      unfold Machine.start
      rw [he]
    rw [hstart] at ho ⊢
    exact ⟨_, .running, rfl, ho, hin rfl rfl ho.tracks.queue, hupdates, htasks, nofun⟩

end VertexEngine
