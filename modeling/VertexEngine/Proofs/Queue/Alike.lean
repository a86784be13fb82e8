import VertexEngine.Proofs.Scheduler

/-!
# Schedulers that cannot be told apart

Two queues are alike if they hold the same pending list.  They may have given out other numbers,
keep other stale keys and have another heap; none of that shows in the answers, not even in what
became of a request.

* `PendingList.placement` says what becomes of a request by the list alone.
* `TaskQueue.Alike` and `Scheduler.Alike` are kept by every call, with equal answers.
-/

namespace VertexEngine

variable {F : Type}

/-! ## What becomes of a request -/

/-- What becomes of a request for the vertex. -/
def PendingList.placement (p : PendingList F) (vertex : VertexId) (priority : Float) : Placement :=
  let priority := if priority.isFinite then priority else Priority.default
  if p.policy.isDeduplicating then
    match p.tasks.find? (·.vertex == vertex) with
    | none => .enqueued
    | some t => if p.kind = .priority && t.priority < priority then .promoted else .merged
  else .enqueued

namespace TaskQueue

theorem placement_merge {q : TaskQueue F} {xs : List (Nat × Task F)} (h : q.Holds xs)
    {x : Nat × Task F} (hx : x ∈ xs) (update : F) (priority : Float) :
    (q.merge x.1 update priority).2 =
      if q.kind = .priority && x.2.priority < priority then .promoted else .merged := by
  obtain ⟨n, t⟩ := x
  simp only [merge, (h.entry n t).mpr hx]
  split <;> rfl

end TaskQueue

/-- A request is enqueued, merged or promoted, as the list says. -/
theorem Represents.placement {q : TaskQueue F} {p : PendingList F} (h : Represents q p)
    (v : VertexId) (update : F) (priority : Float) :
    (q.push v update priority).2 = p.placement v priority := by
  obtain ⟨kind, policy, tasks⟩ := p
  obtain ⟨rfl, rfl, xs, hxs, rfl⟩ := h
  simp only [TaskQueue.push, PendingList.placement, TaskQueue.effectivePriority]
  by_cases hd : q.policy.isDeduplicating = true
  · rw [if_pos hd, if_pos hd]
    cases hv : q.byVertex[v]? with
    | some seq =>
      obtain ⟨-, t, ht, rfl⟩ := (hxs.index v seq).mp hv
      rw [hxs.find?_vertex hd (.refl _) ht]
      exact TaskQueue.placement_merge hxs ht update _
    | none =>
      have hany := hxs.isSome_byVertex hd v
      rw [hv] at hany
      have hnone : (xs.map Prod.snd).find? (·.vertex == v) = none := by
        rw [List.find?_map, Option.map_eq_none_iff, List.find?_eq_none]
        exact fun x hx hxv => Bool.false_ne_true (hany.trans (List.any_eq_true.mpr ⟨x, hx, hxv⟩))
      rw [hnone]
  · rw [if_neg hd, if_neg hd]

/-! ## Queues -/

/-- Both hold the same pending list. -/
def TaskQueue.Alike (q q' : TaskQueue F) : Prop :=
  ∃ p, Represents q p ∧ Represents q' p

namespace TaskQueue.Alike

variable {q q' : TaskQueue F}

theorem symm (h : q.Alike q') : q'.Alike q := by
  obtain ⟨p, hp, hp'⟩ := h
  exact ⟨p, hp', hp⟩

theorem toList_eq (h : q.Alike q') : q'.toList = q.toList := by
  obtain ⟨p, hp, hp'⟩ := h
  rw [hp.toList_eq, hp'.toList_eq]

theorem size_eq (h : q.Alike q') : q'.size = q.size := by
  obtain ⟨p, hp, hp'⟩ := h
  rw [hp.size_eq, hp'.size_eq]

theorem push (h : q.Alike q') (v : VertexId) (update : F) (priority : Float) :
    (q'.push v update priority).2 = (q.push v update priority).2 ∧
      (q.push v update priority).1.Alike (q'.push v update priority).1 := by
  obtain ⟨p, hp, hp'⟩ := h
  refine ⟨?_, _, (hp.push v update priority).2, (hp'.push v update priority).2⟩
  rw [hp.placement, hp'.placement]

theorem popWhere (h : q.Alike q') (eligible : VertexId → Bool) :
    (q'.popWhere eligible).1 = (q.popWhere eligible).1 ∧
      (q.popWhere eligible).2.Alike (q'.popWhere eligible).2 := by
  obtain ⟨p, hp, hp'⟩ := h
  obtain ⟨hfound, hrest⟩ := hp.popWhere eligible
  obtain ⟨hfound', hrest'⟩ := hp'.popWhere eligible
  exact ⟨hfound'.trans hfound.symm, _, hrest, hrest'⟩

theorem clear (h : q.Alike q') : q.clear.Alike q'.clear := by
  obtain ⟨p, hp, hp'⟩ := h
  exact ⟨_, hp.clear, hp'.clear⟩

theorem empty (kind : SchedulerKind) (policy : SchedulePolicy) :
    (TaskQueue.empty kind policy : TaskQueue F).Alike (.empty kind policy) :=
  ⟨_, .empty kind policy, .empty kind policy⟩

end TaskQueue.Alike

/-! ## Schedulers -/

namespace Scheduler

/-- Alike queues, the same vertices in flight, and both open or both closed. -/
structure Alike (s s' : Scheduler F) : Prop where
  queue : s.queue.Alike s'.queue
  inFlight : s'.inFlight = s.inFlight
  closed : s'.closed = s.closed

namespace Alike

variable {s s' : Scheduler F}

theorem symm (h : s.Alike s') : s'.Alike s :=
  ⟨h.queue.symm, h.inFlight.symm, h.closed.symm⟩

theorem empty (kind : SchedulerKind) (policy : SchedulePolicy) :
    (Scheduler.empty kind policy : Scheduler F).Alike (.empty kind policy) :=
  ⟨.empty kind policy, rfl, rfl⟩

theorem pending_eq (h : s.Alike s') : s'.pending = s.pending :=
  h.queue.size_eq

theorem schedule (h : s.Alike s') (v : VertexId) (update : F) (priority : Float) :
    (s'.schedule v update priority).2 = (s.schedule v update priority).2 ∧
      (s.schedule v update priority).1.Alike (s'.schedule v update priority).1 := by
  obtain ⟨hplacement, hqueue⟩ := h.queue.push v update priority
  exact ⟨hplacement, hqueue, h.inFlight, h.closed⟩

theorem next (h : s.Alike s') : s'.next.1 = s.next.1 ∧ s.next.2.Alike s'.next.2 := by
  obtain ⟨hfound, hqueue⟩ := h.queue.popWhere fun _ => true
  exact ⟨hfound, hqueue, h.inFlight, h.closed⟩

theorem dispatch (h : s.Alike s') (abort : Bool) :
    (s'.dispatch abort).1 = (s.dispatch abort).1 ∧
      (s.dispatch abort).2.Alike (s'.dispatch abort).2 := by
  unfold Scheduler.dispatch
  rw [h.closed, h.inFlight]
  split
  · exact ⟨rfl, h⟩
  · obtain ⟨hfound, hqueue⟩ := h.queue.popWhere fun v => !s.inFlight.contains v
    rcases hq : s.queue.popWhere fun v => !s.inFlight.contains v with ⟨found, queue⟩
    rcases hq' : s'.queue.popWhere fun v => !s.inFlight.contains v with ⟨found', queue'⟩
    rw [hq, hq'] at hfound hqueue
    obtain rfl : found' = found := hfound
    cases found' with
    | some t => exact ⟨rfl, hqueue, rfl, rfl⟩
    | none => exact ⟨rfl, hqueue, rfl, rfl⟩

theorem complete (h : s.Alike s') (v : VertexId) : (s.complete v).Alike (s'.complete v) :=
  ⟨h.queue, congrArg (·.erase v) h.inFlight, h.closed⟩

theorem close (h : s.Alike s') : s.close.Alike s'.close :=
  ⟨h.queue, h.inFlight, rfl⟩

theorem reset (h : s.Alike s') : s.reset.Alike s'.reset :=
  ⟨h.queue.clear, rfl, rfl⟩

end Alike

end Scheduler

end VertexEngine
