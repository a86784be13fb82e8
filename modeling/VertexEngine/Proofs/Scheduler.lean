import VertexEngine.Proofs.Queue.Request
import VertexEngine.Scheduler

/-!
# Who owns a vertex

A scheduler is right when its queue holds the pending tasks and its record of what is in flight is
the list of the vertices that were handed out and not completed, none of them twice.  This is
`Scheduler.Tracks`, and every call of the scheduler keeps it.

* `Decision` lists what a worker that asks for work can be told, with the reason for it, and
  `Tracks.dispatch` says that `Scheduler.dispatch` decides that way.
* `Ledger` is a scheduler beside the tasks that are in the hands of workers.  `Ledger.Reachable` are
  the states that calls can lead to, in any order, and `dispatch_exact` is the result about them.
-/

namespace VertexEngine

variable {F : Type}

namespace Scheduler

/-! ## What a scheduler keeps -/

/-- The tasks of `p` are pending, and the vertices of `held` are in flight, none of them twice. -/
structure Tracks (s : Scheduler F) (p : PendingList F) (held : List VertexId) : Prop where
  queue : Represents s.queue p
  inFlight : s.inFlight.Perm held
  nodup : held.Nodup

/-- The first pending task whose vertex is not held. -/
def firstFree (held : List VertexId) (p : PendingList F) : Option (Task F) :=
  p.tasks.find? fun t => !held.contains t.vertex

/-- The pending tasks without the first one whose vertex is not held. -/
def withoutFirstFree (held : List VertexId) (p : PendingList F) : PendingList F :=
  { p with tasks := p.tasks.eraseP fun t => !held.contains t.vertex }

/-- What a worker is told, what is pending afterwards, and what is held. -/
inductive Decision (stopped : Bool) (p : PendingList F) (held : List VertexId) :
    Dispatch F → PendingList F → List VertexId → Prop
  | stop (h : stopped = true) : Decision stopped p held .finish p held
  | converged (h : stopped = false) (hp : p.tasks = []) (hh : held = []) :
    Decision stopped p held .finish p held
  | handOut (h : stopped = false) {t : Task F} (ht : firstFree held p = some t) :
    Decision stopped p held (.run t) (withoutFirstFree held p) (t.vertex :: held)
  | wait (h : stopped = false) (hp : ∀ t ∈ p.tasks, t.vertex ∈ held) (hh : held ≠ []) :
    Decision stopped p held .wait p held

theorem firstFree_eq_none {held : List VertexId} {p : PendingList F} :
    firstFree held p = none ↔ ∀ t ∈ p.tasks, t.vertex ∈ held := by
  simp [firstFree]

theorem not_mem_of_firstFree {held : List VertexId} {p : PendingList F} {t : Task F}
    (h : firstFree held p = some t) : t.vertex ∉ held := by
  simpa using List.find?_some h

/-- When nothing is held, the first task is free. -/
theorem firstFree_nil (p : PendingList F) : firstFree [] p = p.tasks.head? := by
  unfold firstFree
  cases p.tasks <;> rfl

theorem withoutFirstFree_nil (p : PendingList F) :
    withoutFirstFree [] p = { p with tasks := p.tasks.tail } := by
  unfold withoutFirstFree
  cases p.tasks <;> rfl

/-- The sequential loop takes the task at the front. -/
theorem next_of_represents {s : Scheduler F} {p : PendingList F} (h : Represents s.queue p) :
    s.next.1 = p.tasks.head? ∧ Represents s.next.2.queue { p with tasks := p.tasks.tail } := by
  obtain ⟨hfound, hrest⟩ := h.popWhere fun _ => true
  refine ⟨hfound.trans (firstFree_nil p), ?_⟩
  rw [← withoutFirstFree_nil]
  exact hrest

/-- Every other vertex stays pending. -/
theorem contains_withoutFirstFree {held : List VertexId} {p : PendingList F} {t : Task F}
    (ht : firstFree held p = some t) {v : VertexId} (hv : p.contains v = true) :
    t.vertex = v ∨ (withoutFirstFree held p).contains v = true := by
  obtain ⟨u, hu, rfl⟩ := PendingList.contains_iff.mp hv
  obtain ⟨as, bs, htasks, -, -, herase⟩ := find?_split ht
  rw [htasks, List.perm_middle.mem_iff, List.mem_cons] at hu
  rcases hu with rfl | hother
  · exact .inl rfl
  · refine .inr (PendingList.contains_iff.mpr ⟨u, ?_, rfl⟩)
    rw [withoutFirstFree, herase]
    exact hother

namespace Decision

variable {stopped : Bool} {p p' : PendingList F} {held held' : List VertexId} {answer : Dispatch F}

theorem finish_iff (h : Decision stopped p held answer p' held') :
    answer = .finish ↔ stopped = true ∨ p.tasks = [] ∧ held = [] := by
  cases h with
  | stop hs => simp [hs]
  | converged _ hp hh => simp [hp, hh]
  | @handOut hs t ht =>
    have hmem : t ∈ p.tasks := List.mem_of_find?_eq_some ht
    simp [hs, List.ne_nil_of_mem hmem]
  | wait hs _ hh => simp [hs, hh]

theorem run_iff (h : Decision stopped p held answer p' held') (t : Task F) :
    answer = .run t ↔ stopped = false ∧ firstFree held p = some t := by
  cases h with
  | stop hs => simp [hs]
  | converged _ hp _ => simp [firstFree, hp]
  | handOut hs ht => simp [hs, ht]
  | wait _ hp _ => simp [firstFree_eq_none.mpr hp]

theorem wait_iff (h : Decision stopped p held answer p' held') :
    answer = .wait ↔ stopped = false ∧ held ≠ [] ∧ ∀ t ∈ p.tasks, t.vertex ∈ held := by
  cases h with
  | stop hs => simp [hs]
  | converged _ _ hh => simp [hh]
  | @handOut _ t ht =>
    have hmem : t ∈ p.tasks := List.mem_of_find?_eq_some ht
    have hall : ¬∀ u ∈ p.tasks, u.vertex ∈ held := fun hp => not_mem_of_firstFree ht (hp t hmem)
    simp [hall]
  | wait hs hp hh => exact iff_of_true rfl ⟨hs, hh, hp⟩

end Decision

theorem closed_dispatch (s : Scheduler F) (abort : Bool) :
    (s.dispatch abort).2.closed = s.closed := by
  unfold dispatch
  split
  · rfl
  · split <;> rfl

namespace Tracks

variable {s : Scheduler F} {p : PendingList F} {held : List VertexId}

theorem empty (kind : SchedulerKind) (policy : SchedulePolicy) :
    (empty kind policy : Scheduler F).Tracks ⟨kind, policy, []⟩ [] :=
  ⟨.empty kind policy, .refl _, .nil⟩

theorem schedule (h : s.Tracks p held) (v : VertexId) (update : F) (priority : Float) :
    (s.schedule v update priority).1.Tracks (p.push v update priority).1 held :=
  ⟨(h.queue.push v update priority).2, h.inFlight, h.nodup⟩

theorem dispatch (h : s.Tracks p held) (abort : Bool) :
    ∃ p' held', Decision (s.closed || abort) p held (s.dispatch abort).1 p' held' ∧
      (s.dispatch abort).2.Tracks p' held' := by
  unfold Scheduler.dispatch
  by_cases hstop : (s.closed || abort) = true
  · rw [if_pos hstop]
    exact ⟨p, held, .stop hstop, h⟩
  · rw [if_neg hstop]
    rw [Bool.not_eq_true] at hstop
    have helig : (fun v => !s.inFlight.contains v) = fun v => !held.contains v := by
      funext v
      rw [Bool.eq_iff_iff]
      simp [h.inFlight.mem_iff]
    obtain ⟨hfound, hrest⟩ := h.queue.popWhere fun v => !held.contains v
    rw [helig]
    rcases hq : s.queue.popWhere fun v => !held.contains v with ⟨found, queue⟩
    rw [hq] at hfound hrest
    cases found with
    | some t =>
      have ht : firstFree held p = some t := hfound.symm
      exact ⟨_, _, .handOut hstop ht, hrest, h.inFlight.cons _,
        h.nodup.cons (not_mem_of_firstFree ht)⟩
    | none =>
      have hall : ∀ t ∈ p.tasks, t.vertex ∈ held := firstFree_eq_none.mp hfound.symm
      have hp : (p.popWhere fun v => !held.contains v).2 = p := by
        have hnone : ∀ t ∈ p.tasks, ¬(!held.contains t.vertex) = true := by simpa using hall
        rw [PendingList.popWhere, List.eraseP_of_forall_not hnone]
      rw [hp] at hrest
      refine ⟨p, held, ?_, hrest, h.inFlight, h.nodup⟩
      by_cases hempty : held = []
      · have hflight : s.inFlight = [] := (hempty ▸ h.inFlight : s.inFlight.Perm []).eq_nil
        rw [if_pos (by simp [hflight])]
        exact .converged hstop (List.eq_nil_iff_forall_not_mem.mpr fun t ht => by
          simpa [hempty] using hall t ht) hempty
      · have hne : s.inFlight ≠ [] := fun he =>
          hempty (he ▸ h.inFlight.symm : held.Perm []).eq_nil
        rw [if_neg (by simpa using hne)]
        exact .wait hstop hall hempty

theorem complete {before after : List VertexId} {v : VertexId}
    (h : s.Tracks p (before ++ v :: after)) : (s.complete v).Tracks p (before ++ after) := by
  have hperm : s.inFlight.Perm (v :: (before ++ after)) := h.inFlight.trans List.perm_middle
  refine ⟨h.queue, ?_, (List.nodup_cons.mp (List.perm_middle.nodup_iff.mp h.nodup)).2⟩
  simpa [Scheduler.complete] using hperm.erase v

theorem close (h : s.Tracks p held) : s.close.Tracks p held :=
  ⟨h.queue, h.inFlight, h.nodup⟩

theorem reset (h : s.Tracks p held) : s.reset.Tracks p.clear [] :=
  ⟨h.queue.clear, .refl _, .nil⟩

end Tracks

end Scheduler

/-! ## Any order of calls -/

/-- A scheduler, the tasks that are pending in it, and those in the hands of workers. -/
structure Ledger (F : Type) where
  scheduler : Scheduler F
  pending : PendingList F
  held : List (Task F)

namespace Ledger

/-- The vertices of the tasks in the hands of workers. -/
def vertices (l : Ledger F) : List VertexId :=
  l.held.map Task.vertex

/-- One call.  A task that is handed out is held until its holder reports it complete, and nobody
holds a task when the scheduler is reset. -/
inductive Step : Ledger F → Ledger F → Prop
  | schedule (l : Ledger F) (v : VertexId) (update : F) (priority : Float) :
    Step l { l with
      scheduler := (l.scheduler.schedule v update priority).1
      pending := (l.pending.push v update priority).1 }
  | handOut (l : Ledger F) {abort : Bool} {t : Task F}
    (h : (l.scheduler.dispatch abort).1 = .run t) :
    Step l { l with
      scheduler := (l.scheduler.dispatch abort).2
      pending := Scheduler.withoutFirstFree l.vertices l.pending
      held := t :: l.held }
  | refuse (l : Ledger F) {abort : Bool} (h : ∀ t, (l.scheduler.dispatch abort).1 ≠ .run t) :
    Step l { l with scheduler := (l.scheduler.dispatch abort).2 }
  | complete (l : Ledger F) {before after : List (Task F)} {t : Task F}
    (h : l.held = before ++ t :: after) :
    Step l { l with scheduler := l.scheduler.complete t.vertex, held := before ++ after }
  | close (l : Ledger F) : Step l { l with scheduler := l.scheduler.close }
  | reset (l : Ledger F) (h : l.held = []) :
    Step l { l with scheduler := l.scheduler.reset, pending := l.pending.clear }

/-- The states that calls can lead to from a new scheduler. -/
inductive Reachable (kind : SchedulerKind) (policy : SchedulePolicy) : Ledger F → Prop
  | new : Reachable kind policy ⟨.empty kind policy, ⟨kind, policy, []⟩, []⟩
  | step {l l' : Ledger F} (h : Reachable kind policy l) (hs : Step l l') : Reachable kind policy l'

/-- What a scheduler tracks is what the ledger says. -/
def Tracked (l : Ledger F) : Prop :=
  l.scheduler.Tracks l.pending l.vertices

theorem Step.tracked {l l' : Ledger F} (hs : Step l l') (h : l.Tracked) : l'.Tracked := by
  cases hs with
  | schedule v update priority => exact h.schedule v update priority
  | @handOut abort t hrun =>
    obtain ⟨p', held', hd, htracks⟩ := h.dispatch abort
    rw [hrun] at hd
    cases hd with
    | handOut _ _ => exact htracks
  | @refuse abort hne =>
    obtain ⟨p', held', hd, htracks⟩ := h.dispatch abort
    generalize (l.scheduler.dispatch abort).1 = answer at hd hne
    cases hd with
    | handOut _ _ => exact absurd rfl (hne _)
    | stop _ => exact htracks
    | converged _ _ _ => exact htracks
    | wait _ _ _ => exact htracks
  | @complete before after t hheld =>
    have hvertices : l.vertices = before.map Task.vertex ++ t.vertex :: after.map Task.vertex := by
      simp [vertices, hheld]
    rw [Tracked, hvertices] at h
    have hrest := h.complete
    rw [← List.map_append] at hrest
    exact hrest
  | close => exact h.close
  | reset hheld =>
    have hrest := h.reset
    rw [Tracked, vertices, hheld]
    exact hrest

theorem Reachable.tracked {kind : SchedulerKind} {policy : SchedulePolicy} {l : Ledger F}
    (h : Reachable kind policy l) : l.Tracked := by
  induction h with
  | new => exact .empty kind policy
  | step _ hs ih => exact hs.tracked ih

/-- What is in flight is what is held, each vertex once, and a worker that asks for work is told to
finish, given the first task it may run, or told to wait, each exactly when it should be.  It is
never told to wait when nobody holds a task. -/
theorem dispatch_exact {kind : SchedulerKind} {policy : SchedulePolicy} {l : Ledger F}
    (h : Reachable kind policy l) (abort : Bool) :
    l.scheduler.inFlight.Perm l.vertices ∧ l.vertices.Nodup ∧
      l.scheduler.queue.toList = l.pending.tasks ∧
      ((l.scheduler.dispatch abort).1 = .finish ↔
        l.scheduler.closed = true ∨ abort = true ∨
          l.scheduler.queue.toList = [] ∧ l.scheduler.inFlight = []) ∧
      (∀ t, (l.scheduler.dispatch abort).1 = .run t ↔
        l.scheduler.closed = false ∧ abort = false ∧
          l.scheduler.queue.toList.find? (fun u => !l.scheduler.inFlight.contains u.vertex)
            = some t) ∧
      ((l.scheduler.dispatch abort).1 = .wait ↔
        l.scheduler.closed = false ∧ abort = false ∧ l.scheduler.inFlight ≠ [] ∧
          ∀ u ∈ l.scheduler.queue.toList, u.vertex ∈ l.scheduler.inFlight) ∧
      ((l.scheduler.dispatch abort).1 = .wait → l.held ≠ []) := by
  have htracks := h.tracked
  have hlist := htracks.queue.toList_eq
  have hmem : ∀ v, v ∈ l.scheduler.inFlight ↔ v ∈ l.vertices := fun v => htracks.inFlight.mem_iff
  have hnil : l.scheduler.inFlight = [] ↔ l.vertices = [] :=
    ⟨fun he => (he ▸ htracks.inFlight : List.Perm [] _).nil_eq.symm,
      fun he => (he ▸ htracks.inFlight : List.Perm _ []).eq_nil⟩
  have hfirst : l.pending.tasks.find? (fun u => !l.scheduler.inFlight.contains u.vertex) =
      Scheduler.firstFree l.vertices l.pending := by
    simp only [Scheduler.firstFree, List.contains_eq_mem, hmem]
  refine ⟨htracks.inFlight, htracks.nodup, hlist, ?_⟩
  simp only [hlist, hfirst, ne_eq, hnil, hmem]
  obtain ⟨p', held', hd, -⟩ := htracks.dispatch abort
  have hstop : (l.scheduler.closed || abort) = false ↔ l.scheduler.closed = false ∧ abort = false :=
    Bool.or_eq_false_iff
  refine ⟨?_, fun t => ?_, ?_, fun hwait hheld => ?_⟩
  · rw [hd.finish_iff, Bool.or_eq_true, or_assoc]
  · rw [hd.run_iff, hstop, and_assoc]
  · rw [hd.wait_iff, hstop, and_assoc]
  · exact (hd.wait_iff.mp hwait).2.1 (by rw [vertices, hheld, List.map_nil])

/-- A task for vertex 7 is in the hands of a worker. -/
def oneHeld : Ledger Unit :=
  let s := ((Scheduler.empty .fifo .coalesce).schedule 7 () 1).1
  { scheduler := (s.dispatch false).2
    pending := Scheduler.withoutFirstFree [] ((PendingList.mk .fifo .coalesce []).push 7 () 1).1
    held := [⟨7, (), 1⟩] }

theorem reachable_oneHeld : Reachable .fifo .coalesce oneHeld :=
  .step (.step .new (.schedule _ 7 () 1)) (.handOut _ rfl)

/-- A second worker waits for the one that holds the vertex. -/
theorem dispatch_exact_oneHeld : oneHeld.scheduler.inFlight.Perm [7] ∧
    ((oneHeld.scheduler.dispatch false).1 = .wait → oneHeld.held ≠ []) ∧
    (oneHeld.scheduler.dispatch false).1 = .wait := by
  obtain ⟨hflight, -, -, -, -, -, hheld⟩ := dispatch_exact reachable_oneHeld false
  exact ⟨hflight, hheld, rfl⟩

end Ledger

end VertexEngine
