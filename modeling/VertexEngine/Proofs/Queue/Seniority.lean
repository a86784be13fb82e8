import VertexEngine.Proofs.Binary64.Rank
import VertexEngine.Proofs.Queue.Refinement

/-!
# The order among equal priorities

Under the priority order the tasks of equal priority go in the order in which they got it.  The
`roll` of a queue is the list of its pending tasks in that order: a new task goes to its end, and so
does a task that rises, while a request that is merged without a rise leaves it where it is.  It is
computed from the calls and their answers alone.

* `Enrolled` ties the roll to the queue: both hold the same numbered tasks, and the roll has them by
  number.
* `Enrolled.call` is the step, for one call, and `Enrolled.after` the run.
* `ties_in_order` says where on the roll the task stands that a queue answers with.

There is one exception.  The two zeros are equal numbers, so that none of them rises to the other,
but negative zero has the lower rank.
-/

namespace VertexEngine

variable {F : Type}

/-! ## The roll -/

/-- The roll after a repeated request. -/
def mergedRoll (policy : SchedulePolicy) (v : VertexId) (update : F) (priority : Float)
    (roll : List (Task F)) : List (Task F) :=
  match roll.find? (·.vertex == v) with
  | none => roll
  | some t =>
    if t.priority < priority then
      roll.eraseP (·.vertex == v) ++ [{ PendingList.refit policy update t with priority }]
    else roll.map fun u => if u.vertex == v then PendingList.refit policy update u else u

instance [DecidableEq F] : DecidableEq (Task F) := fun t u =>
  decidable_of_iff (t.vertex = u.vertex ∧ t.update = u.update ∧ t.priority = u.priority)
    (by cases t; cases u; simp)

/-- The roll without the task that was taken, if one was. -/
def strike [DecidableEq F] (found : Option (Task F)) (roll : List (Task F)) : List (Task F) :=
  found.elim roll roll.erase

/-- The pending tasks in the order in which they got their priorities, after a call with this
answer. -/
def QueueCall.roll [DecidableEq F] (policy : SchedulePolicy) (roll : List (Task F)) :
    QueueCall F → QueueAnswer F → List (Task F)
  | .push v update priority, .added true =>
    roll ++ [⟨v, update, TaskQueue.effectivePriority priority⟩]
  | .push v update priority, .added false =>
    mergedRoll policy v update (TaskQueue.effectivePriority priority) roll
  | .pop, .task found => strike found roll
  | .popWhere _, .task found => strike found roll
  | .clear, _ => []
  | _, _ => roll

/-- The roll after a sequence of calls. -/
def TaskQueue.roll [DecidableEq F] (q : TaskQueue F) (tasks : List (Task F)) :
    List (QueueCall F) → List (Task F)
  | [] => tasks
  | c :: cs => (q.call c).2.roll (c.roll q.policy tasks (q.call c).1) cs

/-! ## The first eligible task -/

/-- Of the tasks on a roll, `t` is the one that goes: no eligible task has a greater priority, and
no older one an equal priority.  Negative zero counts as less than zero. -/
structure GoesFirst (eligible : VertexId → Bool) (older : List (Task F)) (t : Task F)
    (younger : List (Task F)) : Prop where
  chosen : eligible t.vertex = true
  greatest : ∀ u ∈ older ++ younger, eligible u.vertex = true → ¬t.priority < u.priority
  older_less : ∀ u ∈ older, eligible u.vertex = true →
    u.priority < t.priority ∨ (u.priority = -0.0 ∧ t.priority = 0.0)
  younger_not_zero : ∀ u ∈ younger, eligible u.vertex = true →
    ¬(t.priority = -0.0 ∧ u.priority = 0.0)

/-- No older task is the same: the first one on the roll that is equal to `t` is `t`. -/
theorem GoesFirst.erase_eq [DecidableEq F] {eligible : VertexId → Bool}
    {older younger : List (Task F)} {t : Task F} (h : GoesFirst eligible older t younger) :
    (older ++ t :: younger).erase t = older ++ younger := by
  have hnot : t ∉ older := by
    intro ht
    rcases h.older_less t ht h.chosen with hlt | ⟨hneg, hpos⟩
    · exact h.greatest t (List.mem_append_left _ ht) h.chosen hlt
    · exact absurd (hneg.symm.trans hpos) (by decide +kernel)
  rw [List.erase_append_right _ hnot, List.erase_cons_head]

namespace TaskQueue.Holds

open Binary64

variable {q : TaskQueue F} {xs as bs : List (Nat × Task F)} {x y : Nat × Task F}
  {eligible : VertexId → Bool}

/-- The key of the first eligible task goes before the keys of all others. -/
theorem before_of_find? (h : Holds q xs) (hk : q.kind = .priority)
    (hx : xs.find? (eligible ·.2.vertex) = some x) (hy : y ∈ xs)
    (he : eligible y.2.vertex = true) (hne : y.1 ≠ x.1) :
    Priority.rank y.2.priority < Priority.rank x.2.priority ∨
      Priority.rank x.2.priority = Priority.rank y.2.priority ∧ x.1 < y.1 := by
  have hs := h.pairwise_before hk
  obtain ⟨as, bs, rfl, -, has, -⟩ := find?_split hx
  rw [List.pairwise_append, List.pairwise_cons] at hs
  rcases List.mem_append.mp hy with hy | hy
  · simp [has y hy] at he
  · rcases List.mem_cons.mp hy with rfl | hy
    · exact absurd rfl hne
    · exact Key.before_iff.mp (hs.2.1.1 y hy)

/-- Ranks and numbers say which task goes first, and so do priorities and places on the roll. -/
theorem goesFirst (h : Holds q xs) (hk : q.kind = .priority)
    (hx : xs.find? (eligible ·.2.vertex) = some x) (hperm : (as ++ x :: bs).Perm xs)
    (hs : (as ++ x :: bs).Pairwise (·.1 < ·.1)) :
    GoesFirst eligible (as.map Prod.snd) x.2 (bs.map Prod.snd) := by
  have hfinite : ∀ y ∈ as ++ x :: bs, y.2.priority.isFinite = true :=
    fun y hy => h.finite y (hperm.mem_iff.mp hy)
  have hfirst : ∀ y ∈ as ++ x :: bs, eligible y.2.vertex = true → y.1 ≠ x.1 → _ :=
    fun y hy => h.before_of_find? hk hx (hperm.mem_iff.mp hy)
  rw [List.pairwise_append, List.pairwise_cons] at hs
  obtain ⟨-, ⟨hxbs, -⟩, hasx⟩ := hs
  have hx' : x.2.priority.isFinite = true := hfinite x (by simp)
  have hless : ∀ y ∈ as, eligible y.2.vertex = true →
      Priority.rank y.2.priority < Priority.rank x.2.priority := by
    intro y hy he
    have hyx : y.1 < x.1 := hasx y hy x (by simp)
    have hrank := hfirst y (by simp [hy]) he (by omega)
    omega
  have hnotGreater : ∀ y ∈ bs, eligible y.2.vertex = true →
      ¬Priority.rank x.2.priority < Priority.rank y.2.priority := by
    intro y hy he
    have hxy : x.1 < y.1 := hxbs y hy
    have hrank := hfirst y (by simp [hy]) he (by omega)
    omega
  refine ⟨by simpa using List.find?_some hx, ?_, ?_, ?_⟩
  · intro u hu he hlt
    rcases List.mem_append.mp hu with hu | hu
    · obtain ⟨y, hy, rfl⟩ := List.mem_map.mp hu
      have hrank := rank_lt_of_lt hx' (hfinite y (by simp [hy])) hlt
      have := hless y hy he
      omega
    · obtain ⟨y, hy, rfl⟩ := List.mem_map.mp hu
      exact hnotGreater y hy he (rank_lt_of_lt hx' (hfinite y (by simp [hy])) hlt)
  · intro u hu he
    obtain ⟨y, hy, rfl⟩ := List.mem_map.mp hu
    exact (rank_lt_iff (hfinite y (by simp [hy])) hx').mp (hless y hy he)
  · intro u hu he hzeros
    obtain ⟨y, hy, rfl⟩ := List.mem_map.mp hu
    exact hnotGreater y hy he ((rank_lt_iff hx' (hfinite y (by simp [hy]))).mpr (.inr hzeros))

end TaskQueue.Holds

/-! ## The roll of a queue -/

/-- A queue in the order of priority and the roll of its tasks. -/
structure Enrolled (q : TaskQueue F) (roll : List (Task F)) : Prop where
  kind : q.kind = .priority
  numbered : ∃ xs zs : List (Nat × Task F), q.Holds xs ∧ zs.Perm xs ∧ zs.Pairwise (·.1 < ·.1) ∧
    roll = zs.map Prod.snd

namespace Enrolled

open TaskQueue

variable {q : TaskQueue F} {roll : List (Task F)}

theorem empty (policy : SchedulePolicy) :
    Enrolled (TaskQueue.empty .priority policy : TaskQueue F) [] :=
  ⟨rfl, [], [], .empty .priority policy, .refl _, .nil, rfl⟩

theorem clear (h : Enrolled q roll) : Enrolled q.clear [] :=
  ⟨h.kind, [], [], .clear q, .refl _, .nil, rfl⟩

theorem perm_toList (h : Enrolled q roll) : roll.Perm q.toList := by
  obtain ⟨xs, zs, hxs, hperm, -, rfl⟩ := h.numbered
  rw [hxs.toList]
  exact hperm.map Prod.snd

theorem finite (h : Enrolled q roll) : ∀ u ∈ roll, u.priority.isFinite = true := by
  obtain ⟨xs, zs, hxs, hperm, -, rfl⟩ := h.numbered
  intro u hu
  obtain ⟨x, hx, rfl⟩ := List.mem_map.mp hu
  exact hxs.finite x (hperm.mem_iff.mp hx)

/-- A task with a new number goes to the end of the roll. -/
theorem pairwise_concat {xs zs : List (Nat × Task F)} (hxs : q.Holds xs)
    (hsub : ∀ z ∈ zs, z ∈ xs) (hs : zs.Pairwise (·.1 < ·.1)) (t : Task F) :
    (zs ++ [(q.nextSeq, t)]).Pairwise (·.1 < ·.1) := by
  rw [List.pairwise_append]
  refine ⟨hs, List.pairwise_singleton .., fun z hz y hy => ?_⟩
  rw [List.mem_singleton.mp hy]
  exact hxs.lt_nextSeq (hsub z hz)

theorem perm_concat_place {xs zs : List (Nat × Task F)} (hperm : zs.Perm xs)
    (kind : SchedulerKind) (x : Nat × Task F) : (zs ++ [x]).Perm (place rankOf kind x xs) :=
  (List.perm_append_singleton x zs).trans ((hperm.cons x).trans (perm_place rankOf kind x xs).symm)

theorem push [DecidableEq F] (h : Enrolled q roll) (v : VertexId) (update : F)
    (priority : Float) :
    Enrolled (q.call (.push v update priority)).2
      (QueueCall.roll q.policy roll (.push v update priority)
        (q.call (.push v update priority)).1) := by
  obtain ⟨hk, xs, zs, hxs, hperm, hs, rfl⟩ := h
  obtain ⟨xs', hxs', hpushed⟩ := hxs.push v update priority
  obtain ⟨hkind, -⟩ := q.kind_push v update priority
  simp only [TaskQueue.call]
  generalize q.push v update priority = pushed at hkind hxs' hpushed ⊢
  obtain ⟨q', placement⟩ := pushed
  have hk' : q'.kind = .priority := hkind.trans hk
  cases hpushed with
  | enqueued hv =>
    refine ⟨hk', _, zs ++ [(q.nextSeq, _)], hxs', perm_concat_place hperm _ _,
      pairwise_concat hxs (fun z hz => hperm.mem_iff.mp hz) hs _, ?_⟩
    simp [QueueCall.roll]
  | @merged hd x hx hv hrise =>
    subst hv
    have hless : ¬x.2.priority < effectivePriority priority := fun hlt => hrise ⟨hk, hlt⟩
    refine ⟨hk', _, zs.map (changeAt x.1 (PendingList.refit q.policy update)), hxs',
      hperm.map _, ?_, ?_⟩
    · rw [List.pairwise_map]
      exact hs.imp fun hlt => by simpa only [changeAt_fst] using hlt
    · show mergedRoll _ _ _ _ _ = _
      rw [mergedRoll, hxs.find?_vertex hd hperm hx]
      simp only [if_neg hless]
      rw [hxs.map_snd_changeAt hd hperm hx]
  | @promoted hd x hx hv hrise =>
    subst hv
    refine ⟨hk', _, zs.filter (·.1 != x.1) ++ [(q.nextSeq, _)], hxs',
      perm_concat_place (hperm.filter _) _ _, pairwise_concat hxs
        (fun z hz => hperm.mem_iff.mp (List.mem_of_mem_filter hz)) (hs.filter _) _, ?_⟩
    show mergedRoll _ _ _ _ _ = _
    rw [mergedRoll, hxs.find?_vertex hd hperm hx]
    simp only [if_pos hrise.2]
    rw [List.map_append, hxs.map_snd_filter hd hperm hx]
    rfl

/-- A queue that answers with nothing has no eligible task. -/
theorem popWhere_none (h : Enrolled q roll) {eligible : VertexId → Bool}
    (hnone : (q.popWhere eligible).1 = none) :
    (∀ u ∈ roll, eligible u.vertex = false) ∧ Enrolled (q.popWhere eligible).2 roll := by
  obtain ⟨hk, xs, zs, hxs, hperm, hs, rfl⟩ := h
  obtain ⟨hfound, hrest⟩ := hxs.popWhere eligible
  rw [hfound, Option.map_eq_none_iff, List.find?_eq_none] at hnone
  rw [List.eraseP_of_forall_not hnone] at hrest
  refine ⟨fun u hu => ?_, (q.kind_popWhere eligible).1.trans hk, xs, zs, hrest, hperm, hs, rfl⟩
  obtain ⟨x, hx, rfl⟩ := List.mem_map.mp hu
  simpa using hnone x (hperm.mem_iff.mp hx)

/-- The task that a queue answers with, and its place on the roll. -/
theorem popWhere_some (h : Enrolled q roll) {eligible : VertexId → Bool} {t : Task F}
    (ht : (q.popWhere eligible).1 = some t) :
    ∃ older younger, roll = older ++ t :: younger ∧ GoesFirst eligible older t younger ∧
      Enrolled (q.popWhere eligible).2 (older ++ younger) := by
  obtain ⟨hk, xs, zs, hxs, hperm, hs, rfl⟩ := h
  obtain ⟨hfound, hrest⟩ := hxs.popWhere eligible
  rw [hfound, Option.map_eq_some_iff] at ht
  obtain ⟨x, hx, rfl⟩ := ht
  obtain ⟨as, bs, rfl⟩ := List.append_of_mem (hperm.mem_iff.mpr (List.mem_of_find?_eq_some hx))
  refine ⟨as.map Prod.snd, bs.map Prod.snd, by simp, hxs.goesFirst hk hx hperm hs,
    (q.kind_popWhere eligible).1.trans hk, _, as ++ bs, hrest, ?_, ?_, by simp⟩
  · exact (List.perm_middle.symm.trans (hperm.trans (perm_cons_eraseP hx))).cons_inv
  · exact hs.sublist ((List.sublist_cons_self x bs).append_left as)

/-- Taking a task strikes it off the roll. -/
theorem popWhere [DecidableEq F] (h : Enrolled q roll) (eligible : VertexId → Bool) :
    Enrolled (q.popWhere eligible).2 (strike (q.popWhere eligible).1 roll) := by
  cases ht : (q.popWhere eligible).1 with
  | none => exact (h.popWhere_none ht).2
  | some t =>
    obtain ⟨older, younger, rfl, hfirst, hrest⟩ := h.popWhere_some ht
    show Enrolled _ ((older ++ t :: younger).erase t)
    rw [hfirst.erase_eq]
    exact hrest

/-- One call. -/
theorem call [DecidableEq F] (h : Enrolled q roll) (c : QueueCall F) :
    Enrolled (q.call c).2 (c.roll q.policy roll (q.call c).1) := by
  cases c with
  | push v update priority => exact h.push v update priority
  | pop => exact h.popWhere fun _ => true
  | popWhere eligible => exact h.popWhere eligible
  | clear => exact h.clear
  | size => exact h
  | isEmpty => exact h
  | contains v => exact h

/-- A whole sequence of calls. -/
theorem after [DecidableEq F] (h : Enrolled q roll) (cs : List (QueueCall F)) :
    Enrolled (q.after cs) (q.roll roll cs) := by
  induction cs generalizing q roll with
  | nil => exact h
  | cons c cs ih => exact ih (h.call c)

end Enrolled

/-- Under the priority order a queue answers with an eligible task of the greatest priority, and
among tasks of equal priority with the one that got it first, but that a negative zero goes behind
every zero. -/
theorem ties_in_order [DecidableEq F] (policy : SchedulePolicy) (cs : List (QueueCall F))
    (eligible : VertexId → Bool) :
    let new : TaskQueue F := .empty .priority policy
    (new.roll [] cs).Perm (new.after cs).toList ∧
      (∀ u ∈ new.roll [] cs, u.priority.isFinite = true) ∧
      match ((new.after cs).popWhere eligible).1 with
      | none => ∀ u ∈ new.roll [] cs, eligible u.vertex = false
      | some t => ∃ older younger,
          new.roll [] cs = older ++ t :: younger ∧ GoesFirst eligible older t younger := by
  intro new
  have h : Enrolled (new.after cs) (new.roll [] cs) := (Enrolled.empty policy).after cs
  refine ⟨h.perm_toList, h.finite, ?_⟩
  split
  · rename_i hnone
    exact (h.popWhere_none hnone).1
  · rename_i t ht
    obtain ⟨older, younger, hroll, hfirst, -⟩ := h.popWhere_some ht
    exact ⟨older, younger, hroll, hfirst⟩

/-- Two equal priorities, of which the younger goes first: the zeros. -/
theorem younger_zero_first :
    let calls : List (QueueCall String) := [.push 0 "a" (-0.0), .push 1 "b" 0.0]
    let new : TaskQueue String := .empty .priority .coalesce
    ((-0.0 : Float) == 0.0) = true ∧
      new.roll [] calls = [⟨0, "a", -0.0⟩, ⟨1, "b", 0.0⟩] ∧
      (new.after calls).pop.1 = some ⟨1, "b", 0.0⟩ := by
  decide +kernel

end VertexEngine
