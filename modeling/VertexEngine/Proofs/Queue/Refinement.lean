import VertexEngine.Proofs.Queue.Representation

/-!
# Queues against pending lists

A queue and a pending list of the same kind and policy give the same answers to the same calls, for
every sequence of calls.  The relation that every call keeps is `Represents`: the list is what the
queue holds, without the numbers.

* The first group carries the list operations of `Holds` over to lists without numbers.
* `Pushed` says what a request does to the numbered tasks, and `Holds.push` that it does.
* `Represents.push`, `Represents.popWhere` and their neighbours are the calls one by one.
* `QueueCall` is the interface, and `answers_empty_eq` is the result for whole sequences of calls.
-/

namespace VertexEngine

variable {F : Type}

/-! ## Lists without numbers -/

theorem PendingList.insert_eq_place (kind : SchedulerKind) (t : Task F) (tasks : List (Task F)) :
    insert kind t tasks = place (fun u => Priority.rank u.priority) kind t tasks := by
  cases kind <;> rfl

theorem PendingList.vertex_refit (policy : SchedulePolicy) (update : F) (t : Task F) :
    (refit policy update t).vertex = t.vertex := by
  unfold refit
  split <;> rfl

theorem PendingList.priority_refit (policy : SchedulePolicy) (update : F) (t : Task F) :
    (refit policy update t).priority = t.priority := by
  unfold refit
  split <;> rfl

/-- In the order of arrival a merged request leaves its task in its place. -/
theorem PendingList.merge_of_fifo {p : PendingList F} (hk : p.kind = .fifo) {v : VertexId}
    {t : Task F} (ht : p.tasks.find? (·.vertex == v) = some t) (update : F) (priority : Float) :
    p.merge v update priority = { p with
      tasks := p.tasks.map fun u => if u.vertex == v then refit p.policy update u else u } := by
  simp only [merge, ht]
  rw [if_neg (by simp [hk])]

/-- When at most one element has a property, taking the first of them out takes out all. -/
theorem eraseP_eq_filter {α : Type} {p : α → Bool} {xs : List α}
    (h : xs.Pairwise fun a b => ¬(p a = true ∧ p b = true)) :
    xs.eraseP p = xs.filter fun a => !p a := by
  induction xs with
  | nil => rfl
  | cons a xs ih =>
    rw [List.pairwise_cons] at h
    cases ha : p a with
    | true =>
      have hrest : xs.filter (fun b => !p b) = xs :=
        List.filter_eq_self.mpr fun b hb => by
          simpa using fun hpb => h.1 b hb ⟨ha, hpb⟩
      simp [ha, hrest]
    | false => simp [ha, ih h.2]

namespace TaskQueue

variable {q : TaskQueue F} {xs : List (Nat × Task F)}

theorem map_snd_place (kind : SchedulerKind) (x : Nat × Task F) (xs : List (Nat × Task F)) :
    (place rankOf kind x xs).map Prod.snd = PendingList.insert kind x.2 (xs.map Prod.snd) := by
  rw [PendingList.insert_eq_place]
  exact map_place Prod.snd (fun t : Task F => Priority.rank t.priority) kind x xs

namespace Holds

/-- With one task a vertex, the number of a pending task tells as much as its vertex. -/
theorem fst_eq_iff (h : Holds q xs) (hd : q.policy.isDeduplicating = true) {x y : Nat × Task F}
    (hx : x ∈ xs) (hy : y ∈ xs) : x.1 = y.1 ↔ x.2.vertex = y.2.vertex :=
  ⟨fun he => by rw [h.eq_of_fst_eq hx hy he], fun he => by rw [h.eq_of_vertex_eq hd hx hy he]⟩

/-! The next three hold of the tasks in any sequence, not only in the one in which they go. -/

theorem map_snd_changeAt (h : Holds q xs) (hd : q.policy.isDeduplicating = true)
    {zs : List (Nat × Task F)} (hp : zs.Perm xs) {x : Nat × Task F} (hx : x ∈ xs)
    (f : Task F → Task F) :
    (zs.map (changeAt x.1 f)).map Prod.snd =
      (zs.map Prod.snd).map fun u => if u.vertex == x.2.vertex then f u else u := by
  rw [List.map_map, List.map_map]
  refine List.map_congr_left fun y hy => ?_
  simp only [Function.comp_apply, changeAt, h.fst_eq_iff hd (hp.mem_iff.mp hy) hx, beq_iff_eq]
  split <;> rfl

theorem map_snd_filter (h : Holds q xs) (hd : q.policy.isDeduplicating = true)
    {zs : List (Nat × Task F)} (hp : zs.Perm xs) {x : Nat × Task F} (hx : x ∈ xs) :
    (zs.filter (·.1 != x.1)).map Prod.snd =
      (zs.map Prod.snd).eraseP (·.vertex == x.2.vertex) := by
  have hone : zs.Pairwise fun a b =>
      ¬((a.2.vertex == x.2.vertex) = true ∧ (b.2.vertex == x.2.vertex) = true) := by
    refine (hp.nodup_iff.mpr h.nodup_list).imp_of_mem fun {a b} ha hb hab hv => hab ?_
    exact h.eq_of_vertex_eq hd (hp.mem_iff.mp ha) (hp.mem_iff.mp hb)
      (by rw [eq_of_beq hv.1, eq_of_beq hv.2])
  have hfilter : zs.filter (·.1 != x.1) = zs.filter fun a => !(a.2.vertex == x.2.vertex) := by
    refine List.filter_congr fun a ha => ?_
    rw [Bool.eq_iff_iff, bne_iff_ne, ne_eq, h.fst_eq_iff hd (hp.mem_iff.mp ha) hx]
    simp
  rw [hfilter, ← eraseP_eq_filter hone, List.eraseP_map]
  rfl

theorem find?_vertex (h : Holds q xs) (hd : q.policy.isDeduplicating = true)
    {zs : List (Nat × Task F)} (hp : zs.Perm xs) {x : Nat × Task F} (hx : x ∈ xs) :
    (zs.map Prod.snd).find? (·.vertex == x.2.vertex) = some x.2 := by
  rw [List.find?_map]
  cases hf : zs.find? ((·.vertex == x.2.vertex) ∘ Prod.snd) with
  | none => simpa using List.find?_eq_none.mp hf x (hp.mem_iff.mpr hx)
  | some y =>
    have hyx : y.2.vertex = x.2.vertex := by simpa using List.find?_some hf
    rw [h.eq_of_vertex_eq hd (hp.mem_iff.mp (List.mem_of_find?_eq_some hf)) hx hyx]
    rfl

end Holds

/-! ## Requests -/

theorem isFinite_effectivePriority (priority : Float) :
    (effectivePriority priority).isFinite = true := by
  unfold effectivePriority
  split
  · assumption
  · decide +kernel

/-- What becomes of a request that meets the numbered tasks `xs`, and the tasks after it. -/
inductive Pushed (q : TaskQueue F) (xs : List (Nat × Task F)) (v : VertexId) (update : F)
    (priority : Float) : Placement → List (Nat × Task F) → Prop
  | enqueued (hv : q.policy.isDeduplicating = true → ∀ x ∈ xs, x.2.vertex ≠ v) :
    Pushed q xs v update priority .enqueued
      (place rankOf q.kind (q.nextSeq, ⟨v, update, priority⟩) xs)
  | merged (hd : q.policy.isDeduplicating = true) {x : Nat × Task F} (hx : x ∈ xs)
    (hv : x.2.vertex = v) (hrise : ¬(q.kind = .priority ∧ x.2.priority < priority)) :
    Pushed q xs v update priority .merged
      (xs.map (changeAt x.1 (PendingList.refit q.policy update)))
  | promoted (hd : q.policy.isDeduplicating = true) {x : Nat × Task F} (hx : x ∈ xs)
    (hv : x.2.vertex = v) (hrise : q.kind = .priority ∧ x.2.priority < priority) :
    Pushed q xs v update priority .promoted
      (place rankOf q.kind (q.nextSeq, { PendingList.refit q.policy update x.2 with priority })
        (xs.filter (·.1 != x.1)))

/-- A request that finds its vertex pending is merged into the pending task, which may rise. -/
theorem Holds.merge (h : Holds q xs) (hd : q.policy.isDeduplicating = true) {x : Nat × Task F}
    (hx : x ∈ xs) (update : F) {priority : Float} (hfin : priority.isFinite = true) :
    ∃ xs', Holds (q.merge x.1 update priority).1 xs' ∧
      Pushed q xs x.2.vertex update priority (q.merge x.1 update priority).2 xs' := by
  obtain ⟨n, t⟩ := x
  have hrefit : (if q.policy = .replace then { t with update } else t) =
      PendingList.refit q.policy update t := rfl
  simp only [TaskQueue.merge, (h.entry n t).mpr hx, hrefit, Bool.and_eq_true, decide_eq_true_iff]
  by_cases hrise : q.kind = .priority ∧ t.priority < priority
  · rw [if_pos hrise]
    exact ⟨_, h.push_promoted hrise.1 hd hx
      (t := { PendingList.refit q.policy update t with priority })
      (PendingList.vertex_refit q.policy update t) hfin, .promoted hd hx rfl hrise⟩
  · rw [if_neg hrise]
    exact ⟨_, h.swap hx (PendingList.refit q.policy update) (PendingList.vertex_refit _ _)
      (PendingList.priority_refit _ _), .merged hd hx rfl hrise⟩

theorem Holds.push (h : Holds q xs) (v : VertexId) (update : F) (priority : Float) :
    ∃ xs', Holds (q.push v update priority).1 xs' ∧
      Pushed q xs v update (effectivePriority priority) (q.push v update priority).2 xs' := by
  have hfin := isFinite_effectivePriority priority
  simp only [TaskQueue.push]
  split
  · rename_i seq hseq
    split at hseq
    · rename_i hd
      obtain ⟨-, t, ht, rfl⟩ := (h.index v seq).mp hseq
      exact h.merge hd ht update hfin
    · cases hseq
  · rename_i hnone
    have hv : q.byVertex[v]? = none := by
      cases hb : q.byVertex[v]? with
      | none => rfl
      | some n =>
        rw [if_pos ((h.index v n).mp hb).1, hb] at hnone
        cases hnone
    refine ⟨_, h.push_new hv rfl hfin, .enqueued fun hd x hx hxv => ?_⟩
    have hsome := (h.index v x.1).mpr ⟨hd, x.2, hx, hxv⟩
    rw [hv] at hsome
    cases hsome

theorem kind_push (q : TaskQueue F) (v : VertexId) (update : F) (priority : Float) :
    (q.push v update priority).1.kind = q.kind ∧
      (q.push v update priority).1.policy = q.policy := by
  simp only [TaskQueue.push, TaskQueue.merge]
  split
  · split
    · exact ⟨rfl, rfl⟩
    · split <;> exact ⟨rfl, rfl⟩
  · exact ⟨rfl, rfl⟩

theorem kind_popWhere (q : TaskQueue F) (eligible : VertexId → Bool) :
    (q.popWhere eligible).2.kind = q.kind ∧ (q.popWhere eligible).2.policy = q.policy := by
  simp only [TaskQueue.popWhere, TaskQueue.take]
  split
  · exact ⟨rfl, rfl⟩
  · split <;> exact ⟨rfl, rfl⟩

end TaskQueue

/-! ## The calls one by one -/

/-- The list is what the queue holds. -/
structure Represents (q : TaskQueue F) (p : PendingList F) : Prop where
  kind : p.kind = q.kind
  policy : p.policy = q.policy
  holds : ∃ xs, q.Holds xs ∧ p.tasks = xs.map Prod.snd

namespace Represents

variable {q : TaskQueue F} {p : PendingList F}

theorem empty (kind : SchedulerKind) (policy : SchedulePolicy) :
    Represents (.empty kind policy : TaskQueue F) ⟨kind, policy, []⟩ :=
  ⟨rfl, rfl, [], .empty kind policy, rfl⟩

theorem clear (h : Represents q p) : Represents q.clear p.clear :=
  ⟨h.kind, h.policy, [], .clear q, rfl⟩

theorem toList_eq (h : Represents q p) : q.toList = p.tasks := by
  obtain ⟨xs, hxs, hp⟩ := h.holds
  rw [hxs.toList, hp]

/-- A policy that allows one task a vertex has no more. -/
theorem nodup_vertices (h : Represents q p) (hd : p.policy.isDeduplicating = true) :
    (p.tasks.map Task.vertex).Nodup := by
  obtain ⟨xs, hxs, hp⟩ := h.holds
  rw [hp, List.map_map]
  exact hxs.nodup_list.map_on fun x hx y hy hv => hxs.eq_of_vertex_eq (h.policy ▸ hd) hx hy hv

/-- Under the priority order the tasks go down in rank. -/
theorem pairwise_rank (h : Represents q p) (hk : p.kind = .priority) :
    p.tasks.Pairwise fun t u => Priority.rank u.priority ≤ Priority.rank t.priority := by
  obtain ⟨xs, hxs, hp⟩ := h.holds
  rw [hp, List.pairwise_map]
  refine (hxs.pairwise_before (h.kind.symm.trans hk)).imp fun {x y} hxy => ?_
  have hrank := Key.before_iff.mp hxy
  simp only [TaskQueue.keyOf] at hrank
  omega

theorem isFinite_priority (h : Represents q p) : ∀ t ∈ p.tasks, t.priority.isFinite = true := by
  obtain ⟨xs, hxs, hp⟩ := h.holds
  intro t ht
  rw [hp] at ht
  obtain ⟨x, hx, rfl⟩ := List.mem_map.mp ht
  exact hxs.finite x hx

theorem size_eq (h : Represents q p) : q.size = p.tasks.length := by
  obtain ⟨xs, hxs, hp⟩ := h.holds
  rw [hxs.size_eq, hp, List.length_map]

theorem isEmpty_eq (h : Represents q p) : q.isEmpty = p.tasks.isEmpty := by
  have hsize : q.isEmpty = (q.size == 0) := Std.TreeMap.isEmpty_eq_size_eq_zero
  rw [hsize, h.size_eq]
  cases p.tasks <;> rfl

theorem contains_eq (h : Represents q p) (v : VertexId) : q.contains v = p.contains v := by
  obtain ⟨xs, hxs, hp⟩ := h.holds
  simp only [TaskQueue.contains, PendingList.contains, hp]
  split
  · rename_i hd
    rw [Std.TreeMap.contains_eq_isSome_getElem?, hxs.isSome_byVertex hd, List.any_map]
    rfl
  · rw [Bool.eq_iff_iff, List.any_eq_true, List.any_eq_true]
    constructor
    · rintro ⟨x, hx, hv⟩
      rw [Std.TreeMap.mem_toList_iff_getElem?_eq_some, hxs.entry] at hx
      exact ⟨x.2, List.mem_map_of_mem hx, hv⟩
    · rintro ⟨t, ht, hv⟩
      obtain ⟨x, hx, rfl⟩ := List.mem_map.mp ht
      refine ⟨x, ?_, hv⟩
      rw [Std.TreeMap.mem_toList_iff_getElem?_eq_some, hxs.entry]
      exact hx

theorem popWhere (h : Represents q p) (eligible : VertexId → Bool) :
    (q.popWhere eligible).1 = (p.popWhere eligible).1 ∧
      Represents (q.popWhere eligible).2 (p.popWhere eligible).2 := by
  obtain ⟨xs, hxs, hp⟩ := h.holds
  obtain ⟨hfound, hrest⟩ := hxs.popWhere eligible
  have hframe := q.kind_popWhere eligible
  refine ⟨?_, h.kind.trans hframe.1.symm, h.policy.trans hframe.2.symm, _, hrest, ?_⟩
  · rw [hfound, PendingList.popWhere, hp, List.find?_map]
    rfl
  · rw [PendingList.popWhere, hp, List.eraseP_map]
    rfl

/-- A request becomes a task or is merged, as the list says. -/
theorem push (h : Represents q p) (v : VertexId) (update : F) (priority : Float) :
    ((q.push v update priority).2 = .enqueued ↔ (p.push v update priority).2 = true) ∧
      Represents (q.push v update priority).1 (p.push v update priority).1 := by
  obtain ⟨kind, policy, tasks⟩ := p
  obtain ⟨rfl, rfl, xs, hxs, rfl⟩ := h
  obtain ⟨xs', hxs', hpushed⟩ := hxs.push v update priority
  obtain ⟨hkind, hpolicy⟩ := q.kind_push v update priority
  have hcontains : (PendingList.mk q.kind q.policy (xs.map Prod.snd)).contains v = true ↔
      ∃ x ∈ xs, x.2.vertex = v := by
    simp [PendingList.contains]
  have hfind : ∀ x ∈ xs, q.policy.isDeduplicating = true →
      (xs.map Prod.snd).find? (·.vertex == x.2.vertex) = some x.2 :=
    fun x hx hd => hxs.find?_vertex hd (.refl _) hx
  simp only [PendingList.push, Bool.and_eq_true, hcontains, PendingList.merge]
  change q.Pushed xs v update (if priority.isFinite then priority else Priority.default) _ _
    at hpushed
  generalize (if priority.isFinite = true then priority else Priority.default) = effective
    at hpushed ⊢
  generalize q.push v update priority = pushed at hkind hpolicy hxs' hpushed ⊢
  obtain ⟨q', placement⟩ := pushed
  cases hpushed with
  | enqueued hv =>
    rw [if_neg fun ⟨hd, x, hx, hxv⟩ => hv hd x hx hxv]
    refine ⟨by simp, hkind.symm, hpolicy.symm, _, hxs', ?_⟩
    rw [TaskQueue.map_snd_place]
  | @merged hd x hx hv hrise =>
    subst hv
    rw [if_pos ⟨hd, x, hx, rfl⟩, hfind x hx hd]
    refine ⟨by simp, ?_⟩
    show Represents q' (if _ then _ else _)
    rw [if_neg (by simpa using hrise)]
    refine ⟨hkind.symm, hpolicy.symm, _, hxs', ?_⟩
    rw [hxs.map_snd_changeAt hd (.refl _) hx]
  | @promoted hd x hx hv hrise =>
    subst hv
    rw [if_pos ⟨hd, x, hx, rfl⟩, hfind x hx hd]
    refine ⟨by simp, ?_⟩
    show Represents q' (if _ then _ else _)
    rw [if_pos (by simpa using hrise)]
    refine ⟨hkind.symm, hpolicy.symm, _, hxs', ?_⟩
    rw [TaskQueue.map_snd_place, hxs.map_snd_filter hd (.refl _) hx, hrise.1]
    rfl

end Represents

/-! ## Sequences of calls -/

/-- A call of a queue. -/
inductive QueueCall (F : Type) where
  | push (vertex : VertexId) (update : F) (priority : Float)
  | pop
  | popWhere (eligible : VertexId → Bool)
  | clear
  | size
  | isEmpty
  | contains (vertex : VertexId)

/-- What the caller learns. -/
inductive QueueAnswer (F : Type) where
  /-- Whether a task was added. -/
  | added (b : Bool)
  | task (t : Option (Task F))
  /-- How many tasks are pending, or were dropped. -/
  | count (n : Nat)
  | flag (b : Bool)

/-- A call of a queue, with its answer. -/
def TaskQueue.call (q : TaskQueue F) : QueueCall F → QueueAnswer F × TaskQueue F
  | .push v update priority =>
    let (q, placement) := q.push v update priority
    (.added (placement = .enqueued), q)
  | .pop =>
    let (found, q) := q.pop
    (.task found, q)
  | .popWhere eligible =>
    let (found, q) := q.popWhere eligible
    (.task found, q)
  | .clear => (.count q.size, q.clear)
  | .size => (.count q.size, q)
  | .isEmpty => (.flag q.isEmpty, q)
  | .contains v => (.flag (q.contains v), q)

/-- The same call of a pending list. -/
def PendingList.call (p : PendingList F) : QueueCall F → QueueAnswer F × PendingList F
  | .push v update priority =>
    let (p, added) := p.push v update priority
    (.added added, p)
  | .pop =>
    let (found, p) := p.popWhere fun _ => true
    (.task found, p)
  | .popWhere eligible =>
    let (found, p) := p.popWhere eligible
    (.task found, p)
  | .clear => (.count p.tasks.length, p.clear)
  | .size => (.count p.tasks.length, p)
  | .isEmpty => (.flag p.tasks.isEmpty, p)
  | .contains v => (.flag (p.contains v), p)

/-- The answers to a sequence of calls, each made in the state the one before it left. -/
def TaskQueue.answers (q : TaskQueue F) : List (QueueCall F) → List (QueueAnswer F)
  | [] => []
  | c :: cs => (q.call c).1 :: (q.call c).2.answers cs

def PendingList.answers (p : PendingList F) : List (QueueCall F) → List (QueueAnswer F)
  | [] => []
  | c :: cs => (p.call c).1 :: (p.call c).2.answers cs

theorem Represents.call {q : TaskQueue F} {p : PendingList F} (h : Represents q p)
    (c : QueueCall F) : (q.call c).1 = (p.call c).1 ∧ Represents (q.call c).2 (p.call c).2 := by
  cases c with
  | push v update priority =>
    obtain ⟨hadded, hrest⟩ := h.push v update priority
    have hadded' : decide ((q.push v update priority).2 = .enqueued) =
        (p.push v update priority).2 := by
      rw [Bool.eq_iff_iff, decide_eq_true_iff]
      exact hadded
    exact ⟨congrArg QueueAnswer.added hadded', hrest⟩
  | pop =>
    obtain ⟨hfound, hrest⟩ := h.popWhere fun _ => true
    exact ⟨congrArg QueueAnswer.task hfound, hrest⟩
  | popWhere eligible =>
    obtain ⟨hfound, hrest⟩ := h.popWhere eligible
    exact ⟨congrArg QueueAnswer.task hfound, hrest⟩
  | clear => exact ⟨congrArg QueueAnswer.count h.size_eq, h.clear⟩
  | size => exact ⟨congrArg QueueAnswer.count h.size_eq, h⟩
  | isEmpty => exact ⟨congrArg QueueAnswer.flag h.isEmpty_eq, h⟩
  | contains v => exact ⟨congrArg QueueAnswer.flag (h.contains_eq v), h⟩

/-- The queue after a sequence of calls. -/
def TaskQueue.after (q : TaskQueue F) : List (QueueCall F) → TaskQueue F
  | [] => q
  | c :: cs => (q.call c).2.after cs

theorem TaskQueue.kind_call (q : TaskQueue F) (c : QueueCall F) :
    (q.call c).2.kind = q.kind ∧ (q.call c).2.policy = q.policy := by
  cases c with
  | push v update priority => exact q.kind_push v update priority
  | pop => exact q.kind_popWhere fun _ => true
  | popWhere eligible => exact q.kind_popWhere eligible
  | clear | size | isEmpty | contains => exact ⟨rfl, rfl⟩

theorem TaskQueue.kind_after (q : TaskQueue F) (cs : List (QueueCall F)) :
    (q.after cs).kind = q.kind ∧ (q.after cs).policy = q.policy := by
  induction cs generalizing q with
  | nil => exact ⟨rfl, rfl⟩
  | cons c cs ih =>
    obtain ⟨hkind, hpolicy⟩ := ih (q.call c).2
    exact ⟨hkind.trans (q.kind_call c).1, hpolicy.trans (q.kind_call c).2⟩

theorem Represents.after {q : TaskQueue F} {p : PendingList F} (h : Represents q p)
    (cs : List (QueueCall F)) : ∃ p', Represents (q.after cs) p' := by
  induction cs generalizing q p with
  | nil => exact ⟨p, h⟩
  | cons c cs ih => exact ih (h.call c).2

theorem Represents.answers_eq {q : TaskQueue F} {p : PendingList F} (h : Represents q p)
    (cs : List (QueueCall F)) : q.answers cs = p.answers cs := by
  induction cs generalizing q p with
  | nil => rfl
  | cons c cs ih =>
    obtain ⟨hanswer, hrest⟩ := h.call c
    rw [TaskQueue.answers, PendingList.answers, hanswer, ih hrest]

/-- A new queue gives the answers of an empty list, whatever is asked of it. -/
theorem answers_empty_eq (kind : SchedulerKind) (policy : SchedulePolicy)
    (cs : List (QueueCall F)) :
    (TaskQueue.empty kind policy).answers cs = (PendingList.mk kind policy []).answers cs :=
  (Represents.empty kind policy).answers_eq cs

end VertexEngine
