import VertexEngine.Proofs.Queue.Refinement

/-!
# The parts of a queue belong together

A queue keeps its tasks in three places: in the tree of entries, in the order of keys, and in the
index by vertex.  Whatever is called, these places tell of the same tasks.  A promotion leaves a key
behind, but its number is never used again, so it cannot be taken for the key of another task.

* `Descends` says that numbers are not used twice, which needs no invariant.
* `Upholds` is what a call keeps: `Holds`, with what is true of all keys, stale ones included.
* `Intact` says in full how the parts of a queue belong together, and `after_intact` is the result.
-/

namespace VertexEngine

namespace TaskQueue

variable {F : Type} {q q' q'' : TaskQueue F} {xs xs' : List (Nat × Task F)}

/-! ## Numbers -/

/-- The numbers that the entries of a later queue have were in use before, or are new. -/
structure Descends (q q' : TaskQueue F) : Prop where
  nextSeq : q.nextSeq ≤ q'.nextSeq
  entries : ∀ n, q'.entries.contains n = true → q.entries.contains n = true ∨ q.nextSeq ≤ n

namespace Descends

theorem refl (q : TaskQueue F) : Descends q q :=
  ⟨Nat.le_refl _, fun _ hn => .inl hn⟩

theorem trans (h : Descends q q') (h' : Descends q' q'') : Descends q q'' := by
  refine ⟨Nat.le_trans h.nextSeq h'.nextSeq, ?_⟩
  intro n hn
  rcases h'.entries n hn with hn | hn
  · exact h.entries n hn
  · exact .inr (Nat.le_trans h.nextSeq hn)

theorem insert (h : Descends q q') (hnext : q'.nextSeq = q.nextSeq) (t : Task F) :
    Descends q (q'.insert t) := by
  refine ⟨Nat.le_succ_of_le h.nextSeq, ?_⟩
  intro n hn
  simp only [TaskQueue.insert, Std.TreeMap.contains_insert, Bool.or_eq_true, beq_iff_eq,
    Nat.compare_eq_eq] at hn
  rcases hn with rfl | hn
  · exact .inr (Nat.le_of_eq hnext.symm)
  · exact h.entries n hn

theorem erase (q : TaskQueue F) (n : Nat) (order : Order) (byVertex : Std.TreeMap VertexId Nat) :
    Descends q { q with order, entries := q.entries.erase n, byVertex } := by
  refine ⟨Nat.le_refl _, ?_⟩
  intro m hm
  exact .inl (Std.TreeMap.contains_of_contains_erase hm)

theorem push (q : TaskQueue F) (v : VertexId) (update : F) (priority : Float) :
    Descends q (q.push v update priority).1 := by
  simp only [TaskQueue.push, TaskQueue.merge]
  split
  · split
    · exact .refl q
    · rename_i hpending
      split
      · exact (erase q _ q.order q.byVertex).insert rfl _
      · refine ⟨Nat.le_refl _, ?_⟩
        intro n hn
        simp only [Std.TreeMap.contains_insert, Bool.or_eq_true, beq_iff_eq,
          Nat.compare_eq_eq] at hn
        rcases hn with rfl | hn
        · rw [Std.TreeMap.contains_eq_isSome_getElem?, hpending]
          exact .inl rfl
        · exact .inl hn
  · exact (refl q).insert rfl _

theorem popWhere (q : TaskQueue F) (eligible : VertexId → Bool) :
    Descends q (q.popWhere eligible).2 := by
  simp only [TaskQueue.popWhere, TaskQueue.take]
  split
  · exact ⟨Nat.le_refl _, fun _ hn => .inl hn⟩
  · split
    · exact ⟨Nat.le_refl _, fun _ hn => .inl hn⟩
    · exact erase q _ _ _

theorem clear (q : TaskQueue F) : Descends q q.clear := by
  refine ⟨Nat.le_refl _, ?_⟩
  intro n hn
  simp [TaskQueue.clear] at hn

theorem call (q : TaskQueue F) (c : QueueCall F) : Descends q (q.call c).2 := by
  cases c with
  | push v update priority => exact push q v update priority
  | pop => exact popWhere q fun _ => true
  | popWhere eligible => exact popWhere q eligible
  | clear => exact clear q
  | size | isEmpty | contains => exact refl q

theorem after (q : TaskQueue F) (cs : List (QueueCall F)) : Descends q (q.after cs) := by
  induction cs generalizing q with
  | nil => exact refl q
  | cons c cs ih => exact (call q c).trans (ih _)

end Descends

/-! ## Keys -/

/-- A request adds at most one key, with the priority that it asks for. -/
theorem finite_keys_push (hq : ∀ k ∈ q.order.keys, k.priority.isFinite = true) (v : VertexId)
    (update : F) (priority : Float) :
    ∀ k ∈ (q.push v update priority).1.order.keys, k.priority.isFinite = true := by
  have hinsert : ∀ n u, ∀ k ∈ (q.order.insert ⟨effectivePriority priority, n, u⟩).keys,
      k.priority.isFinite = true := by
    intro n u k hk
    rcases List.mem_cons.mp ((q.order.keys_insert _).mem_iff.mp hk) with rfl | hk
    · exact isFinite_effectivePriority priority
    · exact hq k hk
  simp only [TaskQueue.push, TaskQueue.merge]
  split
  · split
    · exact hq
    · split
      · exact hinsert _ _
      · exact hq
  · exact hinsert _ _

/-- No key is made when a task is taken out. -/
theorem Holds.keys_popWhere (h : Holds q xs) (eligible : VertexId → Bool) :
    ∀ k ∈ (q.popWhere eligible).2.order.keys, k ∈ q.order.keys := by
  have hsub := (h.lists.yields h.live_keyOf (eligible ·.vertex)).subperm
  intro k hk
  refine hsub.subset (List.mem_append_right _ ?_)
  simp only [TaskQueue.popWhere, TaskQueue.take] at hk
  split at hk
  · exact hk
  · split at hk
    · exact hk
    · exact hk

/-- A first-in first-out order has no stale keys. -/
theorem Holds.keys_fifo (h : Holds q xs) (hk : q.kind = .fifo) : q.order.keys = xs.map keyOf := by
  have hlists := h.lists
  rw [hk] at hlists
  revert hlists
  cases q.order with
  | fifo front back =>
    rintro ⟨hlists⟩
    exact hlists
  | priority heap => rintro ⟨⟩

/-- A queue holds these numbered tasks, and also its stale keys are in order. -/
structure Upholds (q : TaskQueue F) (xs : List (Nat × Task F)) : Prop extends Holds q xs where
  ascending : q.kind = .fifo → xs.Pairwise (·.1 < ·.1)
  finiteKeys : ∀ k ∈ q.order.keys, k.priority.isFinite = true

namespace Upholds

theorem empty (kind : SchedulerKind) (policy : SchedulePolicy) :
    Upholds (.empty kind policy : TaskQueue F) [] := by
  refine ⟨.empty kind policy, fun _ => .nil, ?_⟩
  cases kind <;> simp [TaskQueue.empty, Order.empty, Order.keys, Heap.keys]

theorem push (h : Upholds q xs) (v : VertexId) (update : F) (priority : Float) :
    ∃ xs', Upholds (q.push v update priority).1 xs' := by
  obtain ⟨xs', hholds, hpushed⟩ := h.toHolds.push v update priority
  refine ⟨xs', hholds, ?_, finite_keys_push h.finiteKeys v update priority⟩
  rw [(q.kind_push v update priority).1]
  intro hk
  have hascending := h.ascending hk
  revert hpushed
  generalize (q.push v update priority).2 = placement
  intro hpushed
  cases hpushed with
  | enqueued =>
    rw [hk]
    refine List.pairwise_append.mpr ⟨hascending, List.pairwise_singleton _ _, ?_⟩
    intro x hx y hy
    rw [List.mem_singleton.mp hy]
    exact h.lt_nextSeq hx
  | merged =>
    rw [List.pairwise_map]
    simpa only [changeAt_fst] using hascending
  | promoted _ _ _ hrise => cases hk.symm.trans hrise.1

theorem popWhere (h : Upholds q xs) (eligible : VertexId → Bool) :
    ∃ xs', Upholds (q.popWhere eligible).2 xs' := by
  obtain ⟨-, hholds⟩ := h.toHolds.popWhere eligible
  refine ⟨_, hholds, ?_, fun k hk => h.finiteKeys k (h.keys_popWhere eligible k hk)⟩
  rw [(q.kind_popWhere eligible).1]
  intro hk
  exact (h.ascending hk).sublist List.eraseP_sublist

theorem clear (q : TaskQueue F) : Upholds q.clear [] := by
  refine ⟨.clear q, fun _ => .nil, ?_⟩
  show ∀ k ∈ (Order.empty q.kind).keys, k.priority.isFinite = true
  cases q.kind <;> simp [Order.empty, Order.keys, Heap.keys]

theorem call (h : Upholds q xs) (c : QueueCall F) : ∃ xs', Upholds (q.call c).2 xs' := by
  cases c with
  | push v update priority => exact h.push v update priority
  | pop => exact h.popWhere fun _ => true
  | popWhere eligible => exact h.popWhere eligible
  | clear => exact ⟨[], .clear q⟩
  | size | isEmpty | contains => exact ⟨xs, h⟩

theorem after (h : Upholds q xs) (cs : List (QueueCall F)) : ∃ xs', Upholds (q.after cs) xs' := by
  induction cs generalizing q xs with
  | nil => exact ⟨xs, h⟩
  | cons c cs ih =>
    obtain ⟨xs', h'⟩ := h.call c
    exact ih h'

end Upholds

/-! ## The result -/

/-- How the entries, the keys and the index of a queue belong together. -/
structure Intact (q : TaskQueue F) : Prop where
  /-- No two keys have the same number, whether their tasks are there or not. -/
  distinct : (q.order.keys.map Key.seq).Nodup
  keys_lt : ∀ k ∈ q.order.keys, k.seq < q.nextSeq
  entries_lt : ∀ (n : Nat) (t : Task F), q.entries[n]? = some t → n < q.nextSeq
  /-- Every task has exactly one key, with its vertex and priority. -/
  ownKey : ∀ (n : Nat) (t : Task F), q.entries[n]? = some t →
    q.order.keys.filter (·.seq == n) = [⟨t.priority, n, t.vertex⟩]
  /-- Any other key has a number that no task has or will ever have. -/
  staleKey : ∀ k ∈ q.order.keys,
    (∃ t : Task F, q.entries[k.seq]? = some t ∧ k = ⟨t.priority, k.seq, t.vertex⟩) ∨
      ∀ cs : List (QueueCall F), (q.after cs).entries[k.seq]? = none
  finite : ∀ (n : Nat) (t : Task F), q.entries[n]? = some t → t.priority.isFinite = true
  finiteKeys : ∀ k ∈ q.order.keys, k.priority.isFinite = true
  /-- In the order of arrival no key is stale. -/
  fifo : q.kind = .fifo → q.order.keys.Pairwise (·.seq < ·.seq) ∧
    ∀ k ∈ q.order.keys, q.entries.contains k.seq = true
  /-- The index finds the task of a vertex, if there can be one only. -/
  index : q.policy = .coalesce ∨ q.policy = .replace → ∀ (v : VertexId) (n : Nat),
    q.byVertex[v]? = some n ↔ ∃ t : Task F, q.entries[n]? = some t ∧ t.vertex = v
  onePerVertex : q.policy = .coalesce ∨ q.policy = .replace →
    ∀ (m n : Nat) (t u : Task F), q.entries[m]? = some t → q.entries[n]? = some u →
      t.vertex = u.vertex → m = n
  unindexed : q.policy = .multiset → ∀ v : VertexId, q.byVertex[v]? = none
  /-- A request that is merged finds the task to merge it into. -/
  indexed : ∀ (v : VertexId) (n : Nat), q.byVertex[v]? = some n →
    ∃ t : Task F, q.entries[n]? = some t
  /-- The key that is taken out is that of a task. -/
  taken : ∀ (eligible : VertexId → Bool) (k : Key),
    (q.order.takeFirst (q.entries.contains ·.seq) (eligible ·.vertex)).1 = some k →
      ∃ t : Task F, q.entries[k.seq]? = some t
  /-- A request that adds no task has met one for its vertex, and after any request there is one. -/
  pushes : ∀ (v : VertexId) (update : F) (priority : Float),
    ((q.push v update priority).2 ≠ .enqueued →
      ∃ (n : Nat) (t : Task F), q.entries[n]? = some t ∧ t.vertex = v) ∧
    ∃ (n : Nat) (t : Task F), (q.push v update priority).1.entries[n]? = some t ∧ t.vertex = v
  /-- Nothing is taken out only if there is nothing eligible. -/
  pops : ∀ eligible : VertexId → Bool, (q.popWhere eligible).1 = none →
    ∀ (n : Nat) (t : Task F), q.entries[n]? = some t → eligible t.vertex = false

theorem isDeduplicating_of_or {policy : SchedulePolicy}
    (h : policy = .coalesce ∨ policy = .replace) : policy.isDeduplicating = true := by
  rcases h with rfl | rfl
  · rfl
  · rfl

theorem filter_eq_singleton {α : Type} {f : α → Nat} {l : List α} (h : (l.map f).Nodup) {a : α}
    (ha : a ∈ l) : l.filter (f · == f a) = [a] := by
  obtain ⟨before, after, rfl⟩ := List.append_of_mem ha
  rw [List.map_append, List.map_cons, List.nodup_middle, List.nodup_cons] at h
  have hnone : ∀ l' : List α, (∀ b ∈ l', b ∈ before ++ after) → l'.filter (f · == f a) = [] := by
    intro l' hl'
    rw [List.filter_eq_nil_iff]
    intro b hb heq
    refine h.1 ?_
    rw [← List.map_append, ← beq_iff_eq.mp heq]
    exact List.mem_map_of_mem (hl' b hb)
  rw [List.filter_append, List.filter_cons, if_pos (beq_self_eq_true (f a)),
    hnone before fun b hb => List.mem_append_left after hb,
    hnone after fun b hb => List.mem_append_right before hb, List.nil_append]

/-- After a request a task for its vertex is pending. -/
theorem Pushed.exists_vertex {v : VertexId} {update : F} {priority : Float} {placement : Placement}
    (h : Pushed q xs v update priority placement xs') : ∃ x ∈ xs', x.2.vertex = v := by
  cases h with
  | enqueued => exact ⟨_, mem_place.mpr (.inl rfl), rfl⟩
  | @merged _ x hx hv =>
    refine ⟨_, List.mem_map_of_mem hx, ?_⟩
    have hkey := keyOf_changeAt (PendingList.vertex_refit q.policy update)
      (PendingList.priority_refit q.policy update) x.1 x
    exact (congrArg Key.vertex hkey).trans hv
  | promoted _ _ hv =>
    exact ⟨_, mem_place.mpr (.inl rfl), (PendingList.vertex_refit q.policy update _).trans hv⟩

/-- A request that is not a new task has met one. -/
theorem Pushed.exists_of_ne {v : VertexId} {update : F} {priority : Float} {placement : Placement}
    (h : Pushed q xs v update priority placement xs') (hne : placement ≠ .enqueued) :
    ∃ x ∈ xs, x.2.vertex = v := by
  cases h with
  | enqueued => exact absurd rfl hne
  | merged _ hx hv => exact ⟨_, hx, hv⟩
  | promoted _ hx hv => exact ⟨_, hx, hv⟩

namespace Upholds

theorem mem_keys (h : Upholds q xs) {n : Nat} {t : Task F} (ht : q.entries[n]? = some t) :
    keyOf (n, t) ∈ q.order.keys :=
  h.lists.subset _ (List.mem_map_of_mem ((h.entry n t).mp ht))

/-- A key is that of a task, or its number was given away for good. -/
theorem key_cases (h : Upholds q xs) {k : Key} (hk : k ∈ q.order.keys) :
    (∃ t : Task F, q.entries[k.seq]? = some t ∧ k = keyOf (k.seq, t)) ∨
      ∀ cs : List (QueueCall F), (q.after cs).entries[k.seq]? = none := by
  cases hentry : q.entries[k.seq]? with
  | some t =>
    have heq : k = keyOf (k.seq, t) :=
      List.inj_on_of_nodup_map h.distinct hk (h.mem_keys hentry) rfl
    exact .inl ⟨t, rfl, heq⟩
  | none =>
    refine .inr fun cs => ?_
    cases hlater : (q.after cs).entries[k.seq]? with
    | none => rfl
    | some t =>
      have hcontains : (q.after cs).entries.contains k.seq = true := by
        rw [Std.TreeMap.contains_eq_isSome_getElem?, hlater]
        rfl
      rcases (Descends.after q cs).entries k.seq hcontains with hold | hnew
      · rw [Std.TreeMap.contains_eq_isSome_getElem?, hentry] at hold
        cases hold
      · exact absurd (h.fresh k hk) (Nat.not_lt_of_le hnew)

theorem pushes (h : Upholds q xs) (v : VertexId) (update : F) (priority : Float) :
    ((q.push v update priority).2 ≠ .enqueued →
      ∃ (n : Nat) (t : Task F), q.entries[n]? = some t ∧ t.vertex = v) ∧
    ∃ (n : Nat) (t : Task F),
      (q.push v update priority).1.entries[n]? = some t ∧ t.vertex = v := by
  obtain ⟨xs', hholds, hpushed⟩ := h.toHolds.push v update priority
  constructor
  · intro hne
    obtain ⟨x, hx, hv⟩ := hpushed.exists_of_ne hne
    exact ⟨x.1, x.2, (h.entry x.1 x.2).mpr hx, hv⟩
  · obtain ⟨x, hx, hv⟩ := hpushed.exists_vertex
    exact ⟨x.1, x.2, (hholds.entry x.1 x.2).mpr hx, hv⟩

theorem pops (h : Upholds q xs) {eligible : VertexId → Bool}
    (hnone : (q.popWhere eligible).1 = none) {n : Nat} {t : Task F}
    (ht : q.entries[n]? = some t) : eligible t.vertex = false := by
  rw [(h.toHolds.popWhere eligible).1, Option.map_eq_none_iff, List.find?_eq_none] at hnone
  exact Bool.eq_false_iff.mpr (hnone (n, t) ((h.entry n t).mp ht))

theorem taken (h : Upholds q xs) {eligible : VertexId → Bool} {k : Key}
    (hk : (q.order.takeFirst (q.entries.contains ·.seq) (eligible ·.vertex)).1 = some k) :
    ∃ t : Task F, q.entries[k.seq]? = some t := by
  rw [(h.lists.yields h.live_keyOf (eligible ·.vertex)).found] at hk
  obtain ⟨x, hx, rfl⟩ := List.mem_map.mp (List.mem_of_find?_eq_some hk)
  exact ⟨x.2, (h.entry x.1 x.2).mpr hx⟩

theorem intact (h : Upholds q xs) : Intact q where
  distinct := h.distinct
  keys_lt := h.fresh
  entries_lt n t ht := h.lt_nextSeq ((h.entry n t).mp ht)
  ownKey n t ht := filter_eq_singleton h.distinct (h.mem_keys ht)
  staleKey k hk := h.key_cases hk
  finite n t ht := h.toHolds.finite (n, t) ((h.entry n t).mp ht)
  finiteKeys := h.finiteKeys
  fifo := by
    intro hk
    rw [h.keys_fifo hk]
    exact ⟨List.pairwise_map.mpr (h.ascending hk), h.live_keyOf⟩
  index := by
    intro hp v n
    rw [h.index]
    simp only [isDeduplicating_of_or hp, true_and, h.entry]
  onePerVertex := by
    intro hp m n t u ht hu hv
    have hsame := h.eq_of_vertex_eq (isDeduplicating_of_or hp) ((h.entry m t).mp ht)
      ((h.entry n u).mp hu) hv
    exact congrArg Prod.fst hsame
  unindexed := by
    intro hp v
    rw [Option.eq_none_iff_forall_not_mem]
    intro n hn
    have hd := ((h.index v n).mp hn).1
    rw [hp] at hd
    cases hd
  indexed := by
    intro v n hv
    obtain ⟨-, t, ht, -⟩ := (h.index v n).mp hv
    exact ⟨t, (h.entry n t).mpr ht⟩
  taken _ _ hk := h.taken hk
  pushes := h.pushes
  pops _ hnone _ _ ht := h.pops hnone ht

end Upholds

/-- Whatever has been called, the parts of a queue belong together. -/
theorem after_intact (kind : SchedulerKind) (policy : SchedulePolicy) (cs : List (QueueCall F)) :
    ((TaskQueue.empty kind policy).after cs).Intact := by
  obtain ⟨xs, h⟩ := (Upholds.empty kind policy).after cs
  exact h.intact

end TaskQueue

end VertexEngine
