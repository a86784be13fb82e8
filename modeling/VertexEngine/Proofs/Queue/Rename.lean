import VertexEngine.Proofs.Queue.Refinement

/-!
# Pending lists under other names

A pending list does not look at the functions of its tasks.  So the functions can carry tags along,
for instance a ticket that tells one request from another, and everything happens as without them.

`rename_push` says this of requests, and `stub_merge` that a merged request leaves vertices and
tickets as they are.
-/

namespace VertexEngine

variable {F G : Type}

/-- A task with another name for its function. -/
def Task.rename (f : F → G) (t : Task F) : Task G :=
  ⟨t.vertex, f t.update, t.priority⟩

namespace PendingList

/-- A pending list with other names for the functions. -/
def rename (f : F → G) (p : PendingList F) : PendingList G :=
  ⟨p.kind, p.policy, p.tasks.map (Task.rename f)⟩

theorem rename_insert (f : F → G) (kind : SchedulerKind) (t : Task F) (tasks : List (Task F)) :
    (insert kind t tasks).map (Task.rename f) =
      insert kind (t.rename f) (tasks.map (Task.rename f)) := by
  rw [insert_eq_place, insert_eq_place]
  exact map_place (Task.rename f) (fun u => Priority.rank u.priority) kind t tasks

theorem rename_contains (f : F → G) (p : PendingList F) (v : VertexId) :
    (p.rename f).contains v = p.contains v := by
  simp only [contains, rename, List.any_map]
  rfl

theorem rename_refit (f : F → G) (policy : SchedulePolicy) (update : F) (t : Task F) :
    (refit policy update t).rename f = refit policy (f update) (t.rename f) := by
  unfold refit
  split <;> rfl

theorem rename_merge (f : F → G) (p : PendingList F) (v : VertexId) (update : F)
    (priority : Float) :
    (p.merge v update priority).rename f = (p.rename f).merge v (f update) priority := by
  have hfind : (p.rename f).tasks.find? (·.vertex == v) =
      (p.tasks.find? (·.vertex == v)).map (Task.rename f) := List.find?_map
  have herase : (p.rename f).tasks.eraseP (·.vertex == v) =
      (p.tasks.eraseP (·.vertex == v)).map (Task.rename f) := List.eraseP_map
  simp only [merge, hfind, herase]
  cases p.tasks.find? (·.vertex == v) with
  | none => rfl
  | some t =>
    have hkind : (p.rename f).kind = p.kind := rfl
    have hpriority : (t.rename f).priority = t.priority := rfl
    simp only [Option.map_some, hkind, hpriority]
    split
    · refine congrArg (PendingList.mk p.kind p.policy) ?_
      have hnew : ({ refit p.policy update t with priority } : Task F).rename f =
          { refit p.policy (f update) (t.rename f) with priority } := by
        rw [← rename_refit]
        rfl
      exact (rename_insert f .priority _ _).trans (congrArg (insertByPriority · _) hnew)
    · refine congrArg (PendingList.mk p.kind p.policy) ?_
      simp only [rename, List.map_map]
      refine List.map_congr_left fun u _ => ?_
      simp only [Function.comp_apply, ← rename_refit]
      exact apply_ite (Task.rename f) _ _ _

theorem rename_push (f : F → G) (p : PendingList F) (v : VertexId) (update : F)
    (priority : Float) :
    (p.push v update priority).1.rename f = ((p.rename f).push v (f update) priority).1 ∧
      (p.push v update priority).2 = ((p.rename f).push v (f update) priority).2 := by
  simp only [push, rename_contains]
  rw [show (p.rename f).policy = p.policy from rfl]
  split
  · exact ⟨rename_merge .., rfl⟩
  · exact ⟨congrArg (PendingList.mk p.kind p.policy) (rename_insert f p.kind _ p.tasks), rfl⟩

end PendingList

/-! ## Vertices and tickets -/

section Lists

variable {α β : Type} [BEq β] [LawfulBEq β]

/-- The first element with a property of its key is also the first one with this key. -/
theorem find?_key (key : α → β) (p : β → Bool) {xs : List α} {x : α}
    (h : xs.find? (fun y => p (key y)) = some x) :
    xs.find? (fun y => key y == key x) = some x ∧
      xs.eraseP (fun y => key y == key x) = xs.eraseP fun y => p (key y) := by
  obtain ⟨as, bs, rfl, hx, has, he⟩ := find?_split h
  have has' : ∀ a ∈ as, ¬(key a == key x) = true := by
    intro a ha hk
    have := has a ha
    rw [eq_of_beq hk, hx] at this
    cases this
  rw [he]
  constructor
  · rw [List.find?_append, List.find?_eq_none.mpr has', Option.none_or]
    exact List.find?_cons_of_pos (beq_self_eq_true _)
  · rw [List.eraseP_append_right _ has']
    simp

end Lists

/-- The vertex and the ticket of a task whose function carries a ticket. -/
def Task.stub (t : Task (Nat × F)) : VertexId × Nat :=
  (t.vertex, t.update.1)

namespace PendingList

theorem stub_refit (policy : SchedulePolicy) (update : F) (t : Task (Nat × F)) :
    (refit policy (t.update.1, update) t).stub = t.stub := by
  unfold refit
  split <;> rfl

/-- A new function for the task of a vertex leaves vertices and tickets as they are. -/
theorem stub_swap {p : PendingList (Nat × F)} (hn : (p.tasks.map Task.vertex).Nodup)
    {v : VertexId} {t : Task (Nat × F)} (ht : p.tasks.find? (·.vertex == v) = some t)
    (update : F) :
    (p.tasks.map fun u =>
        if u.vertex == v then refit p.policy (t.update.1, update) u else u).map Task.stub =
      p.tasks.map Task.stub := by
  rw [List.map_map]
  refine List.map_congr_left fun u hu => ?_
  simp only [Function.comp_apply]
  split
  · rename_i huv
    have htv : t.vertex = v := by simpa using List.find?_some ht
    have heq : u = t := List.inj_on_of_nodup_map hn hu (List.mem_of_find?_eq_some ht)
      ((eq_of_beq huv).trans htv.symm)
    rw [heq, stub_refit]
  · rfl

/-- A request with the ticket of the pending task leaves vertices and tickets as they are. -/
theorem stub_merge {p : PendingList (Nat × F)} (hn : (p.tasks.map Task.vertex).Nodup)
    {v : VertexId} {t : Task (Nat × F)} (ht : p.tasks.find? (·.vertex == v) = some t) (update : F)
    (priority : Float) :
    ((p.merge v (t.update.1, update) priority).tasks.map Task.stub).Perm
      (p.tasks.map Task.stub) := by
  simp only [merge, ht]
  split
  · have hnew : ({ refit p.policy (t.update.1, update) t with priority } : Task (Nat × F)).stub =
        t.stub := stub_refit p.policy update t
    refine ((perm_place _ .priority _ _).map Task.stub).trans ?_
    rw [List.map_cons, hnew, ← List.map_cons]
    exact ((perm_cons_eraseP ht).symm).map Task.stub
  · exact .of_eq (stub_swap hn ht update)

/-- In the order of arrival a merged request does not even move its task. -/
theorem stub_merge_fifo {p : PendingList (Nat × F)} (hk : p.kind = .fifo)
    (hn : (p.tasks.map Task.vertex).Nodup) {v : VertexId} {t : Task (Nat × F)}
    (ht : p.tasks.find? (·.vertex == v) = some t) (update : F) (priority : Float) :
    (p.merge v (t.update.1, update) priority).tasks.map Task.stub = p.tasks.map Task.stub := by
  rw [merge_of_fifo hk ht]
  exact stub_swap hn ht update

theorem stub_insert (kind : SchedulerKind) (t : Task (Nat × F)) (tasks : List (Task (Nat × F))) :
    ((insert kind t tasks).map Task.stub).Perm (t.stub :: tasks.map Task.stub) := by
  rw [insert_eq_place]
  exact (perm_place _ kind t tasks).map Task.stub

end PendingList

end VertexEngine
