import VertexEngine.Proofs.Binary64.Rank
import VertexEngine.Proofs.Queue.Refinement

/-!
# The place of a repeated request

A request for a vertex that is pending already is merged into the pending task.  The task stays
where it is, unless the request has a greater priority and the queue goes by priority: then it
overtakes the tasks before it whose rank is lower than that of the request.

`PendingList.merge_split` says this of pending lists, whatever the policy, and `replaced_in_place`
of queues under the policy of replacement.
-/

namespace VertexEngine

variable {F : Type}

namespace PendingList

variable {p : PendingList F} {v : VertexId} {update : F} {priority : Float}

/-- With one task a vertex, the others are for other vertices. -/
theorem exists_split_of_contains (hn : (p.tasks.map Task.vertex).Nodup)
    (hv : p.contains v = true) :
    ∃ before t rest, p.tasks = before ++ t :: rest ∧ t.vertex = v ∧
      ∀ u ∈ before ++ rest, u.vertex ≠ v := by
  obtain ⟨t, ht, htv⟩ := List.any_eq_true.mp hv
  obtain ⟨before, rest, hsplit⟩ := List.append_of_mem ht
  rw [hsplit, (List.perm_middle.map Task.vertex).nodup_iff, List.map_cons, List.nodup_cons] at hn
  refine ⟨before, t, rest, hsplit, eq_of_beq htv, fun u hu huv => hn.1 ?_⟩
  rw [eq_of_beq htv, ← huv]
  exact List.mem_map_of_mem hu

/-- A pending task after a request with this priority: it only rises, and only where priorities
count. -/
def raise (kind : SchedulerKind) (priority : Float) (t : Task F) : Task F :=
  if kind = .priority ∧ t.priority < priority then { t with priority } else t

theorem vertex_raise (kind : SchedulerKind) (priority : Float) (t : Task F) :
    (raise kind priority t).vertex = t.vertex := by
  unfold raise
  split <;> rfl

theorem raise_refit_replace (kind : SchedulerKind) (update : F) (priority : Float) (t : Task F) :
    raise kind priority (refit .replace update t) = { raise kind priority t with update } := by
  simp only [raise, priority_refit]
  split <;> rfl

section

variable {before rest : List (Task F)} {t : Task F}

theorem find?_of_split (hsplit : p.tasks = before ++ t :: rest) (htv : t.vertex = v)
    (hothers : ∀ u ∈ before ++ rest, u.vertex ≠ v) :
    p.tasks.find? (·.vertex == v) = some t ∧ p.tasks.eraseP (·.vertex == v) = before ++ rest := by
  have hbefore : ∀ u ∈ before, ¬(u.vertex == v) = true :=
    fun u hu => by simpa using hothers u (List.mem_append_left _ hu)
  rw [hsplit]
  constructor
  · rw [List.find?_append, List.find?_eq_none.mpr hbefore]
    simp [htv]
  · rw [List.eraseP_append_right _ hbefore, List.eraseP_cons_of_pos (by simp [htv])]

theorem map_of_split (htv : t.vertex = v) (hothers : ∀ u ∈ before ++ rest, u.vertex ≠ v)
    (f : Task F → Task F) :
    ((before ++ t :: rest).map fun u => if u.vertex == v then f u else u) =
      before ++ f t :: rest := by
  have hsame : ∀ us : List (Task F), (∀ u ∈ us, u.vertex ≠ v) →
      (us.map fun u => if u.vertex == v then f u else u) = us := by
    intro us hus
    refine (List.map_congr_left fun u hu => ?_).trans us.map_id
    simp [hus u hu]
  rw [List.map_append, List.map_cons, hsame before fun u hu => hothers u (by simp [hu]),
    hsame rest fun u hu => hothers u (by simp [hu])]
  simp [htv]

/-- A merged request changes no task but that of its vertex, which overtakes those before it whose
rank is lower than that of a priority to which it rises. -/
theorem merge_split (update : F) (hsplit : p.tasks = before ++ t :: rest) (htv : t.vertex = v)
    (hothers : ∀ u ∈ before ++ rest, u.vertex ≠ v)
    (hsorted : p.kind = .priority →
      p.tasks.Pairwise fun t u => Priority.rank u.priority ≤ Priority.rank t.priority)
    (ht : t.priority.isFinite = true) (hfin : priority.isFinite = true) :
    ∃ kept overtaken, before = kept ++ overtaken ∧
      (∀ u ∈ before, u ∈ overtaken ↔ p.kind = .priority ∧ t.priority < priority ∧
        Priority.rank u.priority < Priority.rank priority) ∧
      (p.merge v update priority).tasks =
        kept ++ raise p.kind priority (refit p.policy update t) :: (overtaken ++ rest) := by
  obtain ⟨hfind, herase⟩ := find?_of_split hsplit htv hothers
  have hrise : (p.kind = .priority && t.priority < priority) = true ↔
      p.kind = .priority ∧ t.priority < priority := by
    simp
  simp only [merge, hfind, herase, hrise, raise, priority_refit]
  by_cases h : p.kind = .priority ∧ t.priority < priority
  · have hrank := Binary64.rank_lt_of_lt ht hfin h.2
    have hs := hsorted h.1
    rw [hsplit, List.pairwise_append, List.pairwise_cons] at hs
    have hrest : ∀ u ∈ rest, Priority.rank u.priority < Priority.rank priority := by
      intro u hu
      have := hs.2.1.1 u hu
      omega
    obtain ⟨kept, overtaken, rfl, hinsert, hkept, hovertaken⟩ := insertBehind_split hs.1
      ({ refit p.policy update t with priority } : Task F)
    refine ⟨kept, overtaken, rfl, fun u hu => ?_, ?_⟩
    · constructor
      · exact fun hu => ⟨h.1, h.2, hovertaken u hu⟩
      · intro hlower
        refine (List.mem_append.mp hu).resolve_left fun hu => ?_
        have := hkept u hu
        simp only at this
        omega
    · rw [if_pos h, if_pos h]
      show insertBehind (fun u : Task F => Priority.rank u.priority) _ _ = _
      rw [insertBehind_append hrest, hinsert]
      simp
  · refine ⟨before, [], by simp, fun u _ => ?_, ?_⟩
    · constructor
      · intro hu
        cases hu
      · intro hlower
        exact absurd ⟨hlower.1, hlower.2.1⟩ h
    · rw [if_neg h, if_neg h]
      show (p.tasks.map _) = _
      rw [hsplit, map_of_split htv hothers]
      rfl

end

end PendingList

/-- When a task overtakes others, the sequence of the vertices is another one. -/
theorem vertices_eq_iff {kept overtaken rest : List (Task F)} {t t' : Task F}
    (hothers : ∀ u ∈ overtaken, u.vertex ≠ t.vertex) (ht' : t'.vertex = t.vertex) :
    (kept ++ t' :: (overtaken ++ rest)).map Task.vertex =
      (kept ++ overtaken ++ t :: rest).map Task.vertex ↔ overtaken = [] := by
  constructor
  · intro h
    cases overtaken with
    | nil => rfl
    | cons u us =>
      simp only [List.append_assoc, List.map_append, List.map_cons, List.append_cancel_left_eq,
        List.cons_append, List.cons.injEq] at h
      exact absurd (h.1.symm.trans ht') (hothers u List.mem_cons_self)
  · rintro rfl
    simp [ht']

/-- A request for a pending vertex under the policy of replacement: nothing is added, the task of
the vertex gets the function of the request, and no other task changes.  The sequence of the
vertices stays, unless the task rises to a priority with a higher rank than that of a task before
it. -/
theorem replaced_in_place (kind : SchedulerKind) (cs : List (QueueCall F)) (v : VertexId)
    (update : F) (priority : Float)
    (hv : ((TaskQueue.empty kind .replace : TaskQueue F).after cs).contains v = true) :
    let q := (TaskQueue.empty kind .replace : TaskQueue F).after cs
    let effective := TaskQueue.effectivePriority priority
    let q' := (q.call (.push v update priority)).2
    (q.call (.push v update priority)).1 = .added false ∧
      ∃ kept overtaken t rest,
        q.toList = kept ++ overtaken ++ t :: rest ∧ t.vertex = v ∧
        (∀ u ∈ kept ++ overtaken ++ rest, u.vertex ≠ v) ∧
        q'.toList =
          kept ++ { PendingList.raise kind effective t with update } :: (overtaken ++ rest) ∧
        (∀ u ∈ kept ++ overtaken, u ∈ overtaken ↔ kind = .priority ∧ t.priority < effective ∧
          Priority.rank u.priority < Priority.rank effective) ∧
        (q'.toList.map Task.vertex = q.toList.map Task.vertex ↔ overtaken = []) := by
  intro q effective q'
  obtain ⟨p, hp⟩ := (Represents.empty kind .replace : Represents (F := F) _ _).after cs
  have hkind : p.kind = kind := hp.kind.trans (TaskQueue.kind_after _ cs).1
  have hpolicy : p.policy = .replace := hp.policy.trans (TaskQueue.kind_after _ cs).2
  have hd : p.policy.isDeduplicating = true := by rw [hpolicy]; rfl
  have hcontains : p.contains v = true := (hp.contains_eq v).symm.trans hv
  obtain ⟨hanswer, hq'⟩ := hp.call (.push v update priority)
  have hpush : p.push v update priority = (p.merge v update effective, false) := by
    simp only [PendingList.push, hd, hcontains, Bool.and_self, if_true]
    rfl
  rw [PendingList.call, hpush] at hanswer hq'
  refine ⟨hanswer, ?_⟩
  obtain ⟨before, t, rest, hsplit, htv, hothers⟩ :=
    p.exists_split_of_contains (hp.nodup_vertices hd) hcontains
  obtain ⟨kept, overtaken, rfl, hovertaken, hmerge⟩ := PendingList.merge_split update
    hsplit htv hothers hp.pairwise_rank (hp.isFinite_priority t (by simp [hsplit]))
    (TaskQueue.isFinite_effectivePriority priority)
  rw [hkind] at hovertaken
  rw [hkind, hpolicy, PendingList.raise_refit_replace] at hmerge
  have htasks : q'.toList = _ := hq'.toList_eq.trans hmerge
  refine ⟨kept, overtaken, t, rest, hp.toList_eq.trans hsplit, htv, hothers, htasks, hovertaken, ?_⟩
  rw [htasks, hp.toList_eq, hsplit]
  exact vertices_eq_iff (fun u hu => htv ▸ hothers u (by simp [hu]))
    (PendingList.vertex_raise kind effective t)

/-- Of two pending tasks the second is replaced, with no greater priority than it has. -/
theorem replaced_in_place_second :
    let calls : List (QueueCall String) := [.push 1 "a" 1.0, .push 2 "b" 2.0]
    let q : TaskQueue String := (TaskQueue.empty .priority .replace).after calls
    q.contains 1 = true ∧
      ∃ kept overtaken t rest, q.toList = kept ++ overtaken ++ t :: rest ∧ t.vertex = 1 ∧
        ((q.call (.push 1 "c" 0.5)).2.toList.map Task.vertex = q.toList.map Task.vertex ↔
          overtaken = []) := by
  intro calls q
  have hpending : q.contains 1 = true := by decide +kernel
  obtain ⟨-, kept, overtaken, t, rest, hq, ht, -, -, -, hvertices⟩ :=
    replaced_in_place .priority calls 1 "c" 0.5 hpending
  exact ⟨hpending, kept, overtaken, t, rest, hq, ht, hvertices⟩

/-- A task that overtakes another one: it was the second of two, and is the first. -/
theorem replaced_out_of_place :
    let calls : List (QueueCall String) := [.push 1 "a" 1.0, .push 2 "b" 2.0]
    let q : TaskQueue String := (TaskQueue.empty .priority .replace).after calls
    q.contains 1 = true ∧ q.toList.map Task.vertex = [2, 1] ∧
      (q.push 1 "c" 5.0).1.toList.map Task.vertex = [1, 2] := by
  decide +kernel

end VertexEngine
