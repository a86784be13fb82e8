import VertexEngine.Proofs.Queue.Refinement

/-!
# What a request does to the pending tasks

Whatever the scheduler and its policy, a request keeps every vertex pending that was pending, makes
its own vertex pending, and brings no vertex and no function in but its own.
-/

namespace VertexEngine

variable {F : Type} {p : PendingList F} {v w : VertexId} {update : F} {priority : Float}
  {t u : Task F}

namespace PendingList

theorem mem_insert (kind : SchedulerKind) {tasks : List (Task F)} :
    u ∈ insert kind t tasks ↔ u = t ∨ u ∈ tasks := by
  rw [insert_eq_place, (perm_place _ kind t tasks).mem_iff, List.mem_cons]

theorem contains_iff : p.contains w = true ↔ ∃ t ∈ p.tasks, t.vertex = w := by
  simp [contains]

theorem update_refit (policy : SchedulePolicy) (update : F) (t : Task F) :
    (refit policy update t).update = update ∨ (refit policy update t).update = t.update := by
  unfold refit
  split
  · exact .inl rfl
  · exact .inr rfl

/-- A task that is pending after a request was merged stands for one that was pending before. -/
theorem exists_of_mem_merge (h : u ∈ (p.merge v update priority).tasks) :
    ∃ t ∈ p.tasks, t.vertex = u.vertex ∧ (u.update = update ∨ u.update = t.update) := by
  unfold merge at h
  split at h
  · exact ⟨u, h, rfl, .inr rfl⟩
  · rename_i t ht
    have hmem := List.mem_of_find?_eq_some ht
    split at h
    · rcases (mem_insert .priority).mp h with rfl | hu
      · exact ⟨t, hmem, (vertex_refit p.policy update t).symm, update_refit p.policy update t⟩
      · exact ⟨u, List.mem_of_mem_eraseP hu, rfl, .inr rfl⟩
    · obtain ⟨t', ht', rfl⟩ := List.mem_map.mp h
      refine ⟨t', ht', ?_⟩
      split
      · exact ⟨(vertex_refit p.policy update t').symm, update_refit p.policy update t'⟩
      · exact ⟨rfl, .inr rfl⟩

/-- A vertex stays pending when a request is merged. -/
theorem exists_mem_merge (h : t ∈ p.tasks) :
    ∃ u ∈ (p.merge v update priority).tasks, u.vertex = t.vertex := by
  unfold merge
  split
  · exact ⟨t, h, rfl⟩
  · rename_i first hfirst
    split
    · by_cases hv : t.vertex = v
      · refine ⟨_, (mem_insert .priority).mpr (.inl rfl), ?_⟩
        have hfirst' : first.vertex = v := by simpa using List.find?_some hfirst
        exact (vertex_refit p.policy update first).trans (hfirst'.trans hv.symm)
      · refine ⟨t, (mem_insert .priority).mpr (.inr ?_), rfl⟩
        exact (List.mem_eraseP_of_neg (by simpa using hv)).mpr h
    · refine ⟨_, List.mem_map_of_mem h, ?_⟩
      split
      · exact vertex_refit p.policy update t
      · rfl

/-- A merged request leaves the vertices as they are, but for their order. -/
theorem vertices_merge (p : PendingList F) (v : VertexId) (update : F) (priority : Float) :
    ((p.merge v update priority).tasks.map Task.vertex).Perm (p.tasks.map Task.vertex) := by
  unfold merge
  split
  · exact .refl _
  · rename_i t ht
    split
    · refine ((perm_place _ .priority _ _).map Task.vertex).trans ?_
      refine .trans (.of_eq ?_) ((perm_cons_eraseP ht).symm.map Task.vertex)
      exact congrArg (· :: _) (vertex_refit p.policy update t)
    · refine .of_eq ?_
      rw [List.map_map]
      refine List.map_congr_left fun u _ => ?_
      simp only [Function.comp_apply]
      split
      · exact vertex_refit p.policy update u
      · rfl

/-- A request does not change how many tasks are pending for vertices among which its own is not. -/
theorem countP_push {P : VertexId → Bool} (h : P v = false) :
    (p.push v update priority).1.tasks.countP (fun t => P t.vertex) =
      p.tasks.countP fun t => P t.vertex := by
  have hcount : ∀ tasks : List (Task F),
      tasks.countP (fun t => P t.vertex) = (tasks.map Task.vertex).countP P :=
    fun tasks => List.countP_map.symm
  simp only [push]
  split
  · rw [hcount, hcount]
    exact (vertices_merge p v update _).countP_eq P
  · rw [insert_eq_place, (perm_place _ p.kind _ p.tasks).countP_eq, List.countP_cons_of_neg]
    simp [h]

theorem exists_of_mem_push (h : u ∈ (p.push v update priority).1.tasks) :
    (u.vertex = v ∧ u.update = update) ∨
      ∃ t ∈ p.tasks, t.vertex = u.vertex ∧ (u.update = update ∨ u.update = t.update) := by
  simp only [push] at h
  split at h
  · exact .inr (exists_of_mem_merge h)
  · rcases (mem_insert _).mp h with rfl | hu
    · exact .inl ⟨rfl, rfl⟩
    · exact .inr ⟨u, hu, rfl, .inr rfl⟩

theorem contains_push :
    (p.push v update priority).1.contains w = true ↔ w = v ∨ p.contains w = true := by
  constructor
  · intro h
    obtain ⟨u, hu, rfl⟩ := contains_iff.mp h
    rcases exists_of_mem_push hu with ⟨hv, -⟩ | ⟨t, ht, htu, -⟩
    · exact .inl hv
    · exact .inr (contains_iff.mpr ⟨t, ht, htu⟩)
  · intro h
    simp only [push]
    split
    · rename_i hmerge
      have hw : p.contains w = true := by
        rcases h with rfl | hw
        · exact (Bool.and_eq_true_iff.mp hmerge).2
        · exact hw
      obtain ⟨t, ht, rfl⟩ := contains_iff.mp hw
      exact contains_iff.mpr (exists_mem_merge ht)
    · rcases h with rfl | hw
      · exact contains_iff.mpr ⟨_, (mem_insert _).mpr (.inl rfl), rfl⟩
      · obtain ⟨t, ht, rfl⟩ := contains_iff.mp hw
        exact contains_iff.mpr ⟨t, (mem_insert _).mpr (.inr ht), rfl⟩

end PendingList

end VertexEngine
