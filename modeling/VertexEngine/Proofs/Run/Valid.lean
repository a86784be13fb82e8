import VertexEngine.Proofs.Run.Orderly
import VertexEngine.Proofs.Run.Trace

/-!
# What a run works on is there

Programs may ask for updates of vertices that are in the graph only, and with finite priorities
only.  So if all tasks that a run starts with are for vertices of the graph, no task ever misses its
vertex, and the errors of a run come from its programs and from the engine.

* `Scene.Valid` is what every move keeps.
* `EngineError.EndsRun` are the errors that can end a run.
-/

namespace VertexEngine

variable {F V E T O : Type} {behaviour : Behaviour F V E T O}

/-! ## Pending tasks -/

/-- A task for a vertex of the graph, with a finite priority. -/
structure Task.IsValid (g : Graph V E) (t : Task F) : Prop where
  vertex : g.contains t.vertex = true
  priority : t.priority.isFinite = true

/-- Whatever was asked for, a pending task has a finite priority. -/
theorem Represents.finite {q : TaskQueue F} {p : PendingList F} (h : Represents q p) :
    ∀ t ∈ p.tasks, t.priority.isFinite = true := by
  obtain ⟨xs, hxs, hp⟩ := h.holds
  rw [hp]
  intro t ht
  obtain ⟨x, hx, rfl⟩ := List.mem_map.mp ht
  exact hxs.finite x hx

namespace PendingList

theorem kind_merge (p : PendingList F) (v : VertexId) (update : F) (priority : Float) :
    (p.merge v update priority).kind = p.kind ∧
      (p.merge v update priority).policy = p.policy := by
  unfold merge
  split
  · exact ⟨rfl, rfl⟩
  · split <;> exact ⟨rfl, rfl⟩

theorem kind_push (p : PendingList F) (v : VertexId) (update : F) (priority : Float) :
    (p.push v update priority).1.kind = p.kind ∧
      (p.push v update priority).1.policy = p.policy := by
  simp only [push]
  split
  · exact kind_merge ..
  · exact ⟨rfl, rfl⟩

end PendingList

/-- A run changes neither the order of the tasks nor the treatment of repeated ones. -/
theorem Move.kind {s s' : Scene F V E T O} (hm : Move behaviour s s') :
    s'.pending.kind = s.pending.kind ∧ s'.pending.policy = s.pending.policy := by
  cases hm with
  | ask b p before after x action next =>
    simp only [Board.afterAction]
    split
    · exact PendingList.kind_push ..
    · exact ⟨rfl, rfl⟩
  | _ => exact ⟨rfl, rfl⟩

theorem Moves.kind {s s' : Scene F V E T O} (hm : Moves behaviour s s') :
    s'.pending.kind = s.pending.kind ∧ s'.pending.policy = s.pending.policy := by
  induction hm with
  | refl => exact ⟨rfl, rfl⟩
  | tail _ hstep ih => exact ⟨hstep.kind.1.trans ih.1, hstep.kind.2.trans ih.2⟩

/-! ## Valid scenes -/

/-- An error that a program ended with. -/
def EngineError.IsUpdate : EngineError → Prop
  | .update .. => True
  | _ => False

/-- The task of the hand failed, if it did, by an error of its program. -/
def Hand.FailsByProgram : Hand F V T O → Prop
  | .returned _ (.failed e) => e.IsUpdate
  | .completed _ (.failed e) => e.IsUpdate
  | _ => True

/-- Every task that is pending or was taken is for a vertex of the graph, and no task failed but by
an error of its program. -/
structure Scene.Valid (s : Scene F V E T O) : Prop where
  pending : ∀ t ∈ s.pending.tasks, s.board.graph.contains t.vertex = true
  taken : ∀ v ∈ s.board.taken, s.board.graph.contains v = true
  hands : ∀ hand ∈ s.hands, hand.FailsByProgram
  faults : ∀ fault ∈ s.board.faults, fault.2.IsUpdate

/-- A task for a vertex of the graph finds its program. -/
theorem Board.load_eq_ok {b : Board F V E T O} {t : Task F}
    (h : b.graph.contains t.vertex = true) :
    b.load behaviour t = .ok (behaviour t.update b.graph.toTopology t.vertex) := by
  rw [Board.load, Graph.check, if_pos h]
  rfl

theorem Board.begin_eq_running {b : Board F V E T O} {t : Task F}
    (h : b.graph.contains t.vertex = true) :
    b.begin behaviour t =
      .running ⟨t, 0⟩ (behaviour t.update b.graph.toTopology t.vertex) := by
  rw [Board.begin, Board.load_eq_ok h]

/-- An accepted request is for a vertex of the graph, at a finite priority. -/
theorem Board.contains_of_request {b : Board F V E T O} {action : Action F V O} {v : VertexId}
    {update : F} {priority : Float} (h : b.request? action = some (v, update, priority)) :
    b.graph.contains v = true ∧ priority.isFinite = true := by
  cases action with
  | schedule w update' priority' =>
    simp only [Board.request?] at h
    split at h
    · rename_i hcheck
      obtain ⟨rfl, rfl, rfl⟩ : w = v ∧ update' = update ∧ priority' = priority := by simpa using h
      simp only [Board.checkRequest, Graph.check, Priority.check] at hcheck
      by_cases hv : b.graph.contains w = true
      · rw [if_pos hv] at hcheck
        by_cases hp : priority'.isFinite = true
        · exact ⟨hv, hp⟩
        · rw [if_neg hp] at hcheck
          cases hcheck
      · rw [if_neg hv] at hcheck
        cases hcheck
    · cases h
  | _ => cases h

theorem Scene.Valid.ask {b : Board F V E T O} {p : PendingList F}
    {before after : List (Hand F V T O)} {x : Execution F} {action : Action F V O}
    {next : action.Answer T → Program F V T O Unit}
    (h : Scene.Valid ⟨b, p, before ++ .running x (.ask action next) :: after⟩)
    {rest : Program F V T O Unit} :
    Scene.Valid ⟨(b.perform x action).2.2, b.afterAction action p,
      before ++ .running (b.perform x action).2.1 rest :: after⟩ := by
  obtain ⟨hpending, htaken, hhands, hfaults⟩ := h
  refine ⟨?_, ?_, ?_, ?_⟩
  · intro t ht
    simp only [Board.perform_contains]
    simp only [Board.afterAction] at ht
    split at ht
    · rename_i v update priority hrequest
      rcases PendingList.exists_of_mem_push ht with ⟨rfl, -⟩ | ⟨u, hu, huv, -⟩
      · exact (Board.contains_of_request hrequest).1
      · rw [← huv]
        exact hpending u hu
    · exact hpending t ht
  · intro v hv
    rw [Board.perform_taken] at hv
    simp only [Board.perform_contains]
    exact htaken v hv
  · exact forall_mem_replace hhands trivial
  · intro fault hfault
    rw [Board.perform_faults] at hfault
    exact hfaults fault hfault

/-- A hand is changed or put away, and nothing else that matters here. -/
theorem Scene.Valid.handOver {b b' : Board F V E T O} {p : PendingList F}
    {hands hands' : List (Hand F V T O)} (h : Scene.Valid ⟨b, p, hands⟩)
    (hg : b'.graph = b.graph) (ht : b'.taken = b.taken)
    (hf : ∀ fault ∈ b'.faults, fault.2.IsUpdate) (hh : ∀ hand ∈ hands', hand.FailsByProgram) :
    Scene.Valid ⟨b', p, hands'⟩ := by
  refine ⟨?_, ?_, hh, hf⟩
  · intro t hmem
    simp only [hg]
    exact h.pending t hmem
  · intro v hv
    simp only [ht, hg] at hv ⊢
    exact h.taken v hv

theorem Move.valid {s s' : Scene F V E T O} (hm : Move behaviour s s') (h : s.Valid) :
    s'.Valid := by
  cases hm with
  | quiet hb _ =>
    exact h.handOver hb.graph hb.taken (by simpa only [hb.faults] using h.faults) h.hands
  | @take b p before after held _ t ht scheduler b' hb _ =>
    have hv : b.graph.contains t.vertex = true := h.pending t (List.mem_of_find?_eq_some ht)
    subst hb
    rw [Board.begin_eq_running (by exact hv)]
    refine ⟨?_, ?_, forall_mem_middle.mpr ⟨trivial, h.hands⟩, h.faults⟩
    · intro u hu
      exact h.pending u (List.mem_of_mem_eraseP hu)
    · intro v hmem
      rcases List.mem_cons.mp hmem with rfl | hmem
      · exact hv
      · exact h.taken v hmem
  | ask b p before after x action next => exact h.ask
  | finish b p before after x =>
    exact h.handOver rfl rfl h.faults (forall_mem_replace h.hands trivial)
  | fail b p before after x e =>
    exact h.handOver rfl rfl h.faults (forall_mem_replace h.hands trivial)
  | panic b p before after x =>
    exact h.handOver rfl rfl h.faults (forall_mem_replace h.hands trivial)
  | release p before after v outcome _ =>
    obtain ⟨hown, hothers⟩ := forall_mem_middle.mp h.hands
    refine h.handOver rfl rfl h.faults (forall_mem_middle.mpr ⟨?_, hothers⟩)
    cases outcome <;> exact hown
  | count b p before after v =>
    exact h.handOver rfl rfl h.faults (forall_mem_middle.mp h.hands).2
  | notePanicked b p before after v =>
    exact h.handOver rfl rfl h.faults (forall_mem_middle.mp h.hands).2
  | noteFailed b p before after v e =>
    obtain ⟨hown, hothers⟩ := forall_mem_middle.mp h.hands
    refine h.handOver rfl rfl ?_ hothers
    intro fault hfault
    rcases List.mem_cons.mp hfault with rfl | hfault
    · exact hown
    · exact h.faults fault hfault

theorem Moves.valid {s s' : Scene F V E T O} (hm : Moves behaviour s s') (h : s.Valid) :
    s'.Valid := by
  induction hm with
  | refl => exact h
  | tail _ hstep ih => exact hstep.valid ih

/-! ## The errors of a run -/

/-- The errors that can end a run. -/
def EngineError.EndsRun : EngineError → Prop
  | .update .. | .workerPanicked | .aborted | .workerSpawn _ => True
  | _ => False

theorem EngineError.IsUpdate.endsRun {e : EngineError} (h : e.IsUpdate) : e.EndsRun := by
  cases e <;> first | exact h | trivial

theorem Board.Completes.failed_isUpdate {b b' : Board F V E T O} {x : Execution F}
    {program : Program F V T O Unit} {e : EngineError}
    (h : b.Completes x program (.failed e) b') : e.IsUpdate := by
  generalize ho : Outcome.failed e = outcome at h
  induction h with
  | abort _ ih => exact ih ho
  | done => cases ho
  | fail => cases ho; trivial
  | panic => cases ho
  | ask _ ih => exact ih ho

theorem Board.Executes.failed_isUpdate {b b' : Board F V E T O} {t : Task F} {e : EngineError}
    (h : b.Executes behaviour t (.failed e) b') (hv : b.graph.contains t.vertex = true) :
    e.IsUpdate := by
  cases h with
  | missing hl => cases hl.symm.trans (Board.load_eq_ok hv)
  | ran _ hc => exact hc.failed_isUpdate

end VertexEngine
