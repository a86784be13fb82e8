import VertexEngine.Proofs.Atomic
import VertexEngine.Proofs.Graph.Built
import VertexEngine.Proofs.Graph.Edit

/-!
# Changes of a graph that are refused

Every operation looks at the graph before it writes to it, so one that is refused has changed
nothing: neither a value, nor an edge, nor a list of edges.  It is refused only for a number that is
no vertex, or for want of room.
-/

namespace VertexEngine

namespace Graph

variable {V E : Type}

/-- An operation that is refused leaves the graph as it was. -/
theorem Operation.atomic (op : Operation V E) : Atomic op.edit := by
  cases op with
  | addVertex x =>
    refine .bind_succeeds (.get_bind fun g => ?_) fun _ => .pure ()
    split
    · exact .throw_bind _ _
    · exact (Succeeds.bind (.set _) fun _ => .pure _).atomic
  | addEdge source target data =>
    refine .bind_succeeds (.get_bind fun g => .check_bind fun _ => .check_bind fun _ => ?_)
      fun _ => .pure ()
    split
    · exact .throw_bind _ _
    · exact (Succeeds.bind (.set _) fun _ => .pure _).atomic
  | ensureVertices count x =>
    show Atomic (Graph.ensureVertices count x)
    unfold Graph.ensureVertices
    split
    · exact .throw_bind _ _
    · exact (Succeeds.modify _).atomic
  | fill x => exact (Succeeds.modify _).atomic
  | mapValues f => exact (Succeeds.modify _).atomic
  | setValue v x =>
    exact .get_bind fun g => .check_bind fun _ => (Succeeds.set _).atomic

/-- What a change of this graph may be refused for. -/
inductive Refuses (g : Graph V E) : EngineError → Prop
  | notFound {v : VertexId} (h : g.contains v = false) : Refuses g (.notFound v)
  | vertices : Refuses g (.graphFull maxVertices)
  | edges (h : maxEdges ≤ g.edgeCount) : Refuses g (.graphFull maxEdges)

theorem Operation.refuses {op : Operation V E} {g : Graph V E} {e : EngineError}
    (h : (op.edit.run g).1 = .error e) : g.Refuses e := by
  -- An answer that is dropped afterwards makes no difference to a refusal.
  have hanswer : ∀ {α : Type} {c : Edit V E α},
      ((c >>= fun _ => pure ()).run g).1 = .error e → (c.run g).1 = .error e := by
    intro α c hc
    cases ha : (c.run g).1 with
    | ok a =>
      rw [run_bind_of_ok ha] at hc
      cases hc
    | error e' =>
      rw [run_bind_of_error ha] at hc
      cases hc
      rfl
  cases op with
  | addVertex x =>
    have h := hanswer h
    rw [run_addVertex] at h
    split at h
    · cases h
      exact .vertices
    · cases h
  | addEdge source target data =>
    have h := hanswer h
    rw [run_addEdge] at h
    split at h
    · split at h
      · split at h
        · rename_i hfull
          cases h
          exact .edges hfull
        · cases h
      · rename_i htarget
        cases h
        exact .notFound (Bool.eq_false_iff.mpr htarget)
    · rename_i hsource
      cases h
      exact .notFound (Bool.eq_false_iff.mpr hsource)
  | ensureVertices count x =>
    have h : ((Graph.ensureVertices count x : Edit V E Unit).run g).1 = .error e := h
    rw [run_ensureVertices] at h
    split at h
    · cases h
      exact .vertices
    · cases h
  | fill x => cases h
  | mapValues f => cases h
  | setValue v x =>
    have h : ((Graph.setValue v x : Edit V E Unit).run g).1 = .error e := h
    rw [run_setValue] at h
    split at h
    · cases h
    · rename_i hv
      cases h
      exact .notFound (Bool.eq_false_iff.mpr hv)

end Graph

end VertexEngine
