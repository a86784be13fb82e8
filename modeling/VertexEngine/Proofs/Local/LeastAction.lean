import VertexEngine.Proofs.Core.Lifecycle
import VertexEngine.Proofs.Local.Scene
import VertexEngine.Proofs.Run.Cause

/-!
# The least action

If one run of a local program comes to its end and nothing has failed, then no other run from the
same graph and the same pending vertices takes more of any vertex than that one did.  For as long as
a run stays within this, whatever is pending in it still has room, and no execution fails.

* `Scene.Lawful` is what all moves of a run of a local program keep.
* `Follows.exhausts` says that a scene with nothing left to do has done all that the law asks for.
* `Moves.bounded` says that another run stays within this.
-/

namespace VertexEngine

variable {F V E T O : Type} {behaviour : Behaviour F V E T O} {law : Law V} {g : Graph V E}
  {update : F} {start : List VertexId}

/-! ## Along a run -/

/-- A scene of a run of a local program that merges nothing. -/
structure Scene.Lawful (law : Law V) (g : Graph V E) (update : F) (start : List VertexId)
    (s : Scene F V E T O) : Prop where
  sound : s.Sound
  valid : s.Valid
  policy : s.pending.policy = .multiset
  follows : s.Follows law g update start

theorem Move.lawful {s s' : Scene F V E T O} (hm : Move behaviour s s')
    (hlaw : law.Governs g behaviour update) (ha : s.board.abort = false)
    (h : s.Lawful law g update start) : s'.Lawful law g update start where
  sound := hm.sound h.sound
  valid := hm.valid h.valid
  policy := hm.kind.2.trans h.policy
  follows := hm.follows hlaw h.sound h.valid h.policy ha h.follows

theorem Moves.lawful {s s' : Scene F V E T O} (hm : Moves behaviour s s')
    (hlaw : law.Governs g behaviour update) (ha : s'.board.abort = false)
    (h : s.Lawful law g update start) : s'.Lawful law g update start := by
  induction hm with
  | refl => exact h
  | tail _ hstep ih =>
    have hbefore := mt hstep.abort (ne_true_of_eq_false ha)
    rw [Bool.not_eq_true] at hbefore
    exact hstep.lawful hlaw hbefore (ih hbefore)

namespace Scene.Follows

variable {s : Scene F V E T O}

/-- No vertex has asked for more than the executions on it ask for together. -/
theorem requests_le (h : s.Follows law g update start) (w v : VertexId) :
    s.board.requests.count (w, v) ≤ (law.targets g w (s.board.taken.count w)).count v := by
  by_cases hw : w ∈ underWay s.hands
  · obtain ⟨x, program, hmem, rfl⟩ := mem_underWay.mp hw
    obtain ⟨k, y, effect, hk, hpursues, -⟩ := h.running x program hmem
    rw [hk, ← hpursues.requests v]
    exact Nat.le_add_right _ _
  · exact Nat.le_of_eq ((h.still w hw).1.requests v)

end Scene.Follows

/-! ## The least action in a run -/

/-- Nothing has failed, and no vertex was taken more often than in the given list. -/
structure Scene.Bounded (taken : List VertexId) (s : Scene F V E T O) : Prop where
  unharmed : s.Unharmed
  count_le : ∀ w, s.board.taken.count w ≤ taken.count w

/-- A program that runs in the bounds of executions that end well does not fail. -/
theorem Scene.Bounded.succeeds {taken : List VertexId} {requests : List (VertexId × VertexId)}
    {s : Scene F V E T O} (h : s.Bounded taken) (hf : s.Follows law g update start)
    (hx : law.Exhausts g start taken requests) {x : Execution F} {program : Program F V T O Unit}
    (hmem : .running x program ∈ s.hands) :
    ∃ y effect, program.Obeys g.contains update x.task.vertex y x.scheduled effect ∧
      effect.succeeds = true := by
  obtain ⟨k, y, effect, hk, hpursues, -⟩ := hf.running x program hmem
  refine ⟨y, effect, hpursues.obeys, ?_⟩
  rw [← hpursues.succeeds]
  refine hx.succeeds x.task.vertex k ?_
  calc k < k + 1 := Nat.lt_succ_self k
    _ = s.board.taken.count x.task.vertex := hk.symm
    _ ≤ taken.count x.task.vertex := h.count_le x.task.vertex

theorem Move.bounded {taken : List VertexId} {requests : List (VertexId × VertexId)}
    {s s' : Scene F V E T O} (hm : Move behaviour s s') (hl : s.Lawful law g update start)
    (hx : law.Exhausts g start taken requests) (h : s.Bounded taken) : s'.Bounded taken := by
  have hun := h.unharmed.board
  have hhands := h.unharmed.hands
  have hle := h.count_le
  cases hm with
  | quiet hb _ => exact ⟨⟨hb.unfailed hun, hhands⟩, fun w => by rw [hb.taken]; exact hle w⟩
  | @take b p before after held hheld t ht scheduler b' hb _ =>
    have hmem : t ∈ p.tasks := List.mem_of_find?_eq_some ht
    have hroom : b.taken.count t.vertex < taken.count t.vertex :=
      hx.count_lt hle hl.follows.requests_le hl.follows.balance (List.mem_map_of_mem hmem)
    subst hb
    rw [Board.begin_eq_running (by exact hl.valid.pending t hmem)]
    refine ⟨⟨hun.note rfl, forall_mem_middle.mpr ⟨rfl, hhands⟩⟩, fun w => ?_⟩
    show (t.vertex :: b.taken).count w ≤ taken.count w
    by_cases hw : t.vertex = w
    · subst hw
      rw [List.count_cons_self]
      exact hroom
    · rw [List.count_cons_of_ne hw]
      exact hle w
  | ask b p before after x action next =>
    refine ⟨⟨hun.perform x action, forall_mem_replace hhands rfl⟩, fun w => ?_⟩
    rw [b.perform_taken]
    exact hle w
  | finish => exact ⟨⟨hun.note rfl, forall_mem_replace hhands rfl⟩, hle⟩
  | fail b p before after x e =>
    obtain ⟨y, effect, hobeys, htrue⟩ := h.succeeds hl.follows hx mem_middle_self
    cases hobeys
    cases htrue
  | panic b p before after x =>
    obtain ⟨y, effect, hobeys, htrue⟩ := h.succeeds hl.follows hx mem_middle_self
    cases hobeys
    cases htrue
  | release p before after v outcome _ =>
    obtain ⟨hold, hothers⟩ := forall_mem_middle.mp hhands
    exact ⟨⟨hun, forall_mem_middle.mpr ⟨hold, hothers⟩⟩, hle⟩
  | count b p before after v =>
    exact ⟨⟨hun.note rfl, (forall_mem_middle.mp hhands).2⟩, hle⟩
  | noteFailed b p before after v e => cases hhands _ mem_middle_self
  | notePanicked b p before after v => cases hhands _ mem_middle_self

/-- A run without aborts does not get beyond what another run has done to the end. -/
theorem Moves.bounded {taken : List VertexId} {requests : List (VertexId × VertexId)}
    {s s' : Scene F V E T O} (hm : Moves behaviour s s') (hlaw : law.Governs g behaviour update)
    (ha : s'.board.abort = false) (hl : s.Lawful law g update start)
    (hx : law.Exhausts g start taken requests) (h : s.Bounded taken) : s'.Bounded taken := by
  induction hm with
  | refl => exact h
  | tail hmoves hstep ih =>
    have hbefore := mt hstep.abort (ne_true_of_eq_false ha)
    rw [Bool.not_eq_true] at hbefore
    exact hstep.bounded (Moves.lawful hmoves hlaw hbefore hl) hx (ih hbefore)

end VertexEngine
