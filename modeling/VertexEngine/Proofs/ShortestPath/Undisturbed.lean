import VertexEngine.Proofs.Core.Lifecycle
import VertexEngine.Proofs.Run.Undisturbed
import VertexEngine.Proofs.ShortestPath.Exact

/-!
# Relaxations end well

A relaxation reads vertices of the graph, asks for updates of vertices of the graph, and requests no
abort.  So a run of relaxations that nobody disturbs has no way to end but to converge.

* `relax_neverAborts` is about one relaxation.
* `Move.unharmed` says that no move of a run of relaxations lets a task fail.
* `Core.relaxes_undisturbed` is the result about runs of a core.
-/

namespace VertexEngine

variable {F V E W T O : Type} [Distance W]

namespace ShortestPath

/-! ## No abort is requested -/

theorem pull_neverAborts (best : W) (es : List (Edge W)) :
    (pull best es : Program F W T O W).NeverAborts := by
  induction es generalizing best with
  | nil => exact .done best
  | cons e rest ih => exact .bind (.read e.source) fun _ => ih _

theorem push_neverAborts (update : F) (distance : W) (es : List (Edge W)) :
    (push update distance es : Program F W T O Unit).NeverAborts := by
  induction es with
  | nil => exact .done ()
  | cons e rest ih =>
    refine .bind (.read e.target) fun there => ?_
    cases Distance.lt (Distance.add distance e.data) there with
    | false => exact ih
    | true => exact .bind (.schedule e.target update Priority.default) fun _ => ih

theorem relax_neverAborts (update : F) (t : Topology W) (v : VertexId) :
    (relax update t v : Program F W T O Unit).NeverAborts :=
  .bind (.read v) fun own => .bind (.ofExcept _) fun incoming =>
    .bind (pull_neverAborts own incoming.toList) fun distance => .bind (.write distance) fun _ =>
      .bind (.ofExcept _) fun outgoing => push_neverAborts update distance outgoing.toList

end ShortestPath

open ShortestPath

/-! ## No task fails -/

theorem Move.unharmed {behaviour : Behaviour F W W T O} {s s' : Scene F W W T O}
    (hm : Move behaviour s s') {r : Relaxation F W} (hr : r.Shows behaviour s) (hin : r.Inside)
    (hv : s.Valid) (h : s.Unharmed) : s'.Unharmed := by
  obtain ⟨hunfailed, hhands⟩ := h
  cases hm with
  | quiet hb _ => exact ⟨hb.unfailed hunfailed, hhands⟩
  | @take b p before after held _ t ht scheduler b' hb _ =>
    have hpresent : b.graph.contains t.vertex = true := hv.pending t (List.mem_of_find?_eq_some ht)
    subst hb
    rw [Board.begin_eq_running (by exact hpresent)]
    exact ⟨hunfailed.note rfl, forall_mem_middle.mpr ⟨rfl, hhands⟩⟩
  | ask b p before after x action next =>
    exact ⟨hunfailed.perform x action, forall_mem_replace hhands rfl⟩
  | finish b p before after x => exact ⟨hunfailed.note rfl, forall_mem_replace hhands rfl⟩
  | fail b p before after x e =>
    obtain ⟨hdone, -⟩ := hr.finish hin (by simp) rfl
    cases hdone
  | panic b p before after x =>
    obtain ⟨hdone, -⟩ := hr.finish hin (by simp) rfl
    cases hdone
  | release p before after v outcome _ =>
    exact ⟨hunfailed, forall_mem_replace hhands (forall_mem_middle.mp hhands).1⟩
  | count b p before after v => exact ⟨hunfailed.note rfl, (forall_mem_middle.mp hhands).2⟩
  | noteFailed b p before after v e => cases (forall_mem_middle.mp hhands).1
  | notePanicked b p before after v => cases (forall_mem_middle.mp hhands).1

variable [LawfulDistance W] {root : VertexId}

theorem Moves.unharmed {behaviour : Behaviour F W W T O} {s s' : Scene F W W T O}
    (hm : Moves behaviour s s') {r : Relaxation F W} (hr : r.Shows behaviour s)
    (hbounded : r.Bounded root) (hv : s.Valid) (h : s.Unharmed) : s'.Unharmed := by
  induction hm with
  | refl => exact h
  | tail hmoves hmove ih =>
    obtain ⟨r', hr', hbounded'⟩ :=
      Moves.relaxes Relaxation.Step.bounded Relaxation.Bounded.inside hmoves hr hbounded
    exact hmove.unharmed hr' hbounded'.inside (Moves.valid hmoves hv) ih

/-! ## Runs -/

/-- A run of relaxations that nobody disturbs converges, if it comes to its end, and leaves the
shortest distances. -/
theorem Core.relaxes_undisturbed {core : Core F W W T} (hc : core.Consistent)
    (ht : core.syncs.Total) (ha : core.abort = false) {g : Graph W W}
    (hg : core.heldGraph? = some g)
    (hsound : ∀ p : PendingList F, core.scheduler.queue.toList = p.tasks →
      Relaxation.Sound root ⟨g, p, []⟩)
    {first last : Machine F W W T O} (hl : core.launch = .ok first)
    (hw : first.WorksTo relax last) {conclusion : Conclusion} {next : Core F W W T}
    (hconclude : core.conclude? last = some (conclusion, next)) :
    conclusion = .converged (core.report last.board) ∧
      ∃ g', next.heldGraph? = some g' ∧ g'.toTopology = g.toTopology ∧
        g'.values.size = g.values.size ∧
        ∀ v, IsShortest g.toTopology root v (distanceAt g' v) := by
  obtain ⟨p, hp⟩ := hc.tracks
  obtain rfl := hp.queue.eq_pendingList
  obtain ⟨ho, hv⟩ := hc.launch hl
  obtain ⟨p', hmoves, -⟩ := hw.reaches.moves ho
  obtain ⟨-, hshows, hhands, hunfailed⟩ := launch_shows hc.toSound hg hp (fun _ _ => rfl) hl
  have hunharmed := Moves.unharmed hmoves hshows (hsound _ hp.queue.toList_eq).bounded hv
    (hunfailed.unharmed hhands)
  have habort : last.board.abort = false :=
    (hw.unaborted relax_neverAborts (launch_unaborted ha hl)).abort
  obtain ⟨deeds, hpasses⟩ := hw.passes
  have hconverged : conclusion = .converged (core.report last.board) := by
    rcases hc.conclusion_of_unfailed ht hl hpasses hconclude hunharmed.board with h | ⟨-, hraised⟩
    · exact h
    · cases habort.symm.trans hraised
  let r : Core.Run relax core := ⟨first, last, conclusion, next, hl, hw.reaches, hconclude⟩
  exact ⟨hconverged, r.isShortest hc.toSound hg hsound (fun _ _ => rfl) hconverged⟩

end VertexEngine
