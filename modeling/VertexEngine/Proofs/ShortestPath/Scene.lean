import VertexEngine.Proofs.ShortestPath.Relaxation

/-!
# Relaxations in a run

`Relaxation.Shows` ties a relaxation to the scene of a run whose tasks all relax, and `Move.relaxes`
says that every move of such a run is a step of its relaxation.  `Moves.relaxes` carries what the
steps keep along a whole run.
-/

namespace VertexEngine

namespace ShortestPath

variable {F W T O : Type} [Distance W]

/-- A hand in a run whose tasks all relax. -/
inductive Post (F W : Type) where
  | relaxing (x : Execution F) (progress : Progress W)
  | returned (vertex : VertexId) (outcome : Outcome)
  | completed (vertex : VertexId) (outcome : Outcome)

def Post.hand (t : Topology W) : Post F W → Hand F W T O
  | relaxing x progress => .running x (progress.program x.task.update t x.task.vertex)
  | returned v outcome => .returned v outcome
  | completed v outcome => .completed v outcome

def Post.job? : Post F W → Option (Job F W)
  | relaxing x progress => some ⟨x.task, progress⟩
  | returned .. => none
  | completed .. => none

/-- The relaxation is what is going on in the scene. -/
structure Relaxation.Shows (behaviour : Behaviour F W W T O) (r : Relaxation F W)
    (s : Scene F W W T O) : Prop where
  graph : s.board.graph = r.graph
  pending : s.pending = r.pending
  posts : ∃ posts : List (Post F W), s.hands = posts.map (Post.hand r.graph.toTopology) ∧
    posts.filterMap Post.job? = r.jobs
  tasks : ∀ t ∈ r.pending.tasks, behaviour t.update = relax t.update
  jobs : ∀ job ∈ r.jobs, behaviour job.task.update = relax job.task.update

theorem sublist_heldBy (t : Topology W) (posts : List (Post F W)) :
    ((posts.filterMap Post.job?).map (·.task.vertex)).Sublist
      (heldBy (posts.map (Post.hand t : Post F W → Hand F W T O))) := by
  induction posts with
  | nil => exact .slnil
  | cons post rest ih =>
    cases post with
    | relaxing x progress => exact ih.cons_cons _
    | returned v outcome => exact ih.cons _
    | completed v outcome => exact ih

/-- The posts of a row of hands, one of which is looked at. -/
theorem posts_split {t : Topology W} {posts : List (Post F W)} {before after : List (Hand F W T O)}
    {hand : Hand F W T O} (h : before ++ hand :: after = posts.map (Post.hand t)) :
    ∃ front post back, posts = front ++ post :: back ∧ before = front.map (Post.hand t) ∧
      hand = post.hand t ∧ after = back.map (Post.hand t) := by
  obtain ⟨front, rest, rfl, hfront, hrest⟩ := List.map_eq_append_iff.mp h.symm
  obtain ⟨post, back, rfl, hpost, hback⟩ := List.map_eq_cons_iff.mp hrest
  exact ⟨front, post, back, rfl, hfront.symm, hpost.symm, hback.symm⟩

/-- Of a hand whose program asks nothing, the post has tried every edge. -/
theorem post_eq_of_running {g : Graph W W} (hg : g.WellFormed) {post : Post F W}
    (hv : ∀ job ∈ post.job?, g.contains job.task.vertex = true) {x : Execution F}
    {program : Program F W T O Unit} (h : .running x program = post.hand g.toTopology)
    (hask : ∀ action next, program ≠ .ask action next) :
    ∃ distance, post = .relaxing x (.pushing distance []) ∧ program = .done () := by
  cases post with
  | returned v outcome => cases h
  | completed v outcome => cases h
  | relaxing x' progress =>
    obtain ⟨rfl, hprogram⟩ := Hand.running.inj h
    rcases program_cases hg (hv _ rfl) progress with ⟨distance, rfl⟩ | ⟨action, next, hasks⟩
    · exact ⟨distance, rfl, hprogram⟩
    · exact absurd (hprogram.trans hasks) (hask action next)

theorem job?_eq_none {t : Topology W} {post : Post F W} {hand : Hand F W T O}
    (h : hand = post.hand t) (hr : ∀ x program, hand ≠ .running x program) : post.job? = none := by
  cases post with
  | relaxing x progress => exact absurd h (hr x _)
  | returned v outcome => rfl
  | completed v outcome => rfl

namespace Relaxation.Shows

variable {behaviour : Behaviour F W W T O} {r r' : Relaxation F W} {s s' : Scene F W W T O}

/-- A step brings no function in, so it is enough to look at the graph, the tasks and the hands. -/
theorem step (h : r.Shows behaviour s) (hstep : r.Step r') (posts : List (Post F W))
    (hgraph : s'.board.graph = r'.graph) (hpending : s'.pending = r'.pending)
    (hhands : s'.hands = posts.map (Post.hand r'.graph.toTopology))
    (hjobs : posts.filterMap Post.job? = r'.jobs) :
    ∃ r', r'.Shows behaviour s' ∧ r.Step r' := by
  obtain ⟨htasks', hjobs'⟩ :=
    hstep.updates (P := fun update => behaviour update = relax update) h.tasks h.jobs
  exact ⟨r', ⟨hgraph, hpending, ⟨posts, hhands, hjobs⟩, htasks', hjobs'⟩, hstep⟩

/-- A worker gets a task. -/
theorem take {b b' : Board F W W T O} {p : PendingList F} {before after : List (Hand F W T O)}
    (h : r.Shows behaviour ⟨b, p, before ++ after⟩) (hb : b'.graph = b.graph) {t : Task F}
    (ht : Scheduler.firstFree (heldBy (before ++ after)) p = some t) :
    ∃ r', r'.Shows behaviour ⟨b', Scheduler.withoutFirstFree (heldBy (before ++ after)) p,
      before ++ b'.begin behaviour t :: after⟩ ∧ r.Step r' := by
  have hshows := h
  obtain ⟨hgraph, hpending, ⟨posts, hhands, hposts⟩, htasks, -⟩ := h
  obtain ⟨g, p', jobs⟩ := r
  obtain rfl : p = p' := hpending
  obtain rfl : posts.filterMap Post.job? = jobs := hposts
  obtain ⟨front, back, rfl, rfl, rfl⟩ := List.map_eq_append_iff.mp hhands.symm
  have hg : b'.graph = g := hb.trans hgraph
  cases hv : g.contains t.vertex with
  | true =>
    have hload : b'.load behaviour t = .ok (relax t.update g.toTopology t.vertex) := by
      rw [Board.load, Graph.check, hg, if_pos hv, htasks t (List.mem_of_find?_eq_some ht)]
      rfl
    have hfree : t.vertex ∉
        (front.filterMap Post.job? ++ back.filterMap Post.job?).map (·.task.vertex) := by
      intro hmem
      rw [← List.filterMap_append] at hmem
      refine Scheduler.not_mem_of_firstFree ht ?_
      rw [← List.map_append]
      exact (sublist_heldBy g.toTopology (front ++ back)).subset hmem
    rw [List.filterMap_append] at hshows ⊢
    refine hshows.step (.take ht hv hfree) (front ++ .relaxing ⟨t, 0⟩ .fresh :: back) hg rfl ?_ ?_
    · rw [Board.begin, hload, List.map_append]
      rfl
    · rw [List.filterMap_append]
      rfl
  | false =>
    have hload : b'.load behaviour t = .error (.notFound t.vertex) := by
      rw [Board.load, Graph.check, hg, if_neg (by rw [hv]; exact Bool.false_ne_true)]
      rfl
    refine hshows.step (.drop ht hv)
      (front ++ .returned t.vertex (.failed (.notFound t.vertex)) :: back) hg rfl ?_ ?_
    · rw [Board.begin, hload, List.map_append]
      rfl
    · rw [List.filterMap_append, List.filterMap_append]
      rfl

/-- A hand that runs nothing is changed, or put away. -/
theorem rearrange {b b' : Board F W W T O} {p : PendingList F} {before after : List (Hand F W T O)}
    {hand : Hand F W T O} (h : r.Shows behaviour ⟨b, p, before ++ hand :: after⟩)
    (hr : ∀ x program, hand ≠ .running x program) (hb : b'.graph = b.graph)
    (new : List (Post F W)) (hnew : new.filterMap Post.job? = []) :
    ∃ r', r'.Shows behaviour
      ⟨b', p, before ++ new.map (Post.hand r.graph.toTopology) ++ after⟩ ∧ r.Step r' := by
  obtain ⟨posts, hhands, hposts⟩ := h.posts
  obtain ⟨front, post, back, rfl, rfl, hhand, rfl⟩ := posts_split hhands
  refine h.step (.idle r) (front ++ new ++ back) (hb.trans h.graph) h.pending ?_ ?_
  · rw [List.map_append, List.map_append]
  · rw [← hposts]
    simp only [List.filterMap_append, List.filterMap_cons, job?_eq_none hhand hr, hnew,
      List.append_nil]

theorem remove {b b' : Board F W W T O} {p : PendingList F} {before after : List (Hand F W T O)}
    {hand : Hand F W T O} (h : r.Shows behaviour ⟨b, p, before ++ hand :: after⟩)
    (hr : ∀ x program, hand ≠ .running x program) (hb : b'.graph = b.graph) :
    ∃ r', r'.Shows behaviour ⟨b', p, before ++ after⟩ ∧ r.Step r' := by
  have hnew := h.rearrange hr hb [] rfl
  rw [List.map_nil, List.append_nil] at hnew
  exact hnew

/-- A relaxation asks its next question. -/
theorem ask {b : Board F W W T O} {p : PendingList F} {before after : List (Hand F W T O)}
    {x : Execution F} {action : Action F W O} {next : action.Answer T → Program F W T O Unit}
    (h : r.Shows behaviour ⟨b, p, before ++ .running x (.ask action next) :: after⟩)
    (hin : r.Inside) :
    ∃ r', r'.Shows behaviour ⟨(b.perform x action).2.2, b.afterAction action p,
      before ++ .running (b.perform x action).2.1 (next (b.perform x action).1) :: after⟩ ∧
      r.Step r' := by
  have hshows := h
  obtain ⟨hgraph, hpending, ⟨posts, hhands, hposts⟩, -, -⟩ := h
  obtain ⟨g, p', jobs⟩ := r
  obtain rfl : p = p' := hpending
  obtain rfl : posts.filterMap Post.job? = jobs := hposts
  obtain ⟨front, post, back, rfl, rfl, hhand, rfl⟩ := posts_split hhands
  cases post with
  | returned v outcome => cases hhand
  | completed v outcome => cases hhand
  | relaxing x' progress =>
    obtain ⟨rfl, hprogram⟩ := Hand.running.inj hhand
    have hjob : (⟨x.task, progress⟩ : Job F W) ∈
        (front ++ .relaxing x progress :: back).filterMap Post.job? := by
      rw [List.filterMap_append]
      exact List.mem_append_right _ List.mem_cons_self
    obtain ⟨progress', hnext, htopology, hstep⟩ :=
      ask_step hin.graph (hin.vertex _ hjob) (hin.edges _ hjob) hgraph hprogram.symm
    have hstep' := hstep p (front.filterMap Post.job?) (back.filterMap Post.job?)
    rw [List.filterMap_append] at hshows ⊢
    refine hshows.step hstep' (front ++ .relaxing (b.perform x action).2.1 progress' :: back)
      rfl rfl ?_ ?_
    · simp only [List.map_append, List.map_cons, Post.hand, Board.perform_task, htopology, hnext]
    · simp only [List.filterMap_append, List.filterMap_cons, Post.job?, Board.perform_task]

/-- A relaxation that asks nothing more is done: it can neither fail nor panic. -/
theorem finish {b b' : Board F W W T O} {p : PendingList F} {before after : List (Hand F W T O)}
    {x : Execution F} {program : Program F W T O Unit}
    (h : r.Shows behaviour ⟨b, p, before ++ .running x program :: after⟩) (hin : r.Inside)
    (hask : ∀ action next, program ≠ .ask action next) (hb : b'.graph = b.graph) :
    program = .done () ∧ ∃ r', r'.Shows behaviour
      ⟨b', p, before ++ .returned x.task.vertex .finished :: after⟩ ∧ r.Step r' := by
  have hshows := h
  obtain ⟨hgraph, hpending, ⟨posts, hhands, hposts⟩, -, -⟩ := h
  obtain ⟨g, p', jobs⟩ := r
  obtain rfl : p = p' := hpending
  obtain rfl : posts.filterMap Post.job? = jobs := hposts
  obtain ⟨front, post, back, rfl, rfl, hhand, rfl⟩ := posts_split hhands
  have hvertex : ∀ job ∈ post.job?, g.contains job.task.vertex = true := by
    intro job hj
    exact hin.vertex job (List.mem_filterMap.mpr ⟨post, by simp, hj⟩)
  obtain ⟨distance, rfl, hdone⟩ := post_eq_of_running hin.graph hvertex hhand hask
  have hstep := Relaxation.Step.finish g p (front.filterMap Post.job?) (back.filterMap Post.job?)
    x.task distance
  rw [List.filterMap_append] at hshows ⊢
  refine ⟨hdone, hshows.step hstep (front ++ .returned x.task.vertex .finished :: back)
    (hb.trans hgraph) rfl ?_ ?_⟩
  · rw [List.map_append]
    rfl
  · rw [List.filterMap_append]
    rfl

end Relaxation.Shows

end ShortestPath

open ShortestPath in
/-- A move of a run whose tasks all relax is a step of the relaxation. -/
theorem Move.relaxes {F W T O : Type} [Distance W] {behaviour : Behaviour F W W T O}
    {s s' : Scene F W W T O} (hm : Move behaviour s s') {r : Relaxation F W}
    (hr : r.Shows behaviour s) (hin : r.Inside) : ∃ r', r'.Shows behaviour s' ∧ r.Step r' := by
  cases hm with
  | quiet hb _ =>
    obtain ⟨posts, hhands, hposts⟩ := hr.posts
    exact hr.step (.idle r) posts (hb.graph.trans hr.graph) hr.pending hhands hposts
  | take hheld ht hb hq =>
    subst hheld
    exact hr.take (by rw [hb]; rfl) ht
  | ask b p before after x action next => exact hr.ask hin
  | finish b p before after x =>
    exact (hr.finish hin (by simp)
      (show (b.note (.updated x.task.vertex)).graph = b.graph from rfl)).2
  | fail b p before after x e =>
    obtain ⟨hdone, -⟩ := hr.finish hin (by simp) rfl
    cases hdone
  | panic b p before after x =>
    obtain ⟨hdone, -⟩ := hr.finish hin (by simp) rfl
    cases hdone
  | @release b p before after v outcome scheduler hq =>
    have hnew := hr.rearrange (by simp)
      (show ({ b with scheduler } : Board F W W T O).graph = b.graph from rfl)
      [.completed v outcome] rfl
    rw [List.append_assoc] at hnew
    exact hnew
  | count b p before after v => exact hr.remove (by simp) rfl
  | noteFailed b p before after v e => exact hr.remove (by simp) rfl
  | notePanicked b p before after v => exact hr.remove (by simp) rfl

open ShortestPath in
/-- What every step of a relaxation keeps holds all along a run. -/
theorem Moves.relaxes {F W T O : Type} [Distance W] {behaviour : Behaviour F W W T O}
    {P : Relaxation F W → Prop} (hkeep : ∀ {r r'}, r.Step r' → P r → P r')
    (hin : ∀ {r}, P r → r.Inside) {s s' : Scene F W W T O} (hm : Moves behaviour s s')
    {r : Relaxation F W} (hr : r.Shows behaviour s) (h : P r) :
    ∃ r' : Relaxation F W, r'.Shows behaviour s' ∧ P r' := by
  induction hm with
  | refl => exact ⟨r, hr, h⟩
  | tail _ hmove ih =>
    obtain ⟨r', hr', h'⟩ := ih
    obtain ⟨r'', hr'', hstep⟩ := hmove.relaxes hr' (hin h')
    exact ⟨r'', hr'', hkeep hstep h'⟩

end VertexEngine
