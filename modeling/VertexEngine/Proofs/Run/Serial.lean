import VertexEngine.Proofs.Core.Lifecycle

/-!
# One execution at a time on a vertex

A worker that was given a task keeps its vertex until the task has ended, and nobody else writes to
it.  So the executions on one vertex follow one another, and each finds the value that the one
before it left.  When tasks go in the order of their arrival, those of one vertex are executed in
that order.

* `underWay` are the vertices on which a program runs, and `Moves.value_eq` says that the value of
  no other vertex changes.
* `Register.KeepsOrder` says that the tickets of a vertex are executed in their order.
* `executions_serial` is the result about whole runs.
-/

namespace VertexEngine

variable {F V E T O : Type} {behaviour : Behaviour F V E T O}

/-! ## Values -/

/-- The vertex on which the program of a hand runs. -/
def Hand.runsOn? : Hand F V T O → Option VertexId
  | .running x _ => some x.task.vertex
  | _ => none

/-- The vertices on which programs run. -/
def underWay (hands : List (Hand F V T O)) : List VertexId :=
  hands.filterMap Hand.runsOn?

theorem mem_underWay_middle {before after : List (Hand F V T O)} {hand : Hand F V T O}
    {v : VertexId} : v ∈ underWay (before ++ hand :: after) ↔
      hand.runsOn? = some v ∨ v ∈ underWay (before ++ after) := by
  have hperm : (underWay (before ++ hand :: after)).Perm (underWay (hand :: (before ++ after))) :=
    List.perm_middle.filterMap _
  rw [hperm.mem_iff]
  unfold underWay
  rw [List.filterMap_cons]
  cases hand.runsOn? with
  | none => simp
  | some w => simp [eq_comm]

/-- A program runs on a vertex that its worker holds. -/
theorem sublist_underWay_heldBy (hands : List (Hand F V T O)) :
    (underWay hands).Sublist (heldBy hands) := by
  induction hands with
  | nil => exact .slnil
  | cons hand rest ih =>
    cases hand with
    | running x program => exact ih.cons_cons _
    | returned v outcome => exact ih.cons _
    | completed v outcome => exact ih

theorem runsOn?_begin {b : Board F V E T O} {t : Task F} {v : VertexId}
    (h : (b.begin behaviour t).runsOn? = some v) : t.vertex = v := by
  unfold Board.begin at h
  split at h
  · exact Option.some.inj h
  · cases h

/-- Tasks that were taken stay taken. -/
theorem Move.count_taken_le {s s' : Scene F V E T O} (hm : Move behaviour s s') (v : VertexId) :
    s.board.taken.count v ≤ s'.board.taken.count v := by
  cases hm with
  | quiet hb _ => rw [hb.taken]
  | @take b p before after held _ t ht scheduler b' hb _ =>
    subst hb
    exact List.count_le_count_cons
  | ask b p before after x action next => rw [Board.perform_taken]
  | _ => exact Nat.le_refl _

theorem Moves.count_taken_le {s s' : Scene F V E T O} (hm : Moves behaviour s s') (v : VertexId) :
    s.board.taken.count v ≤ s'.board.taken.count v := by
  induction hm with
  | refl => exact Nat.le_refl _
  | tail _ hstep ih => exact Nat.le_trans ih (hstep.count_taken_le v)

/-- The value of a vertex on which no program runs does not change, as long as no task for it is
taken. -/
theorem Move.value_eq {s s' : Scene F V E T O} (hm : Move behaviour s s') {v : VertexId}
    (hv : v ∉ underWay s.hands) (hc : s'.board.taken.count v = s.board.taken.count v) :
    s'.board.graph.value v = s.board.graph.value v ∧ v ∉ underWay s'.hands := by
  have hend : ∀ {before after : List (Hand F V T O)} {old new : Hand F V T O},
      v ∉ underWay (before ++ old :: after) → new.runsOn? = none →
      v ∉ underWay (before ++ new :: after) := by
    intro before after old new hold hnew
    rw [mem_underWay_middle] at hold ⊢
    simpa [hnew] using fun h => hold (.inr h)
  have hput : ∀ {before after : List (Hand F V T O)} {old : Hand F V T O},
      v ∉ underWay (before ++ old :: after) → v ∉ underWay (before ++ after) :=
    fun hold h => hold (mem_underWay_middle.mpr (.inr h))
  cases hm with
  | quiet hb _ => exact ⟨by rw [hb.graph], hv⟩
  | @take b p before after held _ t ht scheduler b' hb _ =>
    have htaken : b'.taken = t.vertex :: b.taken := by rw [hb]; rfl
    have hne : t.vertex ≠ v := by
      rintro rfl
      have hc : b'.taken.count t.vertex = b.taken.count t.vertex := hc
      rw [htaken, List.count_cons_self] at hc
      omega
    refine ⟨by rw [hb]; rfl, fun h => ?_⟩
    rcases mem_underWay_middle.mp h with hnew | hold
    · exact hne (runsOn?_begin hnew)
    · exact hv hold
  | ask b p before after x action next =>
    have hne : v ≠ x.task.vertex := by
      rintro rfl
      exact hv (mem_underWay_middle.mpr (.inl rfl))
    refine ⟨b.perform_value_of_ne x action hne, fun h => ?_⟩
    rcases mem_underWay_middle.mp h with hnew | hold
    · rw [Hand.runsOn?, Board.perform_task] at hnew
      exact hne (Option.some.inj hnew).symm
    · exact hput hv hold
  | finish b p before after x => exact ⟨rfl, hend hv rfl⟩
  | fail b p before after x e => exact ⟨rfl, hend hv rfl⟩
  | panic b p before after x => exact ⟨rfl, hend hv rfl⟩
  | release p before after w outcome _ => exact ⟨rfl, hend hv rfl⟩
  | count b p before after w => exact ⟨rfl, hput hv⟩
  | noteFailed b p before after w e => exact ⟨rfl, hput hv⟩
  | notePanicked b p before after w => exact ⟨rfl, hput hv⟩

theorem Moves.value_eq {s s' : Scene F V E T O} (hm : Moves behaviour s s') {v : VertexId}
    (hv : v ∉ underWay s.hands) (hc : s'.board.taken.count v = s.board.taken.count v) :
    s'.board.graph.value v = s.board.graph.value v := by
  have hboth : s'.board.graph.value v = s.board.graph.value v ∧ v ∉ underWay s'.hands := by
    induction hm with
    | refl => exact ⟨rfl, hv⟩
    | @tail s₁ s₂ hmoves hstep ih =>
      have hfirst := Moves.count_taken_le hmoves v
      have hlast := hstep.count_taken_le v
      obtain ⟨hvalue, hv₁⟩ := ih (by omega)
      obtain ⟨hvalue', hv₂⟩ := hstep.value_eq hv₁ (by omega)
      exact ⟨hvalue'.trans hvalue, hv₂⟩
  exact hboth.1

/-! ## Tickets -/

namespace Register

variable {r : Register F}

/-- The tickets of each vertex are executed in their order. -/
def KeepsOrder (r : Register F) : Prop :=
  ∀ v, ((r.executed.reverse ++ r.pending.tasks).map Task.stub).filter (·.1 == v) =
    r.enqueued.zipIdx.filter (·.1 == v)

theorem KeepsOrder.place (h : r.KeepsOrder) (hk : r.pending.kind = .fifo)
    (hn : r.pending.policy.isDeduplicating = true → (r.pending.tasks.map Task.vertex).Nodup)
    (v : VertexId) (update : F) (priority : Float) : (r.place v update priority).KeepsOrder := by
  intro w
  have hold := h w
  rw [List.map_append] at hold
  rcases r.place_eq v update priority with ⟨t, finite, hd, ht, -, hplace⟩ |
    ⟨tasks, finite, htasks, -, hplace⟩
  · rw [hplace, List.map_append, PendingList.stub_merge_fifo hk (hn hd) ht]
    exact hold
  · have hlast :
        tasks.map Task.stub = r.pending.tasks.map Task.stub ++ [(v, r.enqueued.length)] := by
      rw [htasks, hk, PendingList.insert, List.map_append]
      rfl
    rw [hplace, List.map_append, hlast, ← List.append_assoc, List.filter_append, hold,
      List.zipIdx_append, List.filter_append, Nat.zero_add]
    rfl

theorem KeepsOrder.take (h : r.KeepsOrder) (v : VertexId) : (r.take v).KeepsOrder := by
  intro w
  unfold Register.take
  split
  · rename_i t hfirst
    obtain ⟨as, bs, htasks, ht, has, herase⟩ := find?_split hfirst
    have hmoved : ((t :: (as ++ bs)).map Task.stub).filter (·.1 == w) =
        ((as ++ t :: bs).map Task.stub).filter (·.1 == w) := by
      rw [List.map_append, List.map_cons, List.map_cons, List.map_append, List.filter_append]
      by_cases hw : v = w
      · -- No task before it is for the same vertex.
        have hnone : (as.map Task.stub).filter (·.1 == w) = [] := by
          refine List.filter_eq_nil_iff.mpr fun x hx => ?_
          obtain ⟨a, ha, rfl⟩ := List.mem_map.mp hx
          simpa [Task.stub, ← hw] using has a ha
        rw [hnone, List.nil_append, List.filter_cons, List.filter_cons, List.filter_append, hnone,
          List.nil_append]
      · have hother : (t.stub.1 == w) = false := by
          have htv : t.vertex = v := by simpa using ht
          simpa [Task.stub, htv] using hw
        rw [List.filter_cons, List.filter_cons, hother, List.filter_append]
        rfl
    have hold := h w
    rw [htasks, List.map_append, List.filter_append, ← hmoved, ← List.filter_append,
      ← List.map_append] at hold
    rw [herase, List.reverse_cons, List.append_assoc, List.singleton_append]
    exact hold
  · exact h w

theorem opened_keepsOrder (q : TaskQueue F) : (opened q).KeepsOrder := by
  intro v
  have hstubs : (opened q).pending.tasks.map Task.stub = (opened q).enqueued.zipIdx := by
    simp only [opened, List.map_map]
    rw [List.zipIdx_map]
    rfl
  show (((opened q).pending.tasks).map Task.stub).filter (·.1 == v) = _
  rw [hstubs]

end Register

/-- When tasks go in the order of their arrival, no move changes the order of the tickets of a
vertex. -/
theorem Move.keepsOrder {s s' : Scene F V E T O} (hm : Move behaviour s s') (hs : s.Sound)
    {r : Register F} {start : List VertexId} (hr : (s.board.register r).Matches start s)
    (hk : s.pending.kind = .fifo) (h : (s.board.register r).KeepsOrder) :
    (s'.board.register r).KeepsOrder := by
  cases hm with
  | quiet hb _ =>
    rw [Register.register_quiet hb]
    exact h
  | @take b p before after held hheld t ht scheduler b' hb hq =>
    subst hb
    exact h.take t.vertex
  | ask b p before after x action next =>
    have hkind : (b.register r).pending.kind = .fifo := by
      rw [← hk, ← hr.pending]
      rfl
    have hnodup : (b.register r).pending.policy.isDeduplicating = true →
        ((b.register r).pending.tasks.map Task.vertex).Nodup := by
      have hvertices := hs.queue.nodup_vertices
      rw [← hr.pending, PendingList.rename, List.map_map] at hvertices
      exact hvertices
    have heffect := b.perform_effect x action
    generalize (b.perform x action).2.1 = x', (b.perform x action).2.2 = b' at heffect
    cases heffect with
    | @requested v update priority _ => exact h.place hkind hnodup v update priority
    | _ => exact h
  | _ => exact h

theorem Moves.keepsOrder {s s' : Scene F V E T O} (hm : Moves behaviour s s') (hs : s.Sound)
    {r : Register F} {start : List VertexId} (hr : (s.board.register r).Matches start s)
    (hk : s.pending.kind = .fifo) (h : (s.board.register r).KeepsOrder) :
    (s'.board.register r).KeepsOrder := by
  induction hm with
  | refl => exact h
  | tail hmoves hstep ih =>
    have hkind := (Moves.kind hmoves).1.trans hk
    exact hstep.keepsOrder (Moves.sound hmoves hs) (Moves.matches hmoves hs hr) hkind ih

/-- What was dispatched is what was taken. -/
theorem Register.dispatched_register (b : Board F V E T O) (r : Register F) :
    (b.register r).dispatched.map Task.vertex = b.taken ++ r.dispatched.map Task.vertex := by
  have hplace : ∀ (r : Register F) v update priority,
      (r.place v update priority).dispatched = r.dispatched := by
    intro r v update priority
    unfold Register.place
    split <;> rfl
  have htake : ∀ (r : Register F) v, (r.take v).dispatched = r.dispatched := by
    intro r v
    unfold Register.take
    split <;> rfl
  unfold Board.register Board.taken
  induction b.history with
  | nil => rfl
  | cons e history ih =>
    rw [List.foldr_cons, List.filterMap_cons]
    cases e with
    | placed v update priority placement =>
      exact (congrArg (List.map Task.vertex) (hplace _ v update priority)).trans ih
    | dispatched t =>
      refine (congrArg (fun d => t.vertex :: List.map Task.vertex d) (htake _ t.vertex)).trans ?_
      exact congrArg (t.vertex :: ·) ih
    | _ => exact ih

/-- Every task that was taken is counted, or ended well and is still to be counted, or failed, or is
still to end. -/
theorem Register.Matches.taken_length {q : TaskQueue F} {start : List VertexId}
    {b : Board F V E T O} {p : PendingList F} {hands : List (Hand F V T O)}
    (h : (b.register (.opened q)).Matches start ⟨b, p, hands⟩) :
    b.taken.length = b.updates + hands.countP Hand.isUncounted +
      (b.register (.opened q)).stopped.length + (hands.filterMap Hand.unfinished?).length := by
  have htaken := congrArg List.length (Register.dispatched_register b (.opened q))
  have hended := h.ended.length_eq
  have hcounted := h.counted
  rw [← h.executed] at htaken
  simp only [List.length_map, List.length_append, Register.opened, List.length_nil,
    Nat.add_zero] at htaken hended hcounted
  rw [← htaken, ← hcounted]
  exact hended

/-! ## Whole runs -/

/-- A worker that takes a task has found it free, and changes no value by taking it. -/
theorem Threaded.Phase.Step.of_taken {index : Nat} {b b' : Board F V E T O}
    {old new : Phase F V T O} {e : Option EngineError} {v : VertexId}
    (h : old.Step behaviour index b new b' e) (ht : b'.taken = v :: b.taken) :
    ∃ t scheduler, t.vertex = v ∧ b.scheduler.dispatch b.abort = (.run t, scheduler) ∧
      b'.graph = b.graph ∧ heldBy new.hands = [v] := by
  have hsame : ∀ {P : Prop}, b.taken = v :: b.taken → P := by
    intro P hcons
    exact absurd (congrArg List.length hcons) (by simp)
  cases h with
  | load hd hl =>
    obtain rfl := (List.cons.inj ht).1
    exact ⟨_, _, rfl, hd, rfl, rfl⟩
  | miss hd hl =>
    obtain rfl := (List.cons.inj ht).1
    exact ⟨_, _, rfl, hd, rfl, rfl⟩
  | ask x action next =>
    rw [Board.perform_taken] at ht
    exact hsame ht
  | _ => exact hsame ht

theorem Threaded.Pool.Orderly.of_taken {p p' : Pool F V E T O} {pending : PendingList F}
    (h : p.Orderly pending) {a : Actor} (hs : p.step behaviour a = some p') {v : VertexId}
    (ht : p'.board.taken = v :: p.board.taken) :
    v ∉ heldBy p.hands ∧ v ∈ heldBy p'.hands ∧ p'.board.graph = p.board.graph := by
  unfold Pool.step at hs
  split at hs
  · rename_i hrunning
    cases a with
    | pool =>
      obtain ⟨-, hquiet, -⟩ := h.stepPool hrunning hs
      rw [hquiet.taken] at ht
      exact absurd (congrArg List.length ht) (by simp)
    | worker index =>
      obtain ⟨old, new, b, e, hw, hstep, rfl⟩ := Pool.stepWorker_eq_some hs
      obtain ⟨t, scheduler, rfl, hd, hgraph, hhands⟩ := hstep.of_taken ht
      obtain ⟨p', held', hdec, -⟩ := h.tracks.dispatch p.board.abort
      rw [hd] at hdec
      refine ⟨?_, ?_, hgraph⟩
      · cases hdec with
        | handOut _ hfirst => exact Scheduler.not_mem_of_firstFree hfirst
      · obtain ⟨before, after, -, -, hset⟩ := Pool.split_workers hw
        have hmem : t.vertex ∈ heldBy new.hands := by simp [hhands]
        simp [Pool.hands, Pool.stepped, hset, hmem]
  · cases hs

/-- No two executions on a vertex overlap: the vertices that workers hold are all different, and a
task is taken only for a vertex that nobody holds.  Between two executions the value of the vertex
stays as it is.  When tasks go in the order of their arrival, those of one vertex are executed in
the order in which they were enqueued.  Whatever becomes of the run, the edges and the number of
vertices stay, and so does the value of a vertex for which no task was taken. -/
theorem executions_serial {core : Core F V E T} (hc : core.Reachable behaviour)
    {m₀ m : Machine F V E T O} (hl : core.launch = .ok m₀) (hr : m₀.Reaches behaviour m) :
    let r := m.board.register (.opened core.scheduler.queue)
    (heldBy m.hands).Nodup ∧
      (∀ pool pool' a v, m = .threaded pool → pool.step behaviour a = some pool' →
        pool'.board.taken = v :: pool.board.taken →
          v ∉ heldBy pool.hands ∧ v ∈ heldBy pool'.hands ∧
            pool'.board.graph = pool.board.graph) ∧
      (∀ v m', v ∉ underWay m.hands → m.Reaches behaviour m' →
        m'.board.taken.count v = m.board.taken.count v →
          m'.board.graph.value v = m.board.graph.value v) ∧
      (core.options.scheduler = .fifo →
        r.enqueued = core.scheduler.queue.toList.map Task.vertex ++ r.accepted ∧
          r.executed.map (Task.rename Prod.snd) = r.dispatched ∧
          r.dispatched.map Task.vertex = m.board.taken ∧
          ∀ v, ((r.executed.reverse ++ r.pending.tasks).map Task.stub).filter (·.1 == v) =
            r.enqueued.zipIdx.filter (·.1 == v)) ∧
      ∃ g, core.heldGraph? = some g ∧ m.board.graph.toTopology = g.toTopology ∧
        m.board.graph.vertexCount = g.vertexCount ∧
        (∀ v ∉ m.board.taken, m.board.graph.value v = g.value v) ∧
        ∀ conclusion core', core.conclude? m = some (conclusion, core') →
          core'.heldGraph? = some m.board.graph := by
  intro r
  have hconsistent := hc.consistent
  obtain ⟨p₀, hp₀⟩ := hc.sound.tracks
  obtain ⟨g, hg, ho₀, hhands, hquiet, -⟩ := Core.launch_eq_ok hl hc.sound hp₀
  obtain ⟨p, hmoves, ho⟩ := hr.moves ho₀
  have hgraph : m₀.board.graph = g := hquiet.graph
  have htaken : m₀.board.taken = [] := hquiet.taken
  have hsound : (m₀.scene p₀).Sound := ⟨ho₀.tracks.queue, ho₀.tracks.nodup⟩
  have hopened : m₀.board.register (.opened core.scheduler.queue) = .opened core.scheduler.queue :=
    Register.register_quiet hquiet _
  have hmatches : (m₀.board.register (.opened core.scheduler.queue)).Matches
      (core.scheduler.queue.toList.map Task.vertex) (m₀.scene p₀) := by
    rw [Machine.scene, hhands, hopened]
    exact Register.opened_matches hp₀.queue hquiet.updates
  have hvalue : ∀ v ∉ m.board.taken, m.board.graph.value v = g.value v := by
    intro v hv
    rw [← hgraph]
    refine Moves.value_eq hmoves ?_ ?_
    · rw [Machine.scene, hhands]
      exact List.not_mem_nil
    · rw [Machine.scene, Machine.scene, htaken, List.count_nil]
      exact List.count_eq_zero_of_not_mem hv
  obtain ⟨htopology, hsize⟩ := Moves.topology hmoves
  rw [Machine.scene, Machine.scene, hgraph] at htopology hsize
  refine ⟨ho.tracks.nodup, ?_, ?_, ?_, g, hg, htopology, hsize, hvalue, ?_⟩
  · rintro pool pool' a v rfl hstep hcons
    exact Threaded.Pool.Orderly.of_taken ho hstep hcons
  · intro v m' hv hr' hcount
    obtain ⟨p', hmoves', -⟩ := hr'.moves ho
    exact Moves.value_eq hmoves' hv hcount
  · intro hkind
    have hmatches' := Moves.matches hmoves hsound hmatches
    refine ⟨hmatches'.enqueued, hmatches'.executed, ?_, ?_⟩
    · have hdispatched := Register.dispatched_register m.board (.opened core.scheduler.queue)
      rw [show (Register.opened core.scheduler.queue).dispatched = [] from rfl, List.map_nil,
        List.append_nil] at hdispatched
      exact hdispatched
    · refine Moves.keepsOrder hmoves hsound hmatches ?_ ?_
      · exact hp₀.queue.kind.trans (hconsistent.kind.trans hkind)
      · rw [Machine.scene, hopened]
        exact Register.opened_keepsOrder _
  · intro conclusion core' hconclude
    cases Core.concludes_of_eq_some hconclude <;> rfl

/-- Adds one to the value of the vertex. -/
def addOne : Behaviour Unit Nat Unit Nat Empty :=
  fun _ _ v => do
    let x ← Program.read v
    Program.write (x + 1)

/-- A core with one vertex, two tasks for it, and two workers. -/
def twoTasks : Core Unit Nat Unit Nat where
  options := { engine := .threaded, ncpus := 2, policy := .multiset }
  stage := .bound ((Graph.Operation.addVertex 0).edit.run {}).2
  scheduler := (((Scheduler.empty .fifo .multiset).schedule 0 () 1).1.schedule 0 () 1).1

theorem reachable_twoTasks : twoTasks.Reachable addOne :=
  .operation (.operation (.operation
    (.new (rfl : Core.withOptions twoTasks.options = .ok _))
    (.setGraph _ (.operation .empty (.addVertex 0)))) (.schedule 0 () 1)) (.schedule 0 () 1)

/-- Its workers before they have moved. -/
def twoTasksPool : Threaded.Pool Unit Nat Unit Nat Empty :=
  .start ((twoTasks.boardOn ((Graph.Operation.addVertex 0).edit.run {}).2).note
    (.loopStarted .threaded)) 2

/-- The first worker has finished a task while the second one was waiting. -/
def oneTaskDone : Threaded.Pool Unit Nat Unit Nat Empty :=
  twoTasksPool.interleave addOne [.worker 0, .worker 1, .worker 0, .worker 1, .worker 0, .worker 0,
    .worker 0, .worker 0]

/-- The second worker gets its task once the first one has given the vertex back, and finds what
that one wrote. -/
theorem executions_serial_twoTasks :
    (Machine.threaded twoTasksPool).Reaches addOne (.threaded oneTaskDone) ∧
      0 ∉ heldBy oneTaskDone.hands ∧
      ∃ pool', oneTaskDone.step addOne (.worker 1) = some pool' ∧ 0 ∈ heldBy pool'.hands ∧
        pool'.board.graph.value 0 = .ok 1 := by
  have hlaunch : twoTasks.launch = .ok (.threaded twoTasksPool) := rfl
  have hreach : (Machine.threaded twoTasksPool).Reaches addOne (.threaded oneTaskDone) :=
    Machine.reaches_interleave addOne twoTasksPool _
  obtain ⟨-, htaken, -⟩ := executions_serial reachable_twoTasks hlaunch hreach
  have htakes : (oneTaskDone.step addOne (.worker 1)).map (·.board.taken) =
      some (0 :: oneTaskDone.board.taken) := rfl
  obtain ⟨pool', hstep, hcons⟩ := Option.map_eq_some_iff.mp htakes
  obtain ⟨hfree, hheld, hgraph⟩ := htaken oneTaskDone pool' (.worker 1) 0 rfl hstep hcons
  have hvalue : oneTaskDone.board.graph.value 0 = .ok 1 := rfl
  exact ⟨hreach, hfree, pool', hstep, hheld, by rw [hgraph, hvalue]⟩

end VertexEngine
