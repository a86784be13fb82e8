import VertexEngine.Proofs.Local.Law
import VertexEngine.Proofs.Run.Serial

/-!
# A local program in a run

In a run in which all tasks carry one local program, every vertex is where the law has it after the
executions on it so far, or a worker is about to bring it there.  Nothing is said about the order in
which vertices have their turns.

* `Law.Rests` and `Law.Pursues` say this of a vertex on which no program runs, and of one on which a
  program runs.
* `Scene.Follows` says it of the whole scene, and accounts for what is pending.
* `Move.follows` is the step lemma.
-/

namespace VertexEngine

variable {F V E T O : Type} {behaviour : Behaviour F V E T O}

/-! ## Running hands -/

theorem mem_underWay {hands : List (Hand F V T O)} {w : VertexId} :
    w ∈ underWay hands ↔ ∃ x program, .running x program ∈ hands ∧ x.task.vertex = w := by
  constructor
  · intro h
    obtain ⟨hand, hmem, hruns⟩ := List.mem_filterMap.mp h
    cases hand with
    | running x program => exact ⟨x, program, hmem, Option.some.inj hruns⟩
    | returned v outcome => cases hruns
    | completed v outcome => cases hruns
  · rintro ⟨x, program, hmem, rfl⟩
    exact List.mem_filterMap.mpr ⟨_, hmem, rfl⟩

/-- No other program runs on the vertex of an execution. -/
theorem vertex_ne_of_running {before after : List (Hand F V T O)} {x y : Execution F}
    {program rest : Program F V T O Unit}
    (hn : (heldBy (before ++ .running x program :: after)).Nodup)
    (h : .running y rest ∈ before ++ after) : y.task.vertex ≠ x.task.vertex := by
  rw [heldBy_append, heldBy_running, List.perm_middle.nodup_iff, ← heldBy_append] at hn
  have hmem : y.task.vertex ∈ heldBy (before ++ after) :=
    List.mem_filterMap.mpr ⟨_, h, rfl⟩
  exact fun he => (List.nodup_cons.mp hn).1 (he ▸ hmem)

theorem mem_middle_of_mem {before after : List (Hand F V T O)} {hand new : Hand F V T O}
    (h : hand ∈ before ++ after) : hand ∈ before ++ new :: after :=
  List.perm_middle.mem_iff.mpr (List.mem_cons_of_mem _ h)

theorem mem_middle_self {before after : List (Hand F V T O)} {new : Hand F V T O} :
    new ∈ before ++ new :: after :=
  List.perm_middle.mem_iff.mpr List.mem_cons_self

/-! ## Requests -/

namespace Board

variable {b : Board F V E T O} {w : VertexId} {priority : Float}

theorem checkRequest_of_present (b : Board F V E T O) (hw : b.graph.contains w = true)
    (priority : Float) : b.checkRequest w priority = Priority.check priority := by
  rw [checkRequest, Graph.check, if_pos hw]
  rfl

theorem checkRequest_of_missing (b : Board F V E T O) (hw : b.graph.contains w = false)
    (priority : Float) : b.checkRequest w priority = .error (.notFound w) := by
  rw [checkRequest, Graph.check, if_neg (by simp [hw])]
  rfl

theorem perform_accepted (h : b.checkRequest w priority = .ok ()) (x : Execution F) (f : F) :
    b.perform x (.schedule w f priority : Action F V O) =
        (.ok (), { x with scheduled := x.scheduled + 1 },
          (b.note (.requested x.task.vertex w)).schedule w f priority) ∧
      b.request? (.schedule w f priority : Action F V O) = some (w, f, priority) := by
  constructor
  · rw [perform, h]
  · rw [request?, h]

theorem perform_refused {e : EngineError} (h : b.checkRequest w priority = .error e)
    (x : Execution F) (f : F) :
    b.perform x (.schedule w f priority : Action F V O) = (.error e, x, b) ∧
      b.request? (.schedule w f priority : Action F V O) = none := by
  constructor
  · rw [perform, h]
  · rw [request?, h]

/-- Only the vertex that a program runs on asks for more by it. -/
theorem count_perform_requests_of_ne (b : Board F V E T O) (x : Execution F)
    (action : Action F V O) {w : VertexId} (hw : w ≠ x.task.vertex) (v : VertexId) :
    (b.perform x action).2.2.requests.count (w, v) = b.requests.count (w, v) := by
  rw [perform_requests]
  split
  · exact List.count_cons_of_ne fun he => hw (Prod.mk.inj he).1.symm
  · rfl

end Board

/-- Under a policy that merges nothing every request becomes a task. -/
theorem PendingList.perm_push_multiset {p : PendingList F} (hp : p.policy = .multiset)
    (v : VertexId) (update : F) (priority : Float) :
    ∃ t, t.vertex = v ∧ t.update = update ∧
      (p.push v update priority).1.tasks.Perm (t :: p.tasks) := by
  have hnew : (p.policy.isDeduplicating && p.contains v) = false := by rw [hp]; rfl
  refine ⟨⟨v, update, TaskQueue.effectivePriority priority⟩, rfl, rfl, ?_⟩
  rw [push, hnew, insert_eq_place]
  exact perm_place _ p.kind _ p.tasks

/-! ## Where a vertex stands -/

namespace Law

variable {law : Law V} {g : Graph V E} {update : F} {b : Board F V E T O}

/-- After `k` executions nothing runs on the vertex. -/
structure Rests (law : Law V) (g : Graph V E) (b : Board F V E T O) (w : VertexId) (k : Nat) :
    Prop where
  value : b.graph.value w = law.value g w k
  requests : ∀ v, b.requests.count (w, v) = (law.targets g w k).count v

/-- After `k` executions another one is under way, which has the value at `y` and comes to the
effect. -/
structure Pursues (law : Law V) (g : Graph V E) (update : F) (b : Board F V E T O)
    (x : Execution F) (program : Program F V T O Unit) (k : Nat) (y : V) (effect : Effect V) :
    Prop where
  value : b.graph.value x.task.vertex = .ok y
  obeys : program.Obeys g.contains update x.task.vertex y x.scheduled effect
  final : law.value g x.task.vertex (k + 1) = .ok effect.value
  succeeds : law.succeeds g x.task.vertex k = effect.succeeds
  requests : ∀ v, b.requests.count (x.task.vertex, v) + effect.targets.count v =
    (law.targets g x.task.vertex (k + 1)).count v

/-- Only the value of the vertex and what was asked for from it matter. -/
theorem Rests.congr {b' : Board F V E T O} {w : VertexId} {k : Nat} (h : law.Rests g b w k)
    (hvalue : b'.graph.value w = b.graph.value w)
    (hrequests : ∀ v, b'.requests.count (w, v) = b.requests.count (w, v)) :
    law.Rests g b' w k :=
  ⟨hvalue.trans h.value, fun v => (hrequests v).trans (h.requests v)⟩

theorem Pursues.congr {b' : Board F V E T O} {x : Execution F} {program : Program F V T O Unit}
    {k : Nat} {y : V} {effect : Effect V} (h : law.Pursues g update b x program k y effect)
    (hvalue : b'.graph.value x.task.vertex = b.graph.value x.task.vertex)
    (hrequests : ∀ v, b'.requests.count (x.task.vertex, v) =
      b.requests.count (x.task.vertex, v)) :
    law.Pursues g update b' x program k y effect :=
  ⟨hvalue.trans h.value, h.obeys, h.final, h.succeeds, fun v => by rw [hrequests v, h.requests v]⟩

/-- An execution that has nothing more to do leaves its vertex at rest. -/
theorem Pursues.rests {x : Execution F} {program : Program F V T O Unit} {k : Nat} {y : V}
    {effect : Effect V} (h : law.Pursues g update b x program k y effect)
    (hvalue : effect.value = y) (htargets : effect.targets = []) :
    law.Rests g b x.task.vertex (k + 1) := by
  refine ⟨?_, fun v => ?_⟩
  · rw [h.value, h.final, hvalue]
  · have hcount := h.requests v
    rw [htargets] at hcount
    exact hcount

/-- An answer that changes nothing leaves the program on its way to the same effect. -/
theorem Pursues.answered {x : Execution F} {action : Action F V O}
    {next : action.Answer T → Program F V T O Unit} {k : Nat} {y : V} {effect : Effect V}
    (h : law.Pursues g update b x (.ask action next) k y effect) {answer : action.Answer T}
    (hanswer : b.perform x action = (answer, x, b))
    (hnext : (next answer).Obeys g.contains update x.task.vertex y x.scheduled effect) :
    law.Pursues g update (b.perform x action).2.2 (b.perform x action).2.1
      (next (b.perform x action).1) k y effect := by
  rw [hanswer]
  exact ⟨h.value, hnext, h.final, h.succeeds, h.requests⟩

/-- A request that is accepted is one less to come. -/
theorem Pursues.requested {x : Execution F} {w : VertexId} {f : F} {priority : Float}
    {next : Except EngineError Unit → Program F V T O Unit} {k : Nat} {y : V} {rest : Effect V}
    (h : law.Pursues g update b x (.ask (.schedule w f priority) next) k y
      { rest with targets := w :: rest.targets })
    (hnext : (next (.ok ())).Obeys g.contains update x.task.vertex y (x.scheduled + 1) rest) :
    law.Pursues g update ((b.note (.requested x.task.vertex w)).schedule w f priority)
      { x with scheduled := x.scheduled + 1 } (next (.ok ())) k y rest := by
  refine ⟨h.value, hnext, h.final, h.succeeds, fun v => ?_⟩
  have hcount := h.requests v
  have hnew : ((b.note (.requested x.task.vertex w)).schedule w f priority).requests =
      (x.task.vertex, w) :: b.requests := rfl
  simp only [List.count_cons] at hcount
  rw [hnew, List.count_cons]
  simp only [Prod.mk.injEq, true_and, beq_iff_eq] at hcount ⊢
  omega

/-- An action of the program brings it nearer to the same effect. -/
theorem Pursues.ask {x : Execution F} {action : Action F V O}
    {next : action.Answer T → Program F V T O Unit} {k : Nat} {y : V} {effect : Effect V}
    (h : law.Pursues g update b x (.ask action next) k y effect)
    (hcontains : b.graph.contains = g.contains) (habort : b.abort = false) :
    ∃ y' effect', law.Pursues g update (b.perform x action).2.2 (b.perform x action).2.1
      (next (b.perform x action).1) k y' effect' := by
  have hvalue := h.value
  cases h.obeys with
  | readOwn hnext => exact ⟨y, effect, h.answered (by rw [Board.perform, hvalue]) hnext⟩
  | readOther hw hnext =>
    rw [← hcontains] at hw
    obtain ⟨z, hz⟩ := Graph.contains_iff_value.mp hw
    exact ⟨y, effect, h.answered (by rw [Board.perform, hz]) (hnext z)⟩
  | readMissing hw hnext =>
    rw [← hcontains] at hw
    have hmissing := Graph.value_of_not_contains hw
    exact ⟨y, effect, h.answered (by rw [Board.perform, hmissing]) hnext⟩
  | @write _ z _ _ _ hnext =>
    have hpresent : b.graph.contains x.task.vertex = true :=
      Graph.contains_iff_value.mpr ⟨y, hvalue⟩
    exact ⟨z, effect, Graph.value_withValue_self hpresent z, hnext, h.final, h.succeeds, h.requests⟩
  | schedule hw hp hnext =>
    rw [← hcontains] at hw
    obtain ⟨hanswer, -⟩ :=
      Board.perform_accepted ((b.checkRequest_of_present hw _).trans hp) x update
    rw [hanswer]
    exact ⟨y, _, h.requested hnext⟩
  | scheduleMissing hw hnext =>
    rw [← hcontains] at hw
    exact ⟨y, effect,
      h.answered (Board.perform_refused (b.checkRequest_of_missing hw _) x _).1 hnext⟩
  | scheduleInvalid hw hp hnext =>
    rw [← hcontains] at hw
    have hcheck := (b.checkRequest_of_present hw _).trans hp
    exact ⟨y, effect, h.answered (Board.perform_refused hcheck x _).1 hnext⟩
  | countScheduled hnext => exact ⟨y, effect, h.answered rfl hnext⟩
  | pollAbort hnext => exact ⟨y, effect, h.answered (by rw [Board.perform, habort]) hnext⟩
  | @readShared _ _ sync _ _ hnext =>
    have hanswer : ∃ answer, b.perform x (.readShared sync : Action F V O) = (answer, x, b) := by
      simp only [Board.perform]
      split
      · exact ⟨_, rfl⟩
      · exact ⟨_, rfl⟩
    obtain ⟨answer, hanswer⟩ := hanswer
    exact ⟨y, effect, h.answered hanswer (hnext answer)⟩
  | observe hnext => exact ⟨y, effect, hvalue, hnext, h.final, h.succeeds, h.requests⟩

/-- All that the program asks for is the update function itself. -/
theorem Pursues.update_eq {x : Execution F} {action : Action F V O}
    {next : action.Answer T → Program F V T O Unit} {k : Nat} {y : V} {effect : Effect V}
    (h : law.Pursues g update b x (.ask action next) k y effect)
    (hcontains : b.graph.contains = g.contains) {v : VertexId} {f : F} {priority : Float}
    (hr : b.request? action = some (v, f, priority)) : f = update := by
  cases h.obeys with
  | schedule hw hp _ =>
    rw [← hcontains] at hw
    obtain ⟨-, hrequest⟩ :=
      Board.perform_accepted ((b.checkRequest_of_present hw _).trans hp) x update
    cases hrequest.symm.trans hr
    rfl
  | scheduleMissing hw _ =>
    rw [← hcontains] at hw
    obtain ⟨-, hrequest⟩ := Board.perform_refused (b.checkRequest_of_missing hw _) x _
    cases hrequest.symm.trans hr
  | scheduleInvalid hw hp _ =>
    rw [← hcontains] at hw
    obtain ⟨-, hrequest⟩ := Board.perform_refused ((b.checkRequest_of_present hw _).trans hp) x _
    cases hrequest.symm.trans hr
  | _ => cases hr

end Law

/-! ## The whole scene -/

/-- Everything is where the law has it, or on the way there, and what is pending is what was asked
for and not taken yet. -/
structure Scene.Follows (law : Law V) (g : Graph V E) (update : F) (start : List VertexId)
    (s : Scene F V E T O) : Prop where
  contains : s.board.graph.contains = g.contains
  topology : s.board.graph.toTopology = g.toTopology
  updates : ∀ t ∈ s.pending.tasks, t.update = update
  balance : ∀ v, (s.pending.tasks.map Task.vertex).count v + s.board.taken.count v =
    start.count v + (s.board.requests.map Prod.snd).count v
  still : ∀ w ∉ underWay s.hands, law.Rests g s.board w (s.board.taken.count w) ∧
    (s.Unharmed → ∀ i < s.board.taken.count w, law.succeeds g w i = true)
  running : ∀ x program, .running x program ∈ s.hands → ∃ k y effect,
    s.board.taken.count x.task.vertex = k + 1 ∧
      law.Pursues g update s.board x program k y effect ∧
      (s.Unharmed → ∀ i < k, law.succeeds g x.task.vertex i = true)

namespace Scene.Follows

variable {law : Law V} {g : Graph V E} {update : F} {start : List VertexId}
  {s s' : Scene F V E T O}

/-- Only the graph, what was taken and asked for, what is pending, and the programs that run
matter. -/
theorem congr (h : s.Follows law g update start) (hgraph : s'.board.graph = s.board.graph)
    (htaken : s'.board.taken = s.board.taken) (hrequests : s'.board.requests = s.board.requests)
    (hpending : s'.pending = s.pending)
    (hhands : ∀ x program, .running x program ∈ s'.hands ↔ .running x program ∈ s.hands)
    (hun : s'.Unharmed → s.Unharmed) : s'.Follows law g update start := by
  have hunder : ∀ w, w ∈ underWay s'.hands ↔ w ∈ underWay s.hands := by
    intro w
    simp only [mem_underWay, hhands]
  refine ⟨hgraph ▸ h.contains, hgraph ▸ h.topology, hpending ▸ h.updates, ?_, ?_, ?_⟩
  · rw [hpending, htaken, hrequests]
    exact h.balance
  · intro w hw
    rw [hunder] at hw
    obtain ⟨hrests, hok⟩ := h.still w hw
    rw [htaken]
    exact ⟨hrests.congr (by rw [hgraph]) (by simp [hrequests]), fun hu => hok (hun hu)⟩
  · intro x program hmem
    rw [hhands] at hmem
    obtain ⟨k, y, effect, hk, hpursues, hok⟩ := h.running x program hmem
    rw [htaken]
    exact ⟨k, y, effect, hk, hpursues.congr (by rw [hgraph]) (by simp [hrequests]),
      fun hu => hok (hun hu)⟩

/-- A program has ended. -/
theorem ended {b : Board F V E T O} {p : PendingList F} {before after : List (Hand F V T O)}
    {x : Execution F} {program : Program F V T O Unit} {new : Hand F V T O}
    (h : Follows law g update start ⟨b, p, before ++ .running x program :: after⟩)
    (hnew : new.runsOn? = none)
    (hend : ∀ k y effect, law.Pursues g update b x program k y effect →
      law.Rests g b x.task.vertex (k + 1) ∧
        (new.isHarmed = false → law.succeeds g x.task.vertex k = true)) :
    Follows law g update start ⟨b, p, before ++ new :: after⟩ := by
  have hun : Scene.Unharmed ⟨b, p, before ++ new :: after⟩ →
      Scene.Unharmed ⟨b, p, before ++ .running x program :: after⟩ := by
    exact fun hu => ⟨hu.board, forall_mem_replace hu.hands rfl⟩
  refine ⟨h.contains, h.topology, h.updates, h.balance, fun w hw => ?_, fun y rest hmem => ?_⟩
  · by_cases hxw : x.task.vertex = w
    · subst hxw
      obtain ⟨k, y, effect, hk, hpursues, hok⟩ := h.running x program mem_middle_self
      obtain ⟨hrests, hsucceeds⟩ := hend k y effect hpursues
      refine ⟨hk ▸ hrests, fun hu i hi => ?_⟩
      have hi : i < b.taken.count x.task.vertex := hi
      rcases Nat.lt_succ_iff_lt_or_eq.mp (hk ▸ hi) with hi | rfl
      · exact hok (hun hu) i hi
      · exact hsucceeds (hu.hands new mem_middle_self)
    · have hold : w ∉ underWay (before ++ .running x program :: after) := by
        rw [mem_underWay_middle] at hw ⊢
        rintro (hx | hothers)
        · exact hxw (Option.some.inj hx)
        · exact hw (.inr hothers)
      obtain ⟨hrests, hok⟩ := h.still w hold
      exact ⟨hrests, fun hu => hok (hun hu)⟩
  · have hothers : .running y rest ∈ before ++ after := by
      rw [List.perm_middle.mem_iff, List.mem_cons] at hmem
      rcases hmem with rfl | hmem
      · cases hnew
      · exact hmem
    obtain ⟨k, z, effect, hk, hpursues, hok⟩ := h.running y rest (mem_middle_of_mem hothers)
    exact ⟨k, z, effect, hk, hpursues, fun hu => hok (hun hu)⟩

/-- A worker is given a task. -/
theorem taken {b b' : Board F V E T O} {p p' : PendingList F} {before after : List (Hand F V T O)}
    {t : Task F} (h : Follows law g update start ⟨b, p, before ++ after⟩)
    (hlaw : law.Governs g behaviour update) (ht : t ∈ p.tasks)
    (hv : b.graph.contains t.vertex = true) (hfree : t.vertex ∉ heldBy (before ++ after))
    (hp : p.tasks.Perm (t :: p'.tasks)) (hgraph : b'.graph = b.graph)
    (htaken : b'.taken = t.vertex :: b.taken) (hrequests : b'.requests = b.requests)
    (hun : b'.Unfailed → b.Unfailed) :
    Follows law g update start ⟨b', p', before ++ b'.begin behaviour t :: after⟩ := by
  have hbegin :
      b'.begin behaviour t = .running ⟨t, 0⟩ (behaviour update g.toTopology t.vertex) := by
    rw [Board.begin_eq_running (hgraph ▸ hv), hgraph, h.topology, h.updates t ht]
  have hfree' : t.vertex ∉ underWay (before ++ after) :=
    fun hmem => hfree ((sublist_underWay_heldBy _).subset hmem)
  have hun' : Scene.Unharmed ⟨b', p', before ++ b'.begin behaviour t :: after⟩ →
      Scene.Unharmed ⟨b, p, before ++ after⟩ :=
    fun hu => ⟨hun hu.board, (forall_mem_middle.mp hu.hands).2⟩
  have hcount : ∀ w, w ≠ t.vertex → b'.taken.count w = b.taken.count w := by
    intro w hw
    rw [htaken, List.count_cons_of_ne (Ne.symm hw)]
  have hself : b'.taken.count t.vertex = b.taken.count t.vertex + 1 := by
    rw [htaken, List.count_cons_self]
  refine ⟨hgraph ▸ h.contains, hgraph ▸ h.topology, ?_, ?_, ?_, ?_⟩
  · exact fun u hu => h.updates u (hp.mem_iff.mpr (List.mem_cons_of_mem _ hu))
  · intro v
    have hbalance := h.balance v
    have hpending := (hp.map Task.vertex).count_eq v
    simp only [List.map_cons, List.count_cons, htaken, hrequests] at hbalance hpending ⊢
    omega
  · intro w hw
    rw [hbegin, mem_underWay_middle] at hw
    have hne : w ≠ t.vertex := fun he => hw (.inl (congrArg some he.symm))
    obtain ⟨hrests, hok⟩ := h.still w fun hmem => hw (.inr hmem)
    simp only [hcount w hne]
    exact ⟨hrests.congr (by rw [hgraph]) (by simp [hrequests]), fun hu => hok (hun' hu)⟩
  · intro x program hmem
    rw [List.perm_middle.mem_iff, List.mem_cons] at hmem
    rcases hmem with hnew | hold
    · rw [hbegin] at hnew
      cases hnew
      obtain ⟨⟨hvalue, hrests⟩, hok⟩ := h.still t.vertex hfree'
      obtain ⟨y, hy⟩ := Graph.contains_iff_value.mp hv
      have hk := hvalue.symm.trans hy
      refine ⟨b.taken.count t.vertex, y, law t.vertex y, hself, ?_, fun hu => hok (hun' hu)⟩
      refine ⟨hgraph ▸ hy, ?_, Law.value_succ hk, Law.succeeds_eq hk, fun v => ?_⟩
      · exact hlaw t.vertex y (h.contains ▸ hv)
      · rw [Law.targets_succ hk, List.count_append, hrequests]
        exact congrArg (· + _) (hrests v)
    · have hne : x.task.vertex ≠ t.vertex := by
        intro he
        exact hfree' (mem_underWay.mpr ⟨x, program, hold, he⟩)
      obtain ⟨k, y, effect, hk, hpursues, hok⟩ := h.running x program hold
      exact ⟨k, y, effect, (hcount _ hne).trans hk,
        hpursues.congr (by rw [hgraph]) (by simp [hrequests]), fun hu => hok (hun' hu)⟩

/-- A program takes a step. -/
theorem asked (behaviour : Behaviour F V E T O) {b : Board F V E T O} {p : PendingList F}
    {before after : List (Hand F V T O)}
    {x : Execution F} {action : Action F V O} {next : action.Answer T → Program F V T O Unit}
    (h : Follows law g update start ⟨b, p, before ++ .running x (.ask action next) :: after⟩)
    (hn : (heldBy (before ++ .running x (.ask action next) :: after)).Nodup)
    (hp : p.policy = .multiset) (ha : b.abort = false) :
    Follows law g update start ⟨(b.perform x action).2.2, b.afterAction action p,
      before ++ .running (b.perform x action).2.1 (next (b.perform x action).1) :: after⟩ := by
  have hmove : Move behaviour ⟨b, p, before ++ .running x (.ask action next) :: after⟩ _ :=
    .ask b p before after x action next
  have hun := fun hu => hmove.unharmed_of hu
  obtain ⟨k, y, effect, hk, hpursues, hok⟩ := h.running x _ mem_middle_self
  obtain ⟨y', effect', hpursues'⟩ := hpursues.ask h.contains ha
  have hvertex : (b.perform x action).2.1.task.vertex = x.task.vertex := by rw [b.perform_task]
  have htaken : (b.perform x action).2.2.taken = b.taken := b.perform_taken x action
  refine ⟨(b.perform_contains x action).trans h.contains, hmove.topology.1.trans h.topology, ?_, ?_,
    ?_, ?_⟩
  · intro t ht
    simp only [Board.afterAction] at ht
    split at ht
    · rename_i v f priority hasks
      obtain ⟨u, -, hu, hperm⟩ := PendingList.perm_push_multiset hp v f priority
      rcases List.mem_cons.mp (hperm.mem_iff.mp ht) with rfl | ht
      · exact hu.trans (hpursues.update_eq h.contains hasks)
      · exact h.updates t ht
    · exact h.updates t ht
  · intro v
    have hbalance := h.balance v
    simp only [Board.afterAction, htaken, b.perform_requests]
    rcases b.request? action with _ | ⟨w, f, priority⟩
    · exact hbalance
    · obtain ⟨u, hu, -, hperm⟩ := PendingList.perm_push_multiset hp w f priority
      have hcount := (hperm.map Task.vertex).count_eq v
      simp only [List.map_cons, List.count_cons, hu] at hbalance hcount ⊢
      omega
  · intro w hw
    rw [mem_underWay_middle] at hw
    have hne : w ≠ x.task.vertex := fun he => hw (.inl (congrArg some (hvertex.trans he.symm)))
    obtain ⟨hrests, hok⟩ := h.still w fun hmem => by
      rcases mem_underWay_middle.mp hmem with hx | hothers
      · exact hne (Option.some.inj hx).symm
      · exact hw (.inr hothers)
    simp only [htaken]
    exact ⟨hrests.congr (b.perform_value_of_ne x action hne)
      (b.count_perform_requests_of_ne x action hne), fun hu => hok (hun hu)⟩
  · intro z rest hmem
    rw [List.perm_middle.mem_iff, List.mem_cons] at hmem
    rcases hmem with hnew | hold
    · cases hnew
      refine ⟨k, y', effect', ?_, hpursues', fun hu => ?_⟩
      · rw [htaken, hvertex]
        exact hk
      · rw [hvertex]
        exact hok (hun hu)
    · have hne := vertex_ne_of_running hn hold
      obtain ⟨k, y, effect, hk, hpursues, hok⟩ := h.running z rest (mem_middle_of_mem hold)
      refine ⟨k, y, effect, by rw [htaken]; exact hk, ?_, fun hu => hok (hun hu)⟩
      exact hpursues.congr (b.perform_value_of_ne x action hne)
        (b.count_perform_requests_of_ne x action hne)

end Scene.Follows

/-- Every move keeps to the law, as long as no abort is requested. -/
theorem Move.follows {law : Law V} {g : Graph V E} {update : F} {start : List VertexId}
    {s s' : Scene F V E T O} (hm : Move behaviour s s') (hlaw : law.Governs g behaviour update)
    (hs : s.Sound) (hv : s.Valid) (hp : s.pending.policy = .multiset) (ha : s.board.abort = false)
    (h : s.Follows law g update start) : s'.Follows law g update start := by
  have hun := fun hu => hm.unharmed_of hu
  cases hm with
  | quiet hb _ => exact h.congr hb.graph hb.taken hb.requests rfl (fun _ _ => .rfl) hun
  | @take b p before after held hheld t ht scheduler b' hb _ =>
    have hmem : t ∈ p.tasks := List.mem_of_find?_eq_some ht
    have hfree : t.vertex ∉ heldBy (before ++ after) := hheld ▸ Scheduler.not_mem_of_firstFree ht
    subst hb
    exact h.taken hlaw hmem (hv.pending t hmem) hfree (perm_cons_eraseP ht) rfl rfl rfl
      fun hu e he => hu e (List.mem_cons_of_mem _ he)
  | ask b p before after x action next => exact h.asked behaviour hs.alone hp ha
  | finish b p before after x =>
    have hnoted : Scene.Follows law g update start
        ⟨b.note (.updated x.task.vertex), p, before ++ .running x (.done ()) :: after⟩ :=
      h.congr rfl rfl rfl rfl (fun _ _ => .rfl)
        fun hu => ⟨fun e he => hu.board e (List.mem_cons_of_mem _ he), hu.hands⟩
    refine hnoted.ended rfl fun k y effect hpursues => ?_
    cases hpursues.obeys
    exact ⟨hpursues.rests rfl rfl, fun _ => hpursues.succeeds⟩
  | fail b p before after x e =>
    refine h.ended rfl fun k y effect hpursues => ?_
    cases hpursues.obeys
    exact ⟨hpursues.rests rfl rfl, nofun⟩
  | panic b p before after x =>
    refine h.ended rfl fun k y effect hpursues => ?_
    cases hpursues.obeys
    exact ⟨hpursues.rests rfl rfl, nofun⟩
  | release p before after v outcome _ =>
    exact h.congr rfl rfl rfl rfl (fun _ _ => by simp) hun
  | count b p before after v => exact h.congr rfl rfl rfl rfl (fun _ _ => by simp) hun
  | noteFailed b p before after v e => exact h.congr rfl rfl rfl rfl (fun _ _ => by simp) hun
  | notePanicked b p before after v => exact h.congr rfl rfl rfl rfl (fun _ _ => by simp) hun

end VertexEngine
