import VertexEngine.Proofs.Graph.Built
import VertexEngine.Proofs.Run.Scene
import VertexEngine.Proofs.Run.Step

/-!
# Syncs, one vertex after another

The sequential engine takes all values into a sync at once, and a worker of a pool reads one vertex
after another.  As long as nobody writes in between, both come to the same.

* `SyncSpec.readInto` is what is left of an evaluation when some vertices are still to be read, and
  `SyncSpec.evaluate_eq_readInto` says that it comes to the same.
* `Board.evaluateDue` are the evaluations that follow an update, and `evaluateDue_cons` takes them
  one sync at a time.
* `SyncSet.Total` says that no evaluation panics, and `Phase.Step.ne_crashed` that no worker then
  does.
-/

namespace VertexEngine

variable {F V E T O : Type}

/-! ## One sync -/

namespace Graph

theorem value_of_mem_vertices {g : Graph V E} (hg : g.values.size ≤ maxVertices)
    {x : VertexId × V} (hx : x ∈ g.vertices) : g.value x.1 = .ok x.2 := by
  obtain ⟨⟨value, i⟩, hi, rfl⟩ := List.mem_map.mp hx
  have hget : g.values[i]? = some value := by
    simpa using List.mem_zipIdx_iff_getElem?.mp hi
  have hlt : i < g.values.size := (Array.getElem?_eq_some_iff.mp hget).1
  have hsmall : i < UInt32.size := by
    unfold maxVertices at hg
    omega
  simp only [Graph.value]
  rw [UInt32.toNat_ofNat_of_lt' hsmall, hget]

theorem map_fst_vertices (g : Graph V E) : g.vertices.map Prod.fst = g.vertexIds := by
  rw [vertices, vertexIds, List.map_map, ← Array.length_toList, List.range_eq_range',
    ← List.zipIdx_map_snd, List.map_map]
  rfl

end Graph

namespace SyncSpec

variable (s : SyncSpec V T) (g : Graph V E)

/-- No evaluation ever panics. -/
structure Total : Prop where
  fold : ∀ total v x, (s.fold total v x).isSome = true
  finish : ∀ total, (s.finish total).isSome = true

/-- The total after the given vertices were read; `none` when the fold panics. -/
def readInto : List VertexId → T → Option T
  | [], total => some total
  | v :: unread, total =>
    match g.value v with
    | .error _ => readInto unread total
    | .ok x =>
      match s.fold total v x with
      | some total => readInto unread total
      | none => none

theorem foldlM_eq_readInto {vertices : List (VertexId × V)}
    (h : ∀ x ∈ vertices, g.value x.1 = .ok x.2) (total : T) :
    vertices.foldlM (fun acc x => s.fold acc x.1 x.2) total =
      s.readInto g (vertices.map Prod.fst) total := by
  induction vertices generalizing total with
  | nil => rfl
  | cons x rest ih =>
    have hx : g.value x.1 = .ok x.2 := h x List.mem_cons_self
    rw [List.foldlM_cons, List.map_cons]
    simp only [readInto, hx]
    cases s.fold total x.1 x.2 with
    | none => rfl
    | some total' => exact ih (fun y hy => h y (List.mem_cons_of_mem _ hy)) total'

/-- An evaluation reads one covered vertex after another. -/
theorem evaluate_eq_readInto (hg : g.values.size ≤ Graph.maxVertices) :
    s.evaluate g.vertices =
      (s.readInto g (g.vertexIds.filter s.covers) s.zero).bind s.finish := by
  have hvalues : ∀ x ∈ g.vertices.filter (s.covers ∘ Prod.fst), g.value x.1 = .ok x.2 :=
    fun x hx => Graph.value_of_mem_vertices hg (List.mem_filter.mp hx).1
  rw [evaluate, ← g.map_fst_vertices, List.filter_map, ← s.foldlM_eq_readInto g hvalues s.zero]
  rfl

end SyncSpec

/-! ## Several syncs -/

/-- No evaluation panics. -/
def SyncSet.Total (s : SyncSet V T) : Prop :=
  ∀ sync ∈ s.syncs, sync.spec.Total

theorem SyncSet.Total.publish {s : SyncSet V T} (h : s.Total) (id : SyncId) (value : T) :
    (s.publish id value).Total := by
  intro sync hsync
  obtain ⟨old, hold, rfl⟩ := List.mem_map.mp hsync
  split
  · exact h old hold
  · exact h old hold

theorem SyncSpec.Total.foldlM {s : SyncSpec V T} (h : s.Total) (vertices : List (VertexId × V))
    (total : T) : ∃ y, vertices.foldlM (fun acc x => s.fold acc x.1 x.2) total = some y := by
  induction vertices generalizing total with
  | nil => exact ⟨total, rfl⟩
  | cons x rest ih =>
    obtain ⟨total', ht⟩ := Option.isSome_iff_exists.mp (h.fold total x.1 x.2)
    obtain ⟨y, hy⟩ := ih total'
    exact ⟨y, by rw [List.foldlM_cons, ht]; exact hy⟩

theorem SyncSpec.Total.evaluate {s : SyncSpec V T} (h : s.Total) (vertices : List (VertexId × V)) :
    ∃ x, s.evaluate vertices = some x := by
  obtain ⟨total, ht⟩ := h.foldlM (vertices.filter (s.covers ∘ Prod.fst)) s.zero
  obtain ⟨x, hx⟩ := Option.isSome_iff_exists.mp (h.finish total)
  exact ⟨x, (congrArg (Option.bind · s.finish) ht).trans hx⟩

/-- Evaluations that do not panic do not break off. -/
theorem SyncSet.evaluate_of_total (g : Graph V E) {due : List (Sync V T)}
    (hd : ∀ sync ∈ due, sync.spec.Total) {s : SyncSet V T} (h : s.Total) :
    (s.evaluate g due).1.Total ∧ (s.evaluate g due).2.broken = false := by
  induction due generalizing s with
  | nil => exact ⟨h, rfl⟩
  | cons sync rest ih =>
    obtain ⟨x, hx⟩ := (hd sync List.mem_cons_self).evaluate g.vertices
    simp only [evaluate, hx]
    exact ih (fun sync' h' => hd sync' (List.mem_cons_of_mem _ h')) (h.publish sync.id x)

namespace Board

/-- The evaluations that follow an update, and how the run goes on. -/
def evaluateDue (b : Board F V E T O) (due : List (Sync V T)) : Board F V E T O × RunStatus :=
  let (syncs, round) := b.syncs.evaluate b.graph due
  ({ b with syncs }.noteRound round, if round.broken then .crashed else .running)

/-- The first sync that is due is evaluated and published before the others. -/
theorem evaluateDue_cons (b : Board F V E T O) (sync : Sync V T) (due : List (Sync V T)) :
    b.evaluateDue (sync :: due) =
      match sync.spec.evaluate b.graph.vertices with
      | none => (b, .crashed)
      | some x =>
        ({ b with syncs := b.syncs.publish sync.id x }.note (.published sync.id)).evaluateDue
          due := by
  cases hx : sync.spec.evaluate b.graph.vertices with
  | none =>
    rw [evaluateDue, SyncSet.evaluate, hx]
    rfl
  | some x =>
    rw [evaluateDue, SyncSet.evaluate, hx]
    rfl

/-- Evaluations that do not panic let the run go on. -/
theorem evaluateDue_of_total {b : Board F V E T O} (h : b.syncs.Total) {due : List (Sync V T)}
    (hd : ∀ sync ∈ due, sync.spec.Total) :
    (b.evaluateDue due).1.syncs.Total ∧ (b.evaluateDue due).2 = .running := by
  obtain ⟨htotal, hbroken⟩ := SyncSet.evaluate_of_total b.graph hd h
  refine ⟨?_, if_neg (ne_true_of_eq_false hbroken)⟩
  rw [evaluateDue, noteRound_syncs]
  exact htotal

/-- The evaluations after an update are quiet. -/
theorem quiet_evaluateDue (b : Board F V E T O) (due : List (Sync V T)) :
    b.Quiet (b.evaluateDue due).1 ∧ (b.evaluateDue due).1.scheduler = b.scheduler := by
  obtain ⟨⟨h1, h2, h3, h4⟩, h5⟩ := quiet_noteRound
    { b with syncs := (b.syncs.evaluate b.graph due).1 } (b.syncs.evaluate b.graph due).2
  exact ⟨⟨h1, h2, h3, h4⟩, h5⟩

theorem settle_finished (b : Board F V E T O) (v : VertexId) :
    Sequential.settle b v .finished =
      b.increment.evaluateDue (b.increment.syncs.due b.increment.updates) :=
  rfl

end Board

/-- An update whose syncs do not panic lets the run go on. -/
theorem Sequential.settle_of_total {b : Board F V E T O} (h : b.syncs.Total) (v : VertexId) :
    ∃ b', settle b v .finished = (b', .running) ∧ b.increment.Quiet b' ∧
      b'.scheduler = b.scheduler ∧ b'.syncs.Total := by
  have hdue : ∀ sync ∈ b.increment.syncs.due b.increment.updates, sync.spec.Total :=
    fun sync hsync => h sync (List.mem_filter.mp hsync).1
  obtain ⟨htotal, hrunning⟩ := Board.evaluateDue_of_total (b := b.increment) h hdue
  obtain ⟨hquiet, hscheduler⟩ := b.increment.quiet_evaluateDue _
  exact ⟨_, Prod.ext rfl hrunning, hquiet, hscheduler, htotal⟩

/-! ## The syncs of a worker -/

namespace Threaded

/-- The syncs that a worker still has to evaluate. -/
def Phase.due : Phase F V T O → List (Sync V T)
  | counting due => due
  | folding sync _ _ due => sync :: due
  | _ => []

namespace Phase.Step

variable {behaviour : Behaviour F V E T O} {index : Nat} {b b' : Board F V E T O}
  {old new : Phase F V T O} {e : Option EngineError}

/-- No step adds a vertex or changes what a sync computes. -/
theorem frame (h : old.Step behaviour index b new b' e) :
    b'.graph.values.size = b.graph.values.size ∧ (b.syncs.Total → b'.syncs.Total) := by
  cases h with
  | ask x action next =>
    have heffect := b.perform_effect x action
    generalize (b.perform x action).2.1 = x', (b.perform x action).2.2 = c at heffect
    cases heffect with
    | wrote value => exact ⟨Array.size_setIfInBounds, id⟩
    | _ => exact ⟨rfl, id⟩
  | publish sync total due _ => exact ⟨rfl, fun h => h.publish _ _⟩
  | _ => exact ⟨rfl, id⟩

/-- What a worker has to evaluate was there before, or is registered. -/
theorem mem_due (h : old.Step behaviour index b new b' e) :
    ∀ sync ∈ new.due, sync ∈ old.due ∨ sync ∈ b.syncs.syncs := by
  cases h with
  | count v => exact fun sync hsync => .inr (List.mem_filter.mp hsync).1
  | evaluate sync due => exact fun sync hsync => .inl hsync
  | skip sync total v unread due _ => exact fun sync hsync => .inl hsync
  | fold sync total v unread due _ _ => exact fun sync hsync => .inl hsync
  | publish sync total due _ => exact fun sync' h => .inl (List.mem_cons_of_mem _ h)
  | _ => exact nofun

theorem due_total (h : old.Step behaviour index b new b' e)
    (hd : ∀ sync ∈ old.due, sync.spec.Total) (hs : b.syncs.Total) :
    ∀ sync ∈ new.due, sync.spec.Total :=
  fun sync hsync => (h.mem_due sync hsync).elim (hd sync) (hs sync)

/-- A worker does not panic in an evaluation that does not. -/
theorem ne_crashed (h : old.Step behaviour index b new b' e)
    (hd : ∀ sync ∈ old.due, sync.spec.Total) : new ≠ .left true := by
  rintro rfl
  cases h with
  | @crash sync total v unread due x _ ht =>
    have hsome := (hd sync List.mem_cons_self).fold total v x
    rw [ht] at hsome
    cases hsome
  | crashAtEnd sync total due hv =>
    have hsome := (hd sync List.mem_cons_self).finish total
    rw [hv] at hsome
    cases hsome

end Phase.Step

end Threaded

end VertexEngine
