import Mathlib.Data.List.Perm.Subperm
import VertexEngine.Proofs.Run.Trace

/-!
# Vertex-local programs

A program is local when all that it comes to depends on its vertex, on the value that it finds
there, and on what a run never changes of the graph.  Of other vertices, shared values and the order
of things it may learn what it likes, as long as this makes no difference.

* An `Effect` is what one execution comes to, and a `Law` gives it for every vertex and every value.
* `Program.Obeys` says that a program comes to an effect whatever it is told.
* `Law.value`, `Law.targets` and `Law.succeeds` tell the course of one vertex, execution by
  execution.
* `Law.Exhausts` says that a list of executions does all that was asked for, and
  `Exhausts.count_lt` that no other way of doing it takes more of any vertex.
-/

namespace VertexEngine

variable {F V E T O : Type}

/-! ## Effects -/

/-- What an execution comes to. -/
structure Effect (V : Type) where
  /-- The value that it leaves on its vertex. -/
  value : V
  /-- Whether it ends well. -/
  succeeds : Bool
  /-- The vertices that it schedules. -/
  targets : List VertexId

/-- What an execution comes to, by its vertex and the value that it finds there. -/
abbrev Law (V : Type) :=
  VertexId → V → Effect V

/-- The program, on a vertex that holds this value now and after so many accepted requests, comes to
the effect, whatever it is told of other vertices and of shared values.  All that it schedules is
the update function itself. -/
inductive Program.Obeys (present : VertexId → Bool) (update : F) (v : VertexId) :
    V → Nat → Program F V T O Unit → Effect V → Prop
  | done (x : V) (scheduled : Nat) : Obeys present update v x scheduled (.done ()) ⟨x, true, []⟩
  | fail (x : V) (scheduled : Nat) (e : EngineError) :
    Obeys present update v x scheduled (.fail e) ⟨x, false, []⟩
  | panic (x : V) (scheduled : Nat) : Obeys present update v x scheduled .panic ⟨x, false, []⟩
  | readOwn {x : V} {scheduled : Nat} {next : Except EngineError V → Program F V T O Unit}
    {effect : Effect V} (h : Obeys present update v x scheduled (next (.ok x)) effect) :
    Obeys present update v x scheduled (.ask (.read v) next) effect
  | readOther {x : V} {scheduled : Nat} {w : VertexId}
    {next : Except EngineError V → Program F V T O Unit} {effect : Effect V}
    (hw : present w = true) (h : ∀ y, Obeys present update v x scheduled (next (.ok y)) effect) :
    Obeys present update v x scheduled (.ask (.read w) next) effect
  | readMissing {x : V} {scheduled : Nat} {w : VertexId}
    {next : Except EngineError V → Program F V T O Unit} {effect : Effect V}
    (hw : present w = false)
    (h : Obeys present update v x scheduled (next (.error (.notFound w))) effect) :
    Obeys present update v x scheduled (.ask (.read w) next) effect
  | write {x y : V} {scheduled : Nat} {next : Unit → Program F V T O Unit} {effect : Effect V}
    (h : Obeys present update v y scheduled (next ()) effect) :
    Obeys present update v x scheduled (.ask (.write y) next) effect
  | schedule {x : V} {scheduled : Nat} {w : VertexId} {priority : Float}
    {next : Except EngineError Unit → Program F V T O Unit} {effect : Effect V}
    (hw : present w = true) (hp : Priority.check priority = .ok ())
    (h : Obeys present update v x (scheduled + 1) (next (.ok ())) effect) :
    Obeys present update v x scheduled (.ask (.schedule w update priority) next)
      { effect with targets := w :: effect.targets }
  | scheduleMissing {x : V} {scheduled : Nat} {w : VertexId} {other : F} {priority : Float}
    {next : Except EngineError Unit → Program F V T O Unit} {effect : Effect V}
    (hw : present w = false)
    (h : Obeys present update v x scheduled (next (.error (.notFound w))) effect) :
    Obeys present update v x scheduled (.ask (.schedule w other priority) next) effect
  | scheduleInvalid {x : V} {scheduled : Nat} {w : VertexId} {other : F} {priority : Float}
    {e : EngineError} {next : Except EngineError Unit → Program F V T O Unit} {effect : Effect V}
    (hw : present w = true) (hp : Priority.check priority = .error e)
    (h : Obeys present update v x scheduled (next (.error e)) effect) :
    Obeys present update v x scheduled (.ask (.schedule w other priority) next) effect
  | countScheduled {x : V} {scheduled : Nat} {next : Nat → Program F V T O Unit}
    {effect : Effect V} (h : Obeys present update v x scheduled (next scheduled) effect) :
    Obeys present update v x scheduled (.ask .countScheduled next) effect
  | pollAbort {x : V} {scheduled : Nat} {next : Bool → Program F V T O Unit} {effect : Effect V}
    (h : Obeys present update v x scheduled (next false) effect) :
    Obeys present update v x scheduled (.ask .pollAbort next) effect
  | readShared {x : V} {scheduled : Nat} {sync : SyncId}
    {next : Except EngineError T → Program F V T O Unit} {effect : Effect V}
    (h : ∀ answer, Obeys present update v x scheduled (next answer) effect) :
    Obeys present update v x scheduled (.ask (.readShared sync) next) effect
  | observe {x : V} {scheduled : Nat} {o : O} {next : Unit → Program F V T O Unit}
    {effect : Effect V} (h : Obeys present update v x scheduled (next ()) effect) :
    Obeys present update v x scheduled (.ask (.observe o) next) effect

/-! ## The course of a vertex -/

namespace Law

/-- The update function obeys the law on every vertex of the graph. -/
def Governs (law : Law V) (g : Graph V E) (behaviour : Behaviour F V E T O) (update : F) : Prop :=
  ∀ v x, g.contains v = true →
    (behaviour update g.toTopology v).Obeys g.contains update v x 0 (law v x)

section

variable (law : Law V) (g : Graph V E) (w : VertexId)

/-- The value of a vertex after so many executions on it. -/
def value : Nat → Except EngineError V
  | 0 => g.value w
  | k + 1 => (value k).map fun x => (law w x).value

/-- The vertices that these executions schedule. -/
def targets : Nat → List VertexId
  | 0 => []
  | k + 1 => targets k ++ match law.value g w k with
    | .ok x => (law w x).targets
    | .error _ => []

/-- Whether the execution with this number ends well. -/
def succeeds (k : Nat) : Bool :=
  match law.value g w k with
  | .ok x => (law w x).succeeds
  | .error _ => true

end

variable {law : Law V} {g : Graph V E} {w : VertexId} {k : Nat}

theorem value_succ {x : V} (h : law.value g w k = .ok x) :
    law.value g w (k + 1) = .ok (law w x).value := by
  rw [value, h]
  rfl

theorem targets_succ {x : V} (h : law.value g w k = .ok x) :
    law.targets g w (k + 1) = law.targets g w k ++ (law w x).targets := by
  rw [targets, h]

theorem succeeds_eq {x : V} (h : law.value g w k = .ok x) :
    law.succeeds g w k = (law w x).succeeds := by
  rw [succeeds, h]

/-- More executions schedule no less. -/
theorem count_targets_mono {k' : Nat} (h : k ≤ k') (v : VertexId) :
    (law.targets g w k).count v ≤ (law.targets g w k').count v := by
  induction h with
  | refl => exact Nat.le_refl _
  | @step m _ ih =>
    rw [targets, List.count_append]
    exact Nat.le_add_right_of_le ih

/-! ## The least action -/

/-- Whoever has asked for less of every source has asked for less of every target. -/
theorem count_snd_le {requests requests' : List (VertexId × VertexId)}
    (h : ∀ w v, requests.count (w, v) ≤ requests'.count (w, v)) (v : VertexId) :
    (requests.map Prod.snd).count v ≤ (requests'.map Prod.snd).count v := by
  obtain ⟨part, hperm, hsub⟩ : requests.Subperm requests' :=
    List.subperm_ext_iff.mpr fun x _ => h x.1 x.2
  rw [← (hperm.map Prod.snd).count_eq v]
  exact (hsub.map Prod.snd).count_le v

/-- Executions that follow the law, end well, and do all that was asked for: `start`, and what they
asked for themselves. -/
structure Exhausts (law : Law V) (g : Graph V E) (start taken : List VertexId)
    (requests : List (VertexId × VertexId)) : Prop where
  balance : ∀ v, taken.count v = start.count v + (requests.map Prod.snd).count v
  requests : ∀ w v, requests.count (w, v) = (law.targets g w (taken.count w)).count v
  succeeds : ∀ w, ∀ i < taken.count w, law.succeeds g w i = true

/-- Executions that have not taken more of any vertex, and have asked for no more than the law says,
leave room for whatever is still pending. -/
theorem Exhausts.count_lt {start taken taken' pending : List VertexId}
    {requests requests' : List (VertexId × VertexId)} (h : law.Exhausts g start taken requests)
    (hle : ∀ w, taken'.count w ≤ taken.count w)
    (hrequests : ∀ w v, requests'.count (w, v) ≤ (law.targets g w (taken'.count w)).count v)
    (hbalance : ∀ v, pending.count v + taken'.count v =
      start.count v + (requests'.map Prod.snd).count v)
    {v : VertexId} (hv : v ∈ pending) : taken'.count v < taken.count v := by
  have hpositive : 0 < pending.count v := List.count_pos_iff.mpr hv
  have hless : (requests'.map Prod.snd).count v ≤ (requests.map Prod.snd).count v := by
    refine count_snd_le (fun w v => ?_) v
    calc requests'.count (w, v) ≤ (law.targets g w (taken'.count w)).count v := hrequests w v
      _ ≤ (law.targets g w (taken.count w)).count v := count_targets_mono (hle w) v
      _ = requests.count (w, v) := (h.requests w v).symm
  have hdone := h.balance v
  have hopen := hbalance v
  omega

end Law

end VertexEngine
