import Mathlib.Data.List.MinMax
import VertexEngine.Proofs.Run.Chronicle

/-!
# The numbers of the syncs

All engines take the numbers of their syncs from one counter.  So the syncs of a core have different
numbers, which increase in the order in which they were registered, whatever happened to it.

* `SyncSet.Numbered` says so of some syncs.
* `Core.Reachable.numbered` is the result.
-/

namespace VertexEngine

variable {F V E T O : Type} {behaviour : Behaviour F V E T O}

namespace SyncSet

/-- The numbers increase in the order of registration. -/
def Numbered (s : SyncSet V T) : Prop :=
  (s.registered.map Prod.fst).Pairwise (· < ·)

variable {s s' : SyncSet V T}

theorem Numbered.congr (h : s.Numbered) (hs : s'.registered = s.registered) : s'.Numbered := by
  rw [Numbered, hs]
  exact h

theorem Numbered.nodup (h : s.Numbered) : (s.syncs.map (·.id)).Nodup := by
  rw [← map_fst_registered]
  exact List.Pairwise.imp Nat.ne_of_lt h

theorem registered_register (s : SyncSet V T) (id : SyncId) (spec : SyncSpec V T) :
    (s.register id spec).registered = s.registered ++ [(id, spec)] := by
  rw [registered, register, List.map_append]
  rfl

theorem lt_nextId (s : SyncSet V T) {id : SyncId} (h : id ∈ s.registered.map Prod.fst) :
    id < s.nextId := by
  rw [map_fst_registered] at h
  obtain ⟨sync, hsync, rfl⟩ := List.mem_map.mp h
  have hmem : sync.id + 1 ∈ s.syncs.map (·.id + 1) := List.mem_map.mpr ⟨sync, hsync, rfl⟩
  exact List.le_max_of_le' 0 hmem (Nat.le_refl _)

theorem Numbered.register (h : s.Numbered) (elsewhere : Nat) (spec : SyncSpec V T) :
    (s.register (s.nextId + elsewhere) spec).Numbered := by
  rw [Numbered, registered_register, List.map_append]
  refine List.pairwise_append.mpr ⟨h, List.pairwise_singleton _ _, fun id hid id' hid' => ?_⟩
  rw [List.mem_singleton.mp hid']
  exact Nat.lt_of_lt_of_le (s.lt_nextId hid) (Nat.le_add_right ..)

theorem registered_evaluateOne {id : SyncId} {g : Graph V E} {round : SyncRound}
    (h : s.evaluateOne id g = some (s', round)) : s'.registered = s.registered := by
  obtain ⟨sync, -, hevaluate⟩ := Option.map_eq_some_iff.mp h
  rw [← s.registered_evaluate g [sync], hevaluate]

end SyncSet

namespace Core

theorem Operation.keeps_numbered (op : Operation F V E T) :
    Keeps (fun core => core.syncs.Numbered) op.call :=
  op.keeps_of_syncs (fun _ _ _ _ h => h) (fun _ h => h)
    (fun _ elsewhere spec h => h.register elsewhere spec)
    fun _ _ _ _ _ h hone => h.congr (SyncSet.registered_evaluateOne hone)

/-- A run registers no syncs. -/
theorem Run.registered {core : Core F V E T} (r : Run behaviour core) :
    r.next.syncs.registered = core.syncs.registered := by
  have hfirst : r.first.board.syncs.registered = core.syncs.registered := by
    obtain ⟨g, b, -, -, -, hsyncs, hm⟩ := launch_cases r.launched
    have hb : b.syncs.registered = core.syncs.registered := by
      rw [hsyncs, SyncSet.evaluateAll, SyncSet.registered_evaluate]
    rcases hm with ⟨-, hm⟩ | ⟨-, hm⟩
    · rw [hm]
      exact hb
    · rw [hm, Machine.Orderly.board_start]
      exact hb
  rw [(concludes_of_eq_some r.concluded).syncs_eq, r.reached.registered, hfirst]

/-- The syncs of a core are told apart by their numbers. -/
theorem Reachable.numbered {core : Core F V E T} (h : core.Reachable behaviour) :
    core.syncs.Numbered := by
  induction h with
  | @new options core h =>
    obtain ⟨-, rfl⟩ := withOptions_eq_ok h
    exact .nil
  | operation _ op ih => exact op.keeps_numbered _ ih
  | run _ r ih => exact ih.congr r.registered

end Core

end VertexEngine
