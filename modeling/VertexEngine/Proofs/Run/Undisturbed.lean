import VertexEngine.Proofs.Run.Halt

/-!
# Runs without an abort

An abort is requested from outside or by a program.  If no program does it, and nobody outside
does, no abort is ever requested in a run, whoever looks for one.

* `Program.NeverAborts` holds of programs that make no such request, whatever they are answered.
* `Machine.Unaborted` is what every step of the engine then keeps, and `WorksTo.unaborted` says so
  for whole runs.
-/

namespace VertexEngine

variable {F V E T O : Type} {behaviour : Behaviour F V E T O}

/-! ## Programs -/

/-- The program never requests an abort. -/
inductive Program.NeverAborts {α : Type} : Program F V T O α → Prop
  | done (a : α) : NeverAborts (.done a)
  | fail (e : EngineError) : NeverAborts (.fail e)
  | panic : NeverAborts .panic
  | ask {action : Action F V O} {next : action.Answer T → Program F V T O α}
    (h : action ≠ .raiseAbort) (hn : ∀ answer, (next answer).NeverAborts) :
    NeverAborts (.ask action next)

namespace Program.NeverAborts

variable {α β : Type}

protected theorem bind {p : Program F V T O α} {f : α → Program F V T O β} (hp : p.NeverAborts)
    (hf : ∀ a, (f a).NeverAborts) : (p >>= f).NeverAborts := by
  induction hp with
  | done a => exact hf a
  | fail e => exact .fail e
  | panic => exact .panic
  | ask h _ ih => exact .ask h ih

theorem ofExcept (e : Except EngineError α) :
    (Program.ofExcept e : Program F V T O α).NeverAborts := by
  cases e with
  | ok a => exact .done a
  | error e => exact .fail e

theorem read (v : VertexId) : (Program.read v : Program F V T O V).NeverAborts :=
  .ask nofun ofExcept

theorem write (x : V) : (Program.write x : Program F V T O Unit).NeverAborts :=
  .ask nofun .done

theorem schedule (v : VertexId) (update : F) (priority : Float) :
    (Program.schedule v update priority : Program F V T O Unit).NeverAborts :=
  .ask nofun ofExcept

end Program.NeverAborts

/-! ## The board -/

namespace Board

theorem perform_abort (b : Board F V E T O) (x : Execution F) {action : Action F V O}
    (h : action ≠ .raiseAbort) : (b.perform x action).2.2.abort = b.abort := by
  have heffect := b.perform_effect x action
  generalize (b.perform x action).2.1 = x', (b.perform x action).2.2 = b' at heffect
  cases heffect with
  | raised => exact absurd rfl h
  | _ => rfl

theorem run_abort {p : Program F V T O Unit} (hp : p.NeverAborts) (b : Board F V E T O)
    (x : Execution F) : (b.run x p).2.abort = b.abort := by
  induction hp generalizing b x with
  | ask h _ ih => exact (ih _ _ _).trans (b.perform_abort x h)
  | _ => rfl

theorem noteRound_abort (b : Board F V E T O) (r : SyncRound) :
    (b.noteRound r).abort = b.abort := by
  rw [noteRound_eq]

/-- The program that is loaded is the one of the update function. -/
theorem eq_of_load {b : Board F V E T O} {t : Task F} {p : Program F V T O Unit}
    (h : b.load behaviour t = .ok p) : p = behaviour t.update b.graph.toTopology t.vertex := by
  unfold load at h
  cases hc : b.graph.check t.vertex with
  | error e =>
    rw [hc] at h
    cases h
  | ok u =>
    rw [hc] at h
    exact (Except.ok.inj h).symm

theorem execute_abort (hb : ∀ update t v, (behaviour update t v).NeverAborts)
    (b : Board F V E T O) (t : Task F) : (b.execute behaviour t).2.abort = b.abort := by
  unfold execute
  split
  · rfl
  · rename_i p hp
    obtain rfl := eq_of_load hp
    exact run_abort (hb _ _ _) _ _

end Board

/-! ## The sequential loop -/

namespace Sequential

theorem abort_settle (b : Board F V E T O) (v : VertexId) (outcome : Outcome) :
    (settle b v outcome).1.abort = b.abort := by
  cases outcome with
  | finished => exact Board.noteRound_abort _ _
  | _ => rfl

theorem abort_turn (hb : ∀ update t v, (behaviour update t v).NeverAborts)
    (b : Board F V E T O) : (turn behaviour b).1.abort = b.abort := by
  unfold turn
  split
  · rfl
  · split
    · rfl
    · exact (abort_settle _ _ _).trans (Board.execute_abort hb _ _)

end Sequential

/-! ## The pool -/

namespace Threaded

/-- The worker, if it runs a program, will not request an abort. -/
def Phase.NeverAborts : Phase F V T O → Prop
  | running _ rest => rest.NeverAborts
  | _ => True

theorem Phase.Step.neverAborts {index : Nat} {b b' : Board F V E T O} {old new : Phase F V T O}
    {e : Option EngineError} (h : old.Step behaviour index b new b' e)
    (hb : ∀ update t v, (behaviour update t v).NeverAborts) (ho : old.NeverAborts) :
    b'.abort = b.abort ∧ new.NeverAborts := by
  cases h with
  | load _ hl =>
    obtain rfl := Board.eq_of_load hl
    exact ⟨rfl, hb _ _ _⟩
  | ask x action next =>
    cases ho with
    | ask ha hn => exact ⟨b.perform_abort x ha, hn _⟩
  | _ => exact ⟨rfl, trivial⟩

end Threaded

/-! ## Both engines -/

namespace Machine

/-- No abort is requested, and no program that is under way will request one. -/
def Unaborted : Machine F V E T O → Prop
  | sequential b _ => b.abort = false
  | threaded p => p.board.abort = false ∧ ∀ w ∈ p.workers, w.NeverAborts

variable {m m' : Machine F V E T O}

theorem Unaborted.abort (h : m.Unaborted) : m.board.abort = false := by
  cases m with
  | sequential b status => exact h
  | threaded p => exact h.1

theorem Works.unaborted (h : m.Works behaviour m')
    (hb : ∀ update t v, (behaviour update t v).NeverAborts) (hm : m.Unaborted) :
    m'.Unaborted := by
  cases h with
  | turn b => exact (Sequential.abort_turn hb b).trans hm
  | @actor p p' a ha =>
    obtain ⟨habort, hworkers⟩ := hm
    unfold Threaded.Pool.step at ha
    split at ha
    · cases a with
      | worker index =>
        obtain ⟨old, new, b, e, hw, hs, rfl⟩ := Threaded.Pool.stepWorker_eq_some ha
        obtain ⟨hb', hnew⟩ := hs.neverAborts hb (hworkers old (List.mem_of_getElem? hw))
        refine ⟨hb'.trans habort, fun w hmem => ?_⟩
        rcases List.mem_or_eq_of_mem_set hmem with hmem | rfl
        · exact hworkers w hmem
        · exact hnew
      | pool =>
        obtain ⟨hw, -, hb', -⟩ := Threaded.Pool.stepPool_keeps ha
        exact ⟨hb'.trans habort, hw ▸ hworkers⟩
    · cases ha

/-- Once the loop is known to end within some number of turns, every run of it that nobody disturbs
comes to this end, and takes no more tasks than there are turns. -/
theorem WorksTo.of_advanceBy {b : Board F V E T O} {status : RunStatus} {steps : Nat}
    (hended : ((sequential b status).advanceBy behaviour steps).status ≠ .running)
    (h : (sequential b status).WorksTo behaviour m) :
    m.WorksTo behaviour ((sequential b status).advanceBy behaviour steps) ∧
      m.board.tasks.length ≤ b.tasks.length + steps := by
  induction steps generalizing b status with
  | zero =>
    rcases h.cases_head with rfl | ⟨c, hc, -⟩
    · exact ⟨.refl, Nat.le_refl _⟩
    · cases hc
      exact absurd rfl hended
  | succ steps ih =>
    rcases h.cases_head with rfl | ⟨c, hc, hrest⟩
    · exact ⟨worksTo_advanceBy .., Nat.le_add_right ..⟩
    · cases hc
      obtain ⟨hworks, hle⟩ := ih hended hrest
      refine ⟨hworks, ?_⟩
      calc m.board.tasks.length
          ≤ (Sequential.turn behaviour b).1.tasks.length + steps := hle
        _ ≤ b.tasks.length + 1 + steps :=
          Nat.add_le_add_right (Sequential.tasks_turn_le behaviour b) steps
        _ = b.tasks.length + (steps + 1) := by omega

/-- In a run that nobody disturbs no abort is requested if no program does. -/
theorem WorksTo.unaborted (h : m.WorksTo behaviour m')
    (hb : ∀ update t v, (behaviour update t v).NeverAborts) (hm : m.Unaborted) :
    m'.Unaborted := by
  induction h with
  | refl => exact hm
  | tail _ hs ih => exact hs.unaborted hb ih

theorem unaborted_start (options : EngineOptions) {b : Board F V E T O} (h : b.abort = false) :
    (start options b).Unaborted := by
  unfold start
  split
  · exact h
  · refine ⟨h, fun w hw => ?_⟩
    rw [List.eq_of_mem_replicate hw]
    exact trivial

theorem Works.acts (h : m.Works behaviour m') : ∃ deeds, m.Acts behaviour deeds m' := by
  cases h with
  | turn b =>
    obtain ⟨deeds, hdoes⟩ := (Sequential.turn_turn behaviour b).does
    exact ⟨deeds, .turn hdoes⟩
  | actor h => exact ⟨_, .actor h⟩

/-- A run that nobody disturbs has its deeds. -/
theorem WorksTo.passes (h : m.WorksTo behaviour m') : ∃ deeds, m.Passes behaviour deeds m' := by
  induction h with
  | refl => exact ⟨[], .start⟩
  | tail _ hs ih =>
    obtain ⟨deeds, hpasses⟩ := ih
    obtain ⟨new, hacts⟩ := hs.acts
    exact ⟨new ++ deeds, .step hpasses hacts⟩

end Machine

/-- A run that was only just started is not aborted, if no abort was requested before. -/
theorem Core.launch_unaborted {core : Core F V E T} (ha : core.abort = false)
    {m : Machine F V E T O} (h : core.launch = .ok m) : m.Unaborted := by
  unfold launch at h
  split at h
  · cases h
  · cases h
  · dsimp only at h
    split at h
    · obtain rfl := Except.ok.inj h
      exact (Board.noteRound_abort _ _).trans ha
    · obtain rfl := Except.ok.inj h
      exact Machine.unaborted_start core.options ((Board.noteRound_abort _ _).trans ha)

end VertexEngine
