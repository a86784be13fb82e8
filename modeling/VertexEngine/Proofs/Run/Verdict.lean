import VertexEngine.Proofs.Run.Deeds
import VertexEngine.Proofs.Run.Progress
import VertexEngine.Proofs.Run.Serial

/-!
# No failure is swallowed

The result of a run follows from its deeds.  If an execution failed or panicked, the run ends with
the error of one that did; otherwise it ends as aborted if an abort was seen at the last look, and
well if not.  An error is on its way from the moment it happens: it is in the hands of a worker
until the worker records it, and what was recorded first is what the caller gets.

* `Verdict` is how a run may end after its deeds.
* `Sequential.Accounts` and `Pool.Accounts` say that an engine accounts for all deeds so far.
* `Machine.Passes.accounts` is the result about whole runs, and `outcome_classified` what it means
  for the caller.
-/

namespace VertexEngine

variable {F V E T O : Type} {behaviour : Behaviour F V E T O} {total : Prop}

/-! ## Verdicts -/

/-- An execution ended with this error. -/
def Blames (deeds : List Deed) (e : EngineError) : Prop :=
  ∃ deed ∈ deeds, deed.error? = some e

/-- How a run may end after these deeds. -/
inductive Verdict (deeds : List Deed) : Except EngineError Unit → Prop
  | fault {e : EngineError} (h : Blames deeds e) : Verdict deeds (.error e)
  | aborted (h : Faultless deeds) (hl : lastLook deeds = some true) :
    Verdict deeds (.error .aborted)
  | converged (h : Faultless deeds) (hl : lastLook deeds = some false) : Verdict deeds (.ok ())

theorem Blames.append {deeds : List Deed} {e : EngineError} (h : Blames deeds e)
    (new : List Deed) : Blames (new ++ deeds) e := by
  obtain ⟨deed, hdeed, he⟩ := h
  exact ⟨deed, List.mem_append_right new hdeed, he⟩

theorem Blames.append_left {new : List Deed} {e : EngineError} (h : Blames new e)
    (deeds : List Deed) : Blames (new ++ deeds) e := by
  obtain ⟨deed, hdeed, he⟩ := h
  exact ⟨deed, List.mem_append_left deeds hdeed, he⟩

theorem Blames.not_faultless {deeds : List Deed} {e : EngineError} (h : Blames deeds e) :
    ¬Faultless deeds := by
  obtain ⟨deed, hdeed, he⟩ := h
  intro hf
  cases he.symm.trans (hf deed hdeed)

theorem faultless_looked (abort : Bool) : Faultless [.looked abort] := by
  intro deed hdeed
  rw [List.mem_singleton.mp hdeed]
  rfl

/-- The error of an execution names its vertex and the error of its program, or says that it
panicked. -/
theorem Blames.exists_ended {deeds : List Deed} {e : EngineError} (h : Blames deeds e) :
    (∃ v source, e = .update v source ∧ .ended v (.failed source) ∈ deeds) ∨
      e = .workerPanicked ∧ ∃ v, .ended v .panicked ∈ deeds := by
  obtain ⟨deed, hdeed, he⟩ := h
  cases deed with
  | looked abort => cases he
  | ended v ending =>
    cases ending with
    | finished => cases he
    | failed source =>
      cases he
      exact .inl ⟨v, source, rfl, hdeed⟩
    | panicked =>
      cases he
      exact .inr ⟨rfl, v, hdeed⟩

/-! ## The sequential loop -/

theorem Board.perform_updates (b : Board F V E T O) (x : Execution F) (action : Action F V O) :
    (b.perform x action).2.2.updates = b.updates := by
  have heffect := b.perform_effect x action
  generalize (b.perform x action).2.1 = x', (b.perform x action).2.2 = b' at heffect
  cases heffect <;> rfl

theorem Board.Completes.updates_eq {b b' : Board F V E T O} {x : Execution F}
    {program : Program F V T O Unit} {outcome : Outcome}
    (h : b.Completes x program outcome b') : b'.updates = b.updates := by
  induction h with
  | abort _ ih => exact ih
  | ask _ ih => exact ih.trans (Board.perform_updates ..)
  | _ => rfl

theorem Board.evaluateDue_updates (b : Board F V E T O) (due : List (Sync V T)) :
    (b.evaluateDue due).1.updates = b.updates :=
  (b.quiet_evaluateDue due).1.updates

namespace Sequential

/-- The loop goes on only without a fault, and counts what ended well. -/
structure Accounts (deeds : List Deed) (b : Board F V E T O) (status : RunStatus) : Prop where
  running : status = .running → Faultless deeds
  ended : ∀ r, status = .ended r → Verdict deeds r
  counted : b.updates = deeds.countP Deed.isFinished

/-- The loop ends with the error of an execution. -/
theorem Accounts.fault {b : Board F V E T O} {deeds : List Deed} (deed : Deed)
    (hc : b.updates = deeds.countP Deed.isFinished) {e : EngineError}
    (he : deed.error? = some e) (hn : ¬deed.isFinished = true) (event : Event F O) :
    Accounts (deed :: deeds) (b.note event) (.ended (.error e)) := by
  refine ⟨fun hr => (by cases hr), fun r hr => ?_, hc.trans (List.countP_cons_of_neg hn).symm⟩
  cases hr
  exact .fault ⟨deed, List.mem_cons_self, he⟩

/-- An execution has ended, and its outcome is dealt with. -/
theorem accounts_settle {b : Board F V E T O} {deeds : List Deed} (hf : Faultless deeds)
    (hc : b.updates = deeds.countP Deed.isFinished) (v : VertexId) (ending : Ending) :
    Accounts (.ended v ending :: deeds) (settle b v (ending.outcome v)).1
      (settle b v (ending.outcome v)).2 := by
  cases ending with
  | finished =>
    refine ⟨fun _ => ?_, fun r hr => ?_, ?_⟩
    · exact List.forall_mem_cons.mpr ⟨rfl, hf⟩
    · rw [Ending.outcome, Board.settle_finished, Board.evaluateDue] at hr
      dsimp only at hr
      split at hr <;> cases hr
    · rw [Ending.outcome, Board.settle_finished, Board.evaluateDue_updates,
        List.countP_cons_of_pos rfl, ← hc]
      rfl
  | failed source => exact .fault (.ended v (.failed source)) hc rfl Bool.false_ne_true _
  | panicked => exact .fault (.ended v .panicked) hc rfl Bool.false_ne_true _

theorem Does.accounts {b : Board F V E T O} {r : Board F V E T O × RunStatus}
    {deeds new : List Deed} (h : Does behaviour b new r) (ha : Accounts deeds b .running)
    {p : PendingList F} (ho : Orderly b .running p)
    (hv : ∀ t ∈ p.tasks, b.graph.contains t.vertex = true) :
    Accounts (new ++ deeds) r.1 r.2 := by
  have hf := ha.running rfl
  have hlooked : ∀ abort, Faultless (.looked abort :: deeds) :=
    fun abort => List.forall_mem_cons.mpr ⟨rfl, hf⟩
  have hcounted : ∀ abort, b.updates = (.looked abort :: deeds).countP Deed.isFinished :=
    fun abort => ha.counted.trans (List.countP_cons_of_neg Bool.false_ne_true).symm
  cases h with
  | aborted _ =>
    refine ⟨nofun, fun r hr => ?_, hcounted true⟩
    cases hr
    exact .aborted (hlooked true) rfl
  | drained _ _ =>
    refine ⟨nofun, fun r hr => ?_, hcounted false⟩
    cases hr
    exact .converged (hlooked false) rfl
  | @missed scheduler t e _ hn hl =>
    obtain ⟨hfound, -, -⟩ := ho.tracks.next
    rw [hn] at hfound
    have hpresent : b.graph.contains t.vertex = true :=
      hv t (List.mem_of_find?_eq_some hfound.symm)
    cases hl.symm.trans (Board.load_eq_ok hpresent)
  | @ran scheduler t program ending b' _ hn hl hc =>
    exact accounts_settle (hlooked false) (hc.updates_eq.trans (hcounted false)) t.vertex ending

end Sequential

/-! ## A worker -/

/-- The error that an execution ended with. -/
def Outcome.error? : Outcome → Option EngineError
  | .finished => none
  | .failed e => some e
  | .panicked => some .workerPanicked

/-- The error that is on its way. -/
def Hand.error? : Hand F V T O → Option EngineError
  | .running .. => none
  | .returned _ outcome => outcome.error?
  | .completed _ outcome => outcome.error?

namespace Threaded

namespace Phase

theorem deeds_idle (b : Board F V E T O) :
    (idle : Phase F V T O).deeds b = [] ∨ (idle : Phase F V T O).deeds b = [.looked b.abort] := by
  by_cases hc : b.scheduler.closed = true
  · exact .inl (if_pos hc)
  · exact .inr (if_neg hc)

namespace Step

variable {index : Nat} {b b' : Board F V E T O} {old new : Phase F V T O} {e : Option EngineError}

/-- An error in the hands of a worker comes from an execution. -/
theorem hand_blames (h : old.Step behaviour index b new b' e)
    (hv : ∀ hand ∈ new.hands, hand.FailsByProgram) {hand : Hand F V T O} (hm : hand ∈ new.hands)
    {error : EngineError} (he : hand.error? = some error) :
    (∃ hand ∈ old.hands, hand.error? = some error) ∨ Blames (old.deeds b) error := by
  cases h with
  | load _ _ | ask _ _ _ | finish _ =>
    rw [List.mem_singleton.mp hm] at he
    cases he
  | miss hd hl =>
    have hupdate := hv _ List.mem_cons_self
    rw [Board.load, Graph.check] at hl
    split at hl
    · cases hl
    · cases hl
      exact hupdate.elim
  | fail x source =>
    rw [List.mem_singleton.mp hm] at he
    exact .inr ⟨_, List.mem_singleton_self _, he⟩
  | panic x =>
    rw [List.mem_singleton.mp hm] at he
    exact .inr ⟨_, List.mem_singleton_self _, he⟩
  | release v outcome =>
    rw [List.mem_singleton.mp hm] at he
    exact .inl ⟨_, List.mem_singleton_self _, he⟩
  | _ => cases hm

/-- A fault is in the hands of the worker, or recorded. -/
theorem noticed (h : old.Step behaviour index b new b' e)
    (hf : ¬Faultless (old.deeds b) ∨ ∃ hand ∈ old.hands, hand.error?.isSome = true) :
    e.isSome = true ∨ ∃ hand ∈ new.hands, hand.error?.isSome = true := by
  have hhand : ∀ {hand : Hand F V T O}, new.hands = [hand] → hand.error?.isSome = true →
      e.isSome = true ∨ ∃ hand ∈ new.hands, hand.error?.isSome = true :=
    fun hh he => .inr ⟨_, hh ▸ List.mem_singleton_self _, he⟩
  cases h with
  | fail x source => exact hhand rfl rfl
  | panic x => exact hhand rfl rfl
  | noteFailed v e => exact .inl rfl
  | notePanicked v => exact .inl rfl
  | release v outcome =>
    refine hhand rfl ?_
    rcases hf with hf | ⟨hand, hm, he⟩
    · exact absurd faultless_nil hf
    · rw [List.mem_singleton.mp hm] at he
      exact he
  | retire _ | load _ _ | miss _ _ =>
    rcases hf with hf | ⟨hand, hm, he⟩
    · rcases deeds_idle (F := F) (V := V) (T := T) (O := O) b with hdeeds | hdeeds
      · exact absurd (hdeeds ▸ faultless_nil) hf
      · exact absurd (hdeeds ▸ faultless_looked _) hf
    · cases hm
  | finish x =>
    rcases hf with hf | ⟨hand, hm, he⟩
    · refine absurd (fun deed hdeed => ?_) hf
      rw [List.mem_singleton.mp hdeed]
      rfl
    · rw [List.mem_singleton.mp hm] at he
      cases he
  | count v | ask x action next =>
    rcases hf with hf | ⟨hand, hm, he⟩
    · exact absurd faultless_nil hf
    · rw [List.mem_singleton.mp hm] at he
      cases he
  | _ =>
    rcases hf with hf | ⟨hand, hm, he⟩
    · exact absurd faultless_nil hf
    · cases hm

/-- A worker records the error that is in its hands. -/
theorem recorded {error : EngineError} (h : old.Step behaviour index b new b' (some error)) :
    ∃ hand ∈ old.hands, hand.error? = some error := by
  cases h with
  | noteFailed v e => exact ⟨_, List.mem_singleton_self _, rfl⟩
  | notePanicked v => exact ⟨_, List.mem_singleton_self _, rfl⟩

/-- What ended well is counted, or will be. -/
theorem counted (h : old.Step behaviour index b new b' e) :
    b'.updates + new.hands.countP Hand.isUncounted =
      b.updates + old.hands.countP Hand.isUncounted + (old.deeds b).countP Deed.isFinished := by
  cases h with
  | retire _ | load _ _ | miss _ _ =>
    rcases deeds_idle (F := F) (V := V) (T := T) (O := O) b with hdeeds | hdeeds <;>
      rw [hdeeds] <;> rfl
  | ask x action next =>
    rw [Board.perform_updates]
    rfl
  | release v outcome => cases outcome <;> rfl
  | _ => rfl

end Step

end Phase

/-! ## The pool -/

namespace Pool

/-- Every fault of an execution is on its way or recorded, nothing else is, and what ended well is
counted or will be. -/
structure Accounts (deeds : List Deed) (p : Pool F V E T O) : Prop where
  reported : ∀ hand ∈ p.hands, ∀ e, hand.error? = some e → Blames deeds e
  noticed : ¬Faultless deeds →
    p.firstError.isSome = true ∨ ∃ hand ∈ p.hands, hand.error?.isSome = true
  recorded : ∀ e, p.firstError = some e → Blames deeds e
  counted : p.board.updates + p.hands.countP Hand.isUncounted = deeds.countP Deed.isFinished
  ended : ∀ r, p.status = .ended r → Verdict deeds r

namespace Accounts

variable {p p' : Pool F V E T O} {deeds : List Deed} {pending : PendingList F}

theorem start {b : Board F V E T O} (hb : b.updates = 0) (n : Nat) :
    (Pool.start b n).Accounts [] := by
  have hhands := Orderly.hands_start b n
  refine ⟨?_, fun h => absurd faultless_nil h, nofun, ?_, nofun⟩
  · rw [hhands]
    exact nofun
  · rw [hhands]
    exact hb

theorem stepped (h : p.Accounts deeds) (hr : p.status = .running) {index : Nat}
    {old new : Phase F V T O} {b : Board F V E T O} {error : Option EngineError}
    (hw : p.workers[index]? = some old) (hs : old.Step behaviour index p.board new b error)
    (hv : ∀ hand ∈ (p.stepped index new b error).hands, hand.FailsByProgram) :
    (p.stepped index new b error).Accounts (old.deeds p.board ++ deeds) := by
  obtain ⟨others, hperm, hperm'⟩ := perm_stepped hw
  have hperm' := hperm' new b error
  have hold : ∀ {hand : Hand F V T O}, hand ∈ p.hands ↔ hand ∈ old.hands ∨ hand ∈ others :=
    hperm.mem_iff.trans List.mem_append
  have hnew : ∀ {hand : Hand F V T O},
      hand ∈ (p.stepped index new b error).hands ↔ hand ∈ new.hands ∨ hand ∈ others :=
    hperm'.mem_iff.trans List.mem_append
  refine ⟨fun hand hmem e he => ?_, fun hf => ?_, fun e he => ?_, ?_, fun r hended => ?_⟩
  · rcases hnew.mp hmem with hmem | hmem
    · rcases hs.hand_blames (fun hand hmem => hv hand (hnew.mpr (.inl hmem))) hmem he with
        ⟨hand', hmem', he'⟩ | hblames
      · exact (h.reported hand' (hold.mpr (.inl hmem')) e he').append _
      · exact hblames.append_left _
    · exact (h.reported hand (hold.mpr (.inr hmem)) e he).append _
  · -- The fault is new, or on its way in this worker, or elsewhere.
    have hcase : (¬Faultless (old.deeds p.board) ∨
        ∃ hand ∈ old.hands, hand.error?.isSome = true) ∨ p.firstError.isSome = true ∨
        ∃ hand ∈ others, hand.error?.isSome = true := by
      by_cases hfaultless : Faultless (old.deeds p.board)
      · rcases h.noticed fun hd => hf (hfaultless.append hd) with hfirst | ⟨hand, hmem, he⟩
        · exact .inr (.inl hfirst)
        · rcases hold.mp hmem with hmem | hmem
          · exact .inl (.inr ⟨hand, hmem, he⟩)
          · exact .inr (.inr ⟨hand, hmem, he⟩)
      · exact .inl (.inl hfaultless)
    rcases hcase with hown | hfirst | ⟨hand, hmem, he⟩
    · rcases hs.noticed hown with herror | ⟨hand, hmem, he⟩
      · left
        obtain ⟨e, rfl⟩ := Option.isSome_iff_exists.mp herror
        cases hf : p.firstError <;> simp [Pool.stepped, hf]
      · exact .inr ⟨hand, hnew.mpr (.inl hmem), he⟩
    · left
      obtain ⟨e, he⟩ := Option.isSome_iff_exists.mp hfirst
      simp [Pool.stepped, he]
    · exact .inr ⟨hand, hnew.mpr (.inr hmem), he⟩
  · cases hfirst : p.firstError with
    | some first =>
      rw [Pool.stepped, hfirst] at he
      cases he
      exact (h.recorded _ hfirst).append _
    | none =>
      rw [Pool.stepped, hfirst] at he
      obtain rfl : error = some e := he
      obtain ⟨hand, hmem, he⟩ := hs.recorded
      exact (h.reported hand (hold.mpr (.inl hmem)) e he).append _
  · have hcounted := h.counted
    have hstep := hs.counted
    rw [hperm.countP_eq, List.countP_append] at hcounted
    rw [hperm'.countP_eq, List.countP_append, List.countP_append]
    simp only [Pool.stepped]
    omega
  · cases hr.symm.trans hended

theorem finish (h : p.Accounts deeds) (hh : p.hands = [])
    (hw : p.workers[p.joined]? = none) : p.finish.Accounts (p.deeds .pool ++ deeds) := by
  have hcounted := h.counted
  cases hf : p.firstError with
  | some e =>
    have hdeeds : p.deeds .pool = [] := by simp only [Pool.deeds, hw, hf]
    rw [hdeeds, List.nil_append]
    have hfinish : p.finish = { p with status := .ended (.error e) } := by
      simp only [Pool.finish, hf]
    rw [hfinish]
    refine ⟨h.reported, h.noticed, h.recorded, hcounted, fun r hr => ?_⟩
    cases hr
    exact .fault (h.recorded e hf)
  | none =>
    have hdeeds : p.deeds .pool = [.looked p.board.abort] := by simp only [Pool.deeds, hw, hf]
    have hfaultless : Faultless deeds := by
      by_contra hnot
      rcases h.noticed hnot with hfirst | ⟨hand, hmem, -⟩
      · rw [hf] at hfirst
        cases hfirst
      · rw [hh] at hmem
        cases hmem
    have hlooked : Faultless (.looked p.board.abort :: deeds) :=
      List.forall_mem_cons.mpr ⟨rfl, hfaultless⟩
    have hall : ∀ {b : Board F V E T O} {r : Except EngineError Unit}, b.updates = p.board.updates →
        Verdict (.looked p.board.abort :: deeds) r →
        { p with board := b, status := .ended r }.Accounts (.looked p.board.abort :: deeds) := by
      intro b r hb hr
      refine ⟨fun hand hmem e he => (h.reported hand hmem e he).append [_],
        fun hnot => absurd hlooked hnot, fun e he => (h.recorded e he).append [_], ?_,
        fun r' hr' => ?_⟩
      · rw [List.countP_cons_of_neg Bool.false_ne_true, ← hcounted, ← hb]
        rfl
      · cases hr'
        exact hr
    rw [hdeeds, List.singleton_append]
    cases ha : p.board.abort with
    | true =>
      rw [ha] at hall hlooked
      have hfinish : p.finish = { p with status := .ended (.error .aborted) } := by
        simp only [Pool.finish, hf, ha, if_true]
      rw [hfinish]
      exact hall rfl (.aborted hlooked rfl)
    | false =>
      rw [ha] at hall hlooked
      have hfinish : p.finish = { p with
          board := p.board.note (.loopDrained .threaded), status := .ended (.ok ()) } := by
        simp only [Pool.finish, hf, ha]
        rfl
      rw [hfinish]
      exact hall rfl (.converged hlooked rfl)

theorem stepPool (h : p.Accounts deeds) (ho : p.Orderly pending) (hx : p.Explained total)
    (ht : total) (hr : p.status = .running) (hs : p.stepPool = some p') :
    p'.Accounts (p.deeds .pool ++ deeds) := by
  unfold Pool.stepPool at hs
  split at hs
  · rename_i hw
    obtain rfl := Option.some.inj hs
    exact h.finish (ho.hands_eq_nil (List.getElem?_eq_none_iff.mp hw)) hw
  · rename_i hw
    obtain rfl := Option.some.inj hs
    have hdeeds : p.deeds .pool = [] := by simp only [Pool.deeds, hw]
    rw [hdeeds]
    exact ⟨h.reported, h.noticed, h.recorded, h.counted,
      fun r hended => by cases hr.symm.trans hended⟩
  · rename_i hw
    exact absurd ht (hx.crashed (List.mem_of_getElem? hw))
  · cases hs

theorem requestAbort (h : p.Accounts deeds) :
    { p with board := { p.board with abort := true } }.Accounts deeds :=
  ⟨h.reported, h.noticed, h.recorded, h.counted, h.ended⟩

end Accounts

end Pool

end Threaded

/-! ## Both engines -/

namespace Machine

/-- The machine accounts for all deeds so far. -/
def Accounts (deeds : List Deed) : Machine F V E T O → Prop
  | sequential b status => Sequential.Accounts deeds b status
  | threaded pool => pool.Accounts deeds

variable {m m' : Machine F V E T O} {p : PendingList F} {deeds new : List Deed}

theorem Acts.accounts (h : m.Acts behaviour new m') (ho : m.Orderly p) (hv : (m.scene p).Valid)
    (hx : m.Explained total) (ht : total) (ha : m.Accounts deeds) :
    m'.Accounts (new ++ deeds) := by
  obtain ⟨p', hmoves, ho'⟩ := h.step.moves ho
  have hv' := Moves.valid hmoves hv
  cases h with
  | turn hdoes => exact hdoes.accounts ha ho hv.pending
  | @actor pool pool' a hs =>
    unfold Threaded.Pool.step at hs
    split at hs
    · rename_i hr
      cases a with
      | worker index =>
        obtain ⟨old, new, b, error, hw, hstep, rfl⟩ := Threaded.Pool.stepWorker_eq_some hs
        rw [Threaded.Pool.deeds_worker hw]
        exact Threaded.Pool.Accounts.stepped ha hr hw hstep hv'.hands
      | pool => exact Threaded.Pool.Accounts.stepPool ha ho hx ht hr hs
    · cases hs
  | abort =>
    cases m with
    | sequential b status =>
      have ha : Sequential.Accounts deeds b status := ha
      exact ⟨ha.running, ha.ended, ha.counted⟩
    | threaded pool => exact Threaded.Pool.Accounts.requestAbort ha

theorem accounts_start (options : EngineOptions) {b : Board F V E T O} (hb : b.updates = 0) :
    (start options b).Accounts [] := by
  unfold Machine.start
  split
  · exact ⟨fun _ => faultless_nil, nofun, hb⟩
  · exact Threaded.Pool.Accounts.start (b := b.note (.loopStarted options.engine)) hb _

/-- A run accounts for all of its deeds. -/
theorem Passes.accounts (h : m.Passes behaviour deeds m') (ho : m.Orderly p)
    (hv : (m.scene p).Valid) (hx : m.Explained total) (ht : total) (ha : m.Accounts []) :
    m'.Accounts deeds := by
  induction h with
  | start => exact ha
  | step hpasses hs ih =>
    obtain ⟨p', hmoves, ho'⟩ := hpasses.reaches.moves ho
    exact hs.accounts ho' (Moves.valid hmoves hv) (hpasses.reaches.explained ho hv hx)
      ht ih

/-- When a run has ended, its result and its count are what its deeds say. -/
theorem Accounts.verdict (h : m.Accounts deeds) (ho : m.Orderly p) {r : Except EngineError Unit}
    (hs : m.status = .ended r) :
    Verdict deeds r ∧ m.board.updates = deeds.countP Deed.isFinished := by
  cases m with
  | sequential b status =>
    have h : Sequential.Accounts deeds b status := h
    exact ⟨h.ended r hs, h.counted⟩
  | threaded pool =>
    have h : pool.Accounts deeds := h
    have hhands : pool.hands = [] := Orderly.hands_eq_nil ho (by rw [hs]; exact nofun)
    have hcounted := h.counted
    rw [hhands] at hcounted
    exact ⟨h.ended r hs, hcounted⟩

end Machine

/-! ## What the caller gets -/

theorem Core.launch_accounts {core : Core F V E T} {m : Machine F V E T O}
    (h : core.launch = .ok m) : m.Accounts [] := by
  obtain ⟨g, b, -, hquiet, -, -, hm⟩ := launch_cases h
  have hupdates : b.updates = 0 := hquiet.updates
  rcases hm with ⟨-, rfl⟩ | ⟨-, rfl⟩
  · exact ⟨nofun, nofun, hupdates⟩
  · exact Machine.accounts_start core.options hupdates

/-- A run of a core whose syncs do not panic ends with a result that its deeds account for. -/
theorem Core.Consistent.verdict {core : Core F V E T} (hc : core.Consistent) (ht : core.syncs.Total)
    {first last : Machine F V E T O} (hl : core.launch = .ok first) {deeds : List Deed}
    (hp : first.Passes behaviour deeds last) {conclusion : Conclusion} {next : Core F V E T}
    (hconclude : core.conclude? last = some (conclusion, next)) :
    ∃ r, last.status = .ended r ∧ Verdict deeds r ∧
      last.board.updates = deeds.countP Deed.isFinished := by
  obtain ⟨ho, hv⟩ := hc.launch hl
  have hx := Core.launch_explained hl
  obtain ⟨p, -, ho'⟩ := hp.reaches.moves ho
  have haccounts := hp.accounts ho hv hx ht (Core.launch_accounts hl)
  have hended : ∃ r, last.status = .ended r := by
    cases Core.concludes_of_eq_some hconclude with
    | crashed hs => exact absurd ht (((hp.reaches.explained ho hv hx).cause ho').2 hs)
    | converged hs => exact ⟨_, hs⟩
    | stopped hs => exact ⟨_, hs⟩
  obtain ⟨r, hr⟩ := hended
  exact ⟨r, hr, haccounts.verdict ho' hr⟩

/-- A run that has not come to a conclusion goes on. -/
theorem Core.running_of_conclude {core : Core F V E T} {m : Machine F V E T O}
    (h : core.conclude? m = none) : m.status = .running := by
  unfold Core.conclude? at h
  split at h
  · assumption
  all_goals cases h

namespace Core.Concludes

variable {core next : Core F V E T} {m : Machine F V E T O} {conclusion : Conclusion}

theorem of_error (h : core.Concludes m conclusion next) {e : EngineError}
    (hs : m.status = .ended (.error e)) :
    conclusion = .stopped e ∧ next = core.afterRun m.board (.error e) := by
  cases h with
  | crashed h => cases h.symm.trans hs
  | converged h => cases h.symm.trans hs
  | stopped h =>
    cases h.symm.trans hs
    exact ⟨rfl, rfl⟩

theorem of_ok (h : core.Concludes m conclusion next) (hs : m.status = .ended (.ok ())) :
    conclusion = .converged (core.report m.board) ∧ next = core.afterRun m.board (.ok ()) := by
  cases h with
  | crashed h => cases h.symm.trans hs
  | converged h => exact ⟨rfl, rfl⟩
  | stopped h => cases h.symm.trans hs

end Core.Concludes

/-- Whether an error says that an execution failed or panicked. -/
def EngineError.IsFailure : EngineError → Prop
  | .update .. | .workerPanicked => True
  | _ => False

theorem Blames.isFailure {deeds : List Deed} {e : EngineError} (h : Blames deeds e) :
    e.IsFailure := by
  rcases h.exists_ended with ⟨v, source, rfl, -⟩ | ⟨rfl, -⟩
  · trivial
  · trivial

/-- A run in which no task has failed ends well or as aborted, and as aborted only after a
request. -/
theorem Core.Consistent.conclusion_of_unfailed {core : Core F V E T} (hc : core.Consistent)
    (ht : core.syncs.Total) {first last : Machine F V E T O} (hl : core.launch = .ok first)
    {deeds : List Deed} (hp : first.Passes behaviour deeds last) {conclusion : Conclusion}
    {next : Core F V E T} (hconclude : core.conclude? last = some (conclusion, next))
    (hun : last.board.Unfailed) :
    conclusion = .converged (core.report last.board) ∨
      conclusion = .stopped .aborted ∧ last.board.abort = true := by
  obtain ⟨result, hstatus, hverdict, -⟩ := hc.verdict ht hl hp hconclude
  obtain ⟨ho, hv⟩ := hc.launch hl
  obtain ⟨p, -, ho'⟩ := hp.reaches.moves ho
  have hcause := ((hp.reaches.explained ho hv (launch_explained hl)).cause ho').1
  have hconcludes := concludes_of_eq_some hconclude
  cases hverdict with
  | fault hblames =>
    have hfailure := hblames.isFailure
    cases hcause _ hstatus with
    | task _ hnot => exact absurd hun hnot
    | abort _ => exact hfailure.elim
    | spawn reason => exact hfailure.elim
    | sync hnot => exact absurd ht hnot
  | aborted _ _ =>
    cases hcause _ hstatus with
    | task _ hnot => exact absurd hun hnot
    | abort hraised => exact .inr ⟨(hconcludes.of_error hstatus).1, hraised⟩
  | converged _ _ => exact .inl (hconcludes.of_ok hstatus).1

/-- In a run in which workers can be started and no sync panics no failure is swallowed.  Until it
has ended the engine can go on.  It ends with the error of an execution that failed or panicked
exactly if there was one; without one it ends as aborted exactly if an abort was requested when the
engine last looked; and else it ends well and has nothing left to do. -/
theorem outcome_classified {core : Core F V E T} (hc : core.Reachable behaviour)
    (ht : core.syncs.Total) {first m : Machine F V E T O} (hl : core.launch = .ok first)
    {deeds : List Deed} (hp : first.Passes behaviour deeds m) :
    (core.conclude? m = none → ∃ m', m.Works behaviour m') ∧
      ∀ conclusion next, core.conclude? m = some (conclusion, next) →
        ((∃ e, conclusion = .stopped e ∧ e.IsFailure) ↔ ¬Faultless deeds) ∧
          (∀ e, conclusion = .stopped e → e.IsFailure →
            (∃ v source, e = .update v source ∧ .ended v (.failed source) ∈ deeds) ∨
              e = .workerPanicked ∧ ∃ v, .ended v .panicked ∈ deeds) ∧
          (conclusion = .stopped .aborted ↔ Faultless deeds ∧ lastLook deeds = some true) ∧
          (Faultless deeds → lastLook deeds ≠ some true →
            conclusion = .converged (core.report m.board) ∧ next.scheduler.queue.toList = []) := by
  have hconsistent := hc.consistent
  obtain ⟨ho, -⟩ := hconsistent.launch hl
  obtain ⟨p, -, ho'⟩ := hp.reaches.moves ho
  refine ⟨fun hnone => ho'.exists_works behaviour (Core.running_of_conclude hnone),
    fun conclusion next hconclude => ?_⟩
  obtain ⟨r, hstatus, hverdict, -⟩ := hconsistent.verdict ht hl hp hconclude
  have hpending : m.status = .ended (.ok ()) → m.board.scheduler.queue.toList = [] :=
    fun hs => ho'.tracks.queue.toList_eq.trans (ho'.converged hs).1
  have hcases := Core.concludes_of_eq_some hconclude
  cases hverdict with
  | @fault e hblames =>
    have hnot := hblames.not_faultless
    obtain ⟨rfl, -⟩ := hcases.of_error hstatus
    refine ⟨⟨fun _ => hnot, fun _ => ⟨e, rfl, hblames.isFailure⟩⟩, fun e' he' _ => ?_,
      ⟨fun ha => ?_, fun ha => absurd ha.1 hnot⟩, fun hf => absurd hf hnot⟩
    · cases he'
      exact hblames.exists_ended
    · cases ha
      exact hblames.isFailure.elim
  | aborted hf hlook =>
    obtain ⟨rfl, -⟩ := hcases.of_error hstatus
    refine ⟨⟨?_, fun hnot => absurd hf hnot⟩, ?_, ⟨fun _ => ⟨hf, hlook⟩, fun _ => rfl⟩,
      fun _ hne => absurd hlook hne⟩
    · rintro ⟨e, he, hfailure⟩
      cases he
      exact hfailure.elim
    · intro e he hfailure
      cases he
      exact hfailure.elim
  | converged hf hlook =>
    obtain ⟨rfl, rfl⟩ := hcases.of_ok hstatus
    refine ⟨⟨?_, fun hnot => absurd hf hnot⟩, nofun, ⟨nofun, fun ha => ?_⟩,
      fun _ _ => ⟨rfl, hpending hstatus⟩⟩
    · rintro ⟨e, he, -⟩
      cases he
    · cases hlook.symm.trans ha.2

/-- A function that fails on every vertex. -/
def giveUp : Behaviour Unit Nat Unit Nat Empty :=
  fun _ _ _ => .fail (.other "no")

theorem reachable_giveUp : twoTasks.Reachable giveUp :=
  .operation (.operation (.operation
    (.new (rfl : Core.withOptions twoTasks.options = .ok _))
    (.setGraph _ (.operation .empty (.addVertex 0)))) (.schedule 0 () 1)) (.schedule 0 () 1)

/-- The first worker fails and closes the scheduler, and the second one finds it closed. -/
def failingRun : List Threaded.Actor :=
  List.replicate 7 (.worker 0) ++ List.replicate 3 (.worker 1) ++ List.replicate 3 .pool

/-- The error of the task that failed reaches the caller. -/
theorem outcome_classified_failingRun :
    ∃ next, twoTasks.conclude? (.threaded (twoTasksPool.interleave giveUp failingRun)) =
        some (.stopped (.update 0 (.other "no")), next) ∧
      ¬Faultless (twoTasksPool.deedsAlong giveUp failingRun) ∧
      .ended 0 (.failed (.other "no")) ∈ twoTasksPool.deedsAlong giveUp failingRun := by
  have hlaunch : twoTasks.launch = .ok (.threaded twoTasksPool) := rfl
  have hpasses := Machine.passes_interleave giveUp twoTasksPool failingRun
  have htotal : twoTasks.syncs.Total := nofun
  have hconclude : twoTasks.conclude? (.threaded (twoTasksPool.interleave giveUp failingRun)) =
      some (.stopped (.update 0 (.other "no")), _) := rfl
  obtain ⟨hfailure, hblamed, -⟩ :=
    (outcome_classified reachable_giveUp htotal hlaunch hpasses).2 _ _ hconclude
  refine ⟨_, hconclude, hfailure.mp ⟨_, rfl, trivial⟩, ?_⟩
  rcases hblamed _ rfl trivial with ⟨v, source, he, hmem⟩ | ⟨he, -⟩
  · cases he
    exact hmem
  · cases he

end VertexEngine
