import VertexEngine.Proofs.Run.Cause
import VertexEngine.Proofs.Run.Register
import VertexEngine.Proofs.Run.Unmanned

/-!
# One worker is the sequential engine

A pool of one worker does what the sequential loop does, although it marks the vertex that it works
on, closes its scheduler on errors, and looks for an abort only when its worker has left.

* `Machine.Works` is a step of a run that nobody disturbs.
* `Pool.Solo` is what a pool of one worker keeps, and `Pool.Mirrors` says that it has come, but for
  what its worker has begun, to where the loop stands.
* `Solo.rests` says that a worker always finishes what it has begun.
* `one_worker_sequential` is the result about runs of a core.
-/

namespace VertexEngine

variable {F V E T O : Type} {behaviour : Behaviour F V E T O}

/-! ## Undisturbed runs -/

/-- A step of a run that nobody disturbs: a turn of the loop, or a step of an actor of the pool. -/
inductive Machine.Works (behaviour : Behaviour F V E T O) :
    Machine F V E T O → Machine F V E T O → Prop
  | turn (b : Board F V E T O) : Works behaviour (.sequential b .running)
      (.sequential (Sequential.turn behaviour b).1 (Sequential.turn behaviour b).2)
  | actor {p p' : Threaded.Pool F V E T O} {a : Threaded.Actor}
    (h : p.step behaviour a = some p') : Works behaviour (.threaded p) (.threaded p')

/-- Any number of such steps. -/
abbrev Machine.WorksTo (behaviour : Behaviour F V E T O) :
    Machine F V E T O → Machine F V E T O → Prop :=
  Relation.ReflTransGen (Works behaviour)

theorem Machine.Works.step {m m' : Machine F V E T O} (h : m.Works behaviour m') :
    m.Step behaviour m' := by
  cases h with
  | turn b => exact .turn (Sequential.turn_turn behaviour b)
  | actor h => exact .actor h

theorem Machine.WorksTo.reaches {m m' : Machine F V E T O} (h : m.WorksTo behaviour m') :
    m.Reaches behaviour m' :=
  Relation.ReflTransGen.mono (fun _ _ hs => hs.step) _ _ h

namespace Threaded

/-! ## A pool of one worker -/

namespace Pool

/-- What a pool of one worker keeps, when no sync panics. -/
structure Solo (p : Pool F V E T O) (w : Phase F V T O) : Prop where
  workers : p.workers = [w]
  blameless : w.isEnding = false → p.firstError = none
  whole : w ≠ .left true
  joined : p.joined = 0 ∨ p.joined = 1 ∧ w = .left false
  status : p.status = .running ∨
    w = .left false ∧ p.status = .ended (verdict p.firstError p.board.abort)
  due : ∀ sync ∈ w.due, sync.spec.Total
  syncs : p.board.syncs.Total
  size : p.board.graph.values.size ≤ Graph.maxVertices

variable {p p' : Pool F V E T O} {w : Phase F V T O} {pending : PendingList F}

theorem Solo.start {b : Board F V E T O} (hs : b.syncs.Total)
    (hg : b.graph.values.size ≤ Graph.maxVertices) : (Pool.start b 1).Solo .starting :=
  ⟨rfl, fun _ => rfl, nofun, .inl rfl, .inl rfl, nofun, hs, hg⟩

/-- The pool ends the run with the result that was ahead. -/
theorem finish_eq (p : Pool F V E T O) :
    ∃ b, p.finish = { p with board := b, status := .ended (verdict p.firstError p.board.abort) } ∧
      b.plain = p.board.plain ∧ b.abort = p.board.abort ∧ b.syncs = p.board.syncs ∧
      b.graph = p.board.graph := by
  cases hf : p.firstError with
  | some e =>
    refine ⟨p.board, ?_, rfl, rfl, rfl, rfl⟩
    simp only [finish, hf, verdict]
  | none =>
    cases ha : p.board.abort with
    | true =>
      refine ⟨p.board, ?_, rfl, ha, rfl, rfl⟩
      simp only [finish, hf, ha, verdict, if_true]
    | false =>
      refine ⟨p.board.note (.loopDrained .threaded), ?_, p.board.plain_note_engine rfl, ha, rfl,
        rfl⟩
      simp [finish, hf, ha, verdict]

/-- A step of the worker is one within a turn, or one that is worth a turn. -/
theorem Solo.stepWorker (h : p.Solo w) (ho : p.Orderly pending) (hr : p.status = .running)
    {index : Nat} (hs : p.stepWorker behaviour index = some p') :
    ∃ w', p'.Solo w' ∧
      (w ≠ .idle ∧ plainly (w'.ahead p'.firstError p'.board) =
          plainly (w.ahead p.firstError p.board) ∨
        w = .idle ∧ plainly (w'.ahead p'.firstError p'.board) =
          plainly (Sequential.turn behaviour p.board)) := by
  obtain ⟨old, new, b, e, hw, hstep, rfl⟩ := stepWorker_eq_some hs
  rw [h.workers] at hw
  obtain ⟨rfl, rfl⟩ : index = 0 ∧ w = old := by
    cases index with
    | zero => exact ⟨rfl, Option.some.inj hw⟩
    | succ index => cases hw
  have hjoined : p.joined = 0 := h.joined.resolve_right fun hj => hstep.ne_left false hj.2
  obtain ⟨hsize, hsyncs⟩ := hstep.frame
  refine ⟨new, ⟨?_, ?_, hstep.ne_crashed h.due, .inl hjoined, .inl hr,
    hstep.due_total h.due h.syncs, hsyncs h.syncs, hsize.trans_le h.size⟩, ?_⟩
  · simp [stepped, h.workers]
  · intro hn
    obtain ⟨hold, rfl⟩ := hstep.not_isEnding hn
    simp [stepped, h.blameless hold]
  · by_cases hidle : w = .idle
    · subst hidle
      have hfirst : p.firstError = none := h.blameless rfl
      have hflight : p.board.scheduler.inFlight = [] := by
        have hperm := ho.tracks.inFlight
        rw [hands, h.workers] at hperm
        exact hperm.eq_nil
      have hclosed : p.board.scheduler.closed = false := by
        cases hc : p.board.scheduler.closed with
        | false => rfl
        | true => simpa [hfirst] using ho.closed hc
      have hturn := hstep.ahead_turn hflight hclosed
      exact .inr ⟨rfl, by simpa [stepped, hfirst] using hturn⟩
    · exact .inl ⟨hidle, hstep.ahead_eq hidle h.blameless h.due h.size⟩

/-- What the pool itself does changes nothing that is ahead. -/
theorem Solo.stepPool (h : p.Solo w) (hs : p.stepPool = some p') :
    w = .left false ∧ p'.Solo w ∧
      plainly (w.ahead p'.firstError p'.board) = plainly (w.ahead p.firstError p.board) := by
  rcases h.joined with hj | ⟨hj, rfl⟩
  · have hnext : p.workers[p.joined]? = some w := by rw [hj, h.workers]; rfl
    cases w with
    | left crashed =>
      cases crashed with
      | true => exact absurd rfl h.whole
      | false =>
        simp only [Pool.stepPool, hnext] at hs
        obtain rfl := Option.some.inj hs
        exact ⟨rfl, ⟨h.workers, h.blameless, h.whole, .inr ⟨by rw [hj], rfl⟩, h.status, h.due,
          h.syncs, h.size⟩, rfl⟩
    | _ =>
      simp only [Pool.stepPool, hnext] at hs
      cases hs
  · have hnext : p.workers[p.joined]? = none := by rw [hj, h.workers]; rfl
    simp only [Pool.stepPool, hnext] at hs
    obtain rfl := Option.some.inj hs
    obtain ⟨b, hfinish, hplain, habort, hsyncs, hgraph⟩ := p.finish_eq
    rw [hfinish]
    refine ⟨rfl, ⟨h.workers, nofun, h.whole, .inr ⟨hj, rfl⟩, .inr ⟨rfl, by rw [habort]⟩, h.due,
      hsyncs ▸ h.syncs, hgraph ▸ h.size⟩, ?_⟩
    simp only [Phase.ahead, plainly, hplain, habort]

/-- A step of a pool of one worker is one within a turn, or one that is worth a turn. -/
theorem Solo.step (h : p.Solo w) (ho : p.Orderly pending) {a : Actor}
    (hs : p.step behaviour a = some p') :
    ∃ w', p'.Solo w' ∧
      (w ≠ .idle ∧ plainly (w'.ahead p'.firstError p'.board) =
          plainly (w.ahead p.firstError p.board) ∨
        w = .idle ∧ plainly (w'.ahead p'.firstError p'.board) =
          plainly (Sequential.turn behaviour p.board)) := by
  unfold Pool.step at hs
  split at hs
  · rename_i hr
    cases a with
    | worker index => exact h.stepWorker ho hr hs
    | pool =>
      obtain ⟨rfl, hsolo, hahead⟩ := h.stepPool hs
      exact ⟨_, hsolo, .inl ⟨nofun, hahead⟩⟩
  · cases hs

/-! ## The worker comes to rest -/

/-- A step within a turn. -/
def Goes (behaviour : Behaviour F V E T O) (p p' : Pool F V E T O) : Prop :=
  ∃ a, p.step behaviour a = some p' ∧ p.workers ≠ [.idle]

/-- By steps within a turn the pool gets to where its worker asks for work, or the run ends. -/
def Rests (behaviour : Behaviour F V E T O) (p : Pool F V E T O) : Prop :=
  ∃ p', Relation.ReflTransGen (Goes behaviour) p p' ∧ (p'.status = .running → p'.workers = [.idle])

theorem Rests.of_step {a : Actor} (hs : p.step behaviour a = some p') (hw : p.workers ≠ [.idle])
    (h : p'.Rests behaviour) : p.Rests behaviour := by
  obtain ⟨q, hgoes, hrest⟩ := h
  exact ⟨q, .head ⟨a, hs, hw⟩ hgoes, hrest⟩

/-- A pool that runs, and that has not noticed that its only worker has left. -/
def alone (b : Board F V E T O) (error : Option EngineError) (w : Phase F V T O) :
    Pool F V E T O :=
  { board := b, workers := [w], firstError := error }

section

variable {b b' : Board F V E T O} {error error' : Option EngineError} {w' : Phase F V T O}

/-- The worker takes a step, and comes to rest after it. -/
theorem rests_of_next (hw : w ≠ .idle)
    (hs : (alone b error w).stepWorker behaviour 0 = some (alone b' error' w'))
    (h : (alone b' error' w').Rests behaviour) : (alone b error w).Rests behaviour :=
  .of_step (a := .worker 0) hs (by simpa [alone] using hw) h

theorem rests_idle : (alone b error .idle).Rests behaviour :=
  ⟨_, .refl, fun _ => rfl⟩

theorem rests_left : (alone b error (.left false)).Rests behaviour := by
  obtain ⟨b', hfinish, -⟩ := finish_eq { alone b error (.left false) with joined := 1 }
  have hended : (finish { alone b error (.left false) with joined := 1 }).Rests behaviour := by
    rw [hfinish]
    exact ⟨_, .refl, nofun⟩
  have hlast : Rests behaviour { alone b error (.left false) with joined := 1 } :=
    .of_step (a := .pool) rfl nofun hended
  exact .of_step (a := .pool) rfl nofun hlast

theorem rests_leaving : (alone b error .leaving).Rests behaviour :=
  rests_of_next nofun rfl rests_left

theorem rests_closing : (alone b error .closing).Rests behaviour :=
  rests_of_next nofun rfl rests_leaving

theorem rests_folding {sync : Sync V T} {due : List (Sync V T)} (hsync : sync.spec.Total)
    (hdue : ∀ b : Board F V E T O, (alone b error (.counting due)).Rests behaviour)
    (unread : List VertexId) (total : T) :
    (alone b error (.folding sync total unread due)).Rests behaviour := by
  induction unread generalizing total with
  | nil =>
    obtain ⟨value, hvalue⟩ := Option.isSome_iff_exists.mp (hsync.finish total)
    have hstep : (alone b error (.folding sync total [] due)).stepWorker behaviour 0 =
        some (alone ({ b with syncs := b.syncs.publish sync.id value }.note (.published sync.id))
          error (.counting due)) := by
      simp [Pool.stepWorker, alone, foldOn, hvalue, moved]
    exact rests_of_next (by simp) hstep (hdue _)
  | cons v unread ih =>
    have hstep : ∃ total', (alone b error (.folding sync total (v :: unread) due)).stepWorker
        behaviour 0 = some (alone b error (.folding sync total' unread due)) := by
      cases hv : b.graph.value v with
      | error e => exact ⟨total, by simp [Pool.stepWorker, alone, foldOn, hv, moved]⟩
      | ok x =>
        obtain ⟨total', ht⟩ := Option.isSome_iff_exists.mp (hsync.fold total v x)
        exact ⟨total', by simp [Pool.stepWorker, alone, foldOn, hv, ht, moved]⟩
    obtain ⟨total', hs⟩ := hstep
    exact rests_of_next (by simp) hs (ih total')

theorem rests_counting {due : List (Sync V T)} (hdue : ∀ sync ∈ due, sync.spec.Total) :
    (alone b error (.counting due)).Rests behaviour := by
  induction due generalizing b with
  | nil => exact rests_of_next nofun rfl rests_idle
  | cons sync due ih =>
    have hrest : ∀ b : Board F V E T O, (alone b error (.counting due)).Rests behaviour :=
      fun b => ih fun sync' h => hdue sync' (List.mem_cons_of_mem _ h)
    exact rests_of_next nofun rfl (rests_folding (hdue sync List.mem_cons_self) hrest _ _)

theorem rests_completed (hs : b.syncs.Total) (v : VertexId) (outcome : Outcome) :
    (alone b error (.completed v outcome)).Rests behaviour := by
  cases outcome with
  | finished =>
    have hdue : ∀ sync ∈ b.increment.syncs.due b.increment.updates, sync.spec.Total :=
      fun sync hsync => hs sync (List.mem_filter.mp hsync).1
    exact rests_of_next nofun rfl (rests_counting hdue)
  | failed e => exact rests_of_next nofun rfl rests_closing
  | panicked => exact rests_of_next nofun rfl rests_closing

theorem rests_returned (hs : b.syncs.Total) (v : VertexId) (outcome : Outcome) :
    (alone b error (.returned v outcome)).Rests behaviour :=
  rests_of_next nofun rfl
    (rests_completed (b := { b with scheduler := b.scheduler.complete v }) hs v outcome)

/-- However the program goes on, it ends. -/
theorem rests_running (hs : b.syncs.Total) (x : Execution F) (program : Program F V T O Unit) :
    (alone b error (.running x program)).Rests behaviour := by
  induction program generalizing b x with
  | done _ =>
    have hs' : (b.note (.updated x.task.vertex)).syncs.Total := hs
    exact rests_of_next nofun rfl (rests_returned hs' _ _)
  | fail e => exact rests_of_next nofun rfl (rests_returned hs _ _)
  | panic => exact rests_of_next nofun rfl (rests_returned hs _ _)
  | ask action next ih =>
    have hstep : (Phase.running x (.ask action next)).Step behaviour 0 b _ _ _ :=
      .ask x action next
    exact rests_of_next nofun rfl (ih _ (hstep.frame.2 hs) _)

end

theorem Solo.rests (h : p.Solo w) : p.Rests behaviour := by
  rcases h.status with hr | ⟨-, hended⟩
  · rcases h.joined with hj | ⟨hj, rfl⟩
    · have halone : p = alone p.board p.firstError w := by
        obtain ⟨board, workers, error, joined, status⟩ := p
        obtain rfl : workers = [w] := h.workers
        obtain rfl : status = .running := hr
        obtain rfl : joined = 0 := hj
        rfl
      rw [halone]
      cases w with
      | starting => exact rests_of_next nofun rfl rests_idle
      | missing => exact rests_of_next nofun rfl rests_left
      | idle => exact rests_idle
      | running x program => exact rests_running h.syncs x program
      | returned v outcome => exact rests_returned h.syncs v outcome
      | completed v outcome => exact rests_completed h.syncs v outcome
      | closing => exact rests_closing
      | counting due => exact rests_counting h.due
      | folding sync total unread due =>
        have hdue : ∀ sync' ∈ due, sync'.spec.Total :=
          fun sync' hs => h.due sync' (List.mem_cons_of_mem _ hs)
        exact rests_folding (h.due sync List.mem_cons_self) (fun b => rests_counting hdue) _ _
      | leaving => exact rests_leaving
      | left crashed =>
        cases crashed with
        | false => exact rests_left
        | true => exact absurd rfl h.whole
    · obtain ⟨b, hfinish, -⟩ := p.finish_eq
      have hlast : p.step behaviour .pool = some p.finish := by
        have hnone : p.workers[p.joined]? = none := by rw [hj, h.workers]; rfl
        simp only [Pool.step, hr, Pool.stepPool, hnone]
      refine .of_step hlast (by simp [h.workers]) ?_
      rw [hfinish]
      exact ⟨_, .refl, nofun⟩
  · exact ⟨p, .refl, fun hr => by rw [hr] at hended; cases hended⟩

/-! ## Both engines side by side -/

/-- The pool has come, but for what its worker has begun, to where the loop stands. -/
structure Mirrors (p : Pool F V E T O) (r : Board F V E T O × RunStatus) : Prop where
  orderly : ∃ pending, p.Orderly pending
  ahead : ∃ w, p.Solo w ∧ plainly r = plainly (w.ahead p.firstError p.board)

namespace Mirrors

variable {r : Board F V E T O × RunStatus}

theorem of_idle (h : p.Mirrors r) (hw : p.workers = [.idle]) :
    r.1.plain = p.board.plain ∧ r.2 = .running := by
  obtain ⟨w, hsolo, hahead⟩ := h.ahead
  obtain rfl : w = .idle := List.singleton_inj.mp (hsolo.workers.symm.trans hw)
  exact Prod.mk.inj hahead

theorem of_ended (h : p.Mirrors r) (hp : p.status ≠ .running) :
    r.1.plain = p.board.plain ∧ r.2 = p.status := by
  obtain ⟨w, hsolo, hahead⟩ := h.ahead
  obtain ⟨rfl, hended⟩ := hsolo.status.resolve_left hp
  rw [hended]
  exact Prod.mk.inj hahead

theorem tasks_eq (h : p.Mirrors r) : r.1.tasks = p.board.tasks := by
  obtain ⟨w, -, hahead⟩ := h.ahead
  have hplain : r.1.plain = (w.ahead p.firstError p.board).1.plain := (Prod.mk.inj hahead).1
  rw [← Board.plain_tasks, hplain, Board.plain_tasks, Phase.ahead_tasks]

theorem orderly_next (h : p.Mirrors r) {a : Actor} (hs : p.step behaviour a = some p') :
    ∃ pending, p'.Orderly pending := by
  obtain ⟨pending, ho⟩ := h.orderly
  obtain ⟨pending', -, ho'⟩ := Machine.Step.moves (.actor hs) (m := .threaded p) ho
  exact ⟨pending', ho'⟩

/-- A step within a turn is nothing to the loop. -/
theorem goes (h : p.Mirrors r) (hg : p.Goes behaviour p') : p'.Mirrors r := by
  obtain ⟨a, hs, hidle⟩ := hg
  obtain ⟨pending, ho⟩ := h.orderly
  obtain ⟨w, hsolo, hahead⟩ := h.ahead
  obtain ⟨w', hsolo', ⟨-, hstep⟩ | ⟨rfl, -⟩⟩ := hsolo.step ho hs
  · exact ⟨h.orderly_next hs, w', hsolo', hahead.trans hstep.symm⟩
  · exact absurd hsolo.workers hidle

/-- A pool that asks for work takes a turn with the loop. -/
theorem turns (h : p.Mirrors r) (hw : p.workers = [.idle]) {a : Actor}
    (hs : p.step behaviour a = some p') : p'.Mirrors (Sequential.turn behaviour r.1) := by
  obtain ⟨hplain, -⟩ := h.of_idle hw
  obtain ⟨pending, ho⟩ := h.orderly
  obtain ⟨w, hsolo, -⟩ := h.ahead
  obtain rfl : w = .idle := List.singleton_inj.mp (hsolo.workers.symm.trans hw)
  obtain ⟨w', hsolo', ⟨hidle, -⟩ | ⟨-, hstep⟩⟩ := hsolo.step ho hs
  · exact absurd rfl hidle
  · exact ⟨h.orderly_next hs, w', hsolo', (Sequential.turn_congr hplain).trans hstep.symm⟩

/-- The loop follows the pool. -/
theorem follow (h : p.Mirrors r) {n : Machine F V E T O}
    (hn : (Machine.threaded p).WorksTo behaviour n) :
    ∃ p' r', n = .threaded p' ∧ p'.Mirrors r' ∧
      (Machine.sequential r.1 r.2).WorksTo behaviour (.sequential r'.1 r'.2) := by
  induction hn with
  | refl => exact ⟨p, r, rfl, h, .refl⟩
  | tail _ hstep ih =>
    obtain ⟨p₁, r₁, rfl, h₁, hloop⟩ := ih
    cases hstep with
    | @actor _ p₂ a hs =>
      by_cases hidle : p₁.workers = [.idle]
      · have hrunning := (h₁.of_idle hidle).2
        refine ⟨p₂, _, rfl, h₁.turns hidle hs, hloop.tail ?_⟩
        rw [hrunning]
        exact .turn r₁.1
      · exact ⟨p₂, r₁, rfl, h₁.goes ⟨a, hs, hidle⟩, hloop⟩

theorem goesTo (h : p.Mirrors r) (hg : Relation.ReflTransGen (Goes behaviour) p p') :
    p'.Mirrors r ∧ (Machine.threaded p).WorksTo behaviour (.threaded p') := by
  induction hg with
  | refl => exact ⟨h, .refl⟩
  | tail _ hstep ih =>
    obtain ⟨a, hs, hidle⟩ := hstep
    exact ⟨ih.1.goes ⟨a, hs, hidle⟩, ih.2.tail (.actor hs)⟩

/-- The pool comes to rest where the loop stands. -/
theorem rest (h : p.Mirrors r) (behaviour : Behaviour F V E T O) :
    ∃ p', p'.Mirrors r ∧ (Machine.threaded p).WorksTo behaviour (.threaded p') ∧
      p'.board.plain = r.1.plain ∧ p'.status = r.2 ∧ (r.2 = .running → p'.workers = [.idle]) := by
  obtain ⟨w, hsolo, -⟩ := h.ahead
  obtain ⟨p', hgoes, hrest⟩ : p.Rests behaviour := hsolo.rests
  obtain ⟨h', hworks⟩ := h.goesTo hgoes
  refine ⟨p', h', hworks, ?_⟩
  by_cases hr : p'.status = .running
  · obtain ⟨hplain, hstatus⟩ := h'.of_idle (hrest hr)
    exact ⟨hplain.symm, hr.trans hstatus.symm, fun _ => hrest hr⟩
  · obtain ⟨hplain, hstatus⟩ := h'.of_ended hr
    exact ⟨hplain.symm, hstatus.symm, fun hrunning => absurd (hstatus.symm.trans hrunning) hr⟩

/-- A pool whose worker asks for work is always answered. -/
theorem exists_step (h : p.Mirrors r) (hw : p.workers = [.idle])
    (behaviour : Behaviour F V E T O) :
    ∃ p', p.step behaviour (.worker 0) = some p' := by
  obtain ⟨pending, ho⟩ := h.orderly
  obtain ⟨w, hsolo, -⟩ := h.ahead
  obtain rfl : w = .idle := List.singleton_inj.mp (hsolo.workers.symm.trans hw)
  have hrunning : p.status = .running := hsolo.status.resolve_right fun he => by cases he.1
  have hnowait : (p.board.scheduler.dispatch p.board.abort).1 ≠ .wait := by
    obtain ⟨p', held', hdec, -⟩ := ho.tracks.dispatch p.board.abort
    intro hwait
    obtain ⟨-, hheld, -⟩ := hdec.wait_iff.mp hwait
    exact hheld (by rw [hands, hw]; rfl)
  rw [Pool.step, hrunning]
  simp only [Pool.stepWorker, hw, List.getElem?_cons_zero, Pool.ask]
  split
  · rename_i hd
    exact absurd (congrArg Prod.fst hd) hnowait
  · exact ⟨_, rfl⟩
  · exact ⟨_, rfl⟩

/-- The pool follows the loop. -/
theorem lead (h : p.Mirrors r) {m : Machine F V E T O}
    (hm : (Machine.sequential r.1 r.2).WorksTo behaviour m) :
    ∃ p' r', m = .sequential r'.1 r'.2 ∧ p'.Mirrors r' ∧
      (Machine.threaded p).WorksTo behaviour (.threaded p') ∧
      p'.board.plain = r'.1.plain ∧ p'.status = r'.2 ∧
      (r'.2 = .running → p'.workers = [.idle]) := by
  induction hm with
  | refl =>
    obtain ⟨p', h', hworks, hrest⟩ := h.rest behaviour
    exact ⟨p', r, rfl, h', hworks, hrest⟩
  | tail _ hstep ih =>
    obtain ⟨p₁, r₁, rfl, h₁, hworks, -, -, hidle⟩ := ih
    obtain ⟨b, status⟩ := r₁
    cases hstep with
    | turn _ =>
      obtain ⟨p₂, hs⟩ := h₁.exists_step (hidle rfl) behaviour
      obtain ⟨p₃, h₃, hworks', hrest⟩ := (h₁.turns (hidle rfl) hs).rest behaviour
      exact ⟨p₃, _, rfl, h₃, (hworks.tail (.actor hs)).trans hworks', hrest⟩

end Mirrors

end Pool

end Threaded

/-- A machine that has stopped makes no more steps. -/
theorem Machine.Works.running {m m' : Machine F V E T O} (h : m.Works behaviour m') :
    m.status = .running := by
  cases h with
  | turn b => rfl
  | actor hs =>
    unfold Threaded.Pool.step at hs
    split at hs
    · assumption
    · cases hs

/-- The loop goes one way only, so it ends in one way only. -/
theorem Machine.ended_unique {m m' : Machine F V E T O} {b : Board F V E T O} {status : RunStatus}
    (h : (Machine.sequential b status).WorksTo behaviour m)
    (h' : (Machine.sequential b status).WorksTo behaviour m') (hm : m.status ≠ .running)
    (hm' : m'.status ≠ .running) : m = m' := by
  generalize hstart : Machine.sequential b status = start at h h'
  induction h using Relation.ReflTransGen.head_induction_on generalizing b status with
  | refl =>
    rcases h'.cases_head with rfl | ⟨c, hc, -⟩
    · rfl
    · exact absurd hc.running hm
  | head hfirst _ ih =>
    subst hstart
    rcases h'.cases_head with rfl | ⟨c, hc, hrest⟩
    · exact absurd hfirst.running hm'
    · cases hfirst
      cases hc
      exact ih rfl hrest

/-! ## Runs of a core -/

namespace Core

/-- The core when it is to run with the sequential engine. -/
def onLoop (core : Core F V E T) : Core F V E T :=
  { core with options := { core.options with engine := .sequential } }

/-- The core when it is to run with one worker. -/
def onOneWorker (core : Core F V E T) : Core F V E T :=
  { core with options := core.options.withWorkers 1 }

end Core

/-- The same conclusion, with this engine in the report. -/
def Conclusion.onEngine (engine : EngineKind) : Conclusion → Conclusion
  | converged report => .converged { report with engine }
  | stopped e => .stopped e
  | crashed => .crashed

namespace Core

/-- After a run that ended well nothing is marked in its scheduler. -/
theorem scheduler_of_converged {m : Machine F V E T O} {pending : PendingList F}
    (h : m.Orderly pending) (hs : m.status = .ended (.ok ())) :
    m.board.scheduler = m.board.plain.scheduler := by
  obtain ⟨-, hclosed, -⟩ := h.converged hs
  have hflight : m.board.scheduler.inFlight = [] := by
    have hperm := h.tracks.inFlight
    rw [h.hands_eq_nil (by simp [hs])] at hperm
    exact hperm.eq_nil
  rw [Board.plain, ← hclosed, ← hflight]

theorem report_onOneWorker (core : Core F V E T) {b c : Board F V E T O} (h : b.plain = c.plain) :
    core.onOneWorker.report c = { core.onLoop.report b with engine := .threaded } := by
  have hupdates : b.plain.updates = c.plain.updates := by rw [h]
  have hsyncs : b.plain.syncs = c.plain.syncs := by rw [h]
  have hupdates : b.updates = c.updates := hupdates
  have hsyncs : b.syncs = c.syncs := hsyncs
  simp only [report, hupdates, hsyncs]
  rfl

/-- Boards that differ in nothing but what the engines noted leave the same core behind. -/
theorem afterRun_onOneWorker (core : Core F V E T) {b c : Board F V E T O} (h : b.plain = c.plain)
    {result : Except EngineError Unit} (hs : result.isOk = true → b.scheduler = c.scheduler) :
    core.onOneWorker.afterRun c result =
      { core.onLoop.afterRun b result with
        options := core.options.withWorkers 1
        metrics := { (core.onLoop.afterRun b result).metrics with
          lastRun := some { core.onLoop.report b with engine := .threaded } } } := by
  have hgraph : b.plain.graph = c.plain.graph := by rw [h]
  have hsyncs : b.plain.syncs = c.plain.syncs := by rw [h]
  have hupdates : b.plain.updates = c.plain.updates := by rw [h]
  have hqueue : b.plain.scheduler.queue = c.plain.scheduler.queue := by rw [h]
  have hgraph : b.graph = c.graph := hgraph
  have hsyncs : b.syncs = c.syncs := hsyncs
  have hupdates : b.updates = c.updates := hupdates
  have hqueue : b.scheduler.queue = c.scheduler.queue := hqueue
  have hscheduler : (if result.isOk then b.scheduler else b.scheduler.reset) =
      if result.isOk then c.scheduler else c.scheduler.reset := by
    split
    · rename_i hok
      exact hs hok
    · rw [Scheduler.reset, Scheduler.reset, hqueue]
  rw [afterRun, afterRun, core.report_onOneWorker h]
  simp only [adopt, hgraph, hsyncs, hupdates, hscheduler]
  rfl

/-- Two runs that came to the same end in the same way, but for the engine in the report. -/
theorem conclude_onOneWorker {core next next' : Core F V E T} {m n : Machine F V E T O}
    {c c' : Conclusion} {pending pending' : PendingList F} (hm : m.Orderly pending)
    (hn : n.Orderly pending') (hplain : m.board.plain = n.board.plain)
    (hstatus : m.status = n.status) (hcaught : n.status ≠ .crashed)
    (h : core.onLoop.conclude? m = some (c, next))
    (h' : core.onOneWorker.conclude? n = some (c', next')) :
    c' = c.onEngine .threaded ∧
      next' = { next with
        options := core.options.withWorkers 1
        metrics := { next.metrics with
          lastRun := next.metrics.lastRun.map fun report =>
            { report with engine := .threaded } } } := by
  unfold conclude? at h h'
  rw [hstatus] at h
  split at h
  · cases h
  · exact absurd ‹_› hcaught
  · rename_i hok
    obtain ⟨rfl, rfl⟩ := Prod.mk.inj (Option.some.inj h)
    rw [hok] at h'
    obtain ⟨rfl, rfl⟩ := Prod.mk.inj (Option.some.inj h')
    have hscheduler : m.board.scheduler = n.board.scheduler := by
      rw [scheduler_of_converged hm (hstatus.trans hok), scheduler_of_converged hn hok, hplain]
    exact ⟨congrArg Conclusion.converged (core.report_onOneWorker hplain),
      core.afterRun_onOneWorker hplain fun _ => hscheduler⟩
  · rename_i e herror
    obtain ⟨rfl, rfl⟩ := Prod.mk.inj (Option.some.inj h)
    rw [herror] at h'
    obtain ⟨rfl, rfl⟩ := Prod.mk.inj (Option.some.inj h')
    exact ⟨rfl, core.afterRun_onOneWorker hplain nofun⟩

/-- Both runs start where the core stands. -/
theorem mirrors_of_launch {core : Core F V E T} (hc : core.Sound) (hs : core.syncs.Total)
    {m₀ n₀ : Machine F V E T O} (hm : core.onLoop.launch = .ok m₀)
    (hn : core.onOneWorker.launch = .ok n₀) :
    ∃ p r, m₀ = .sequential r.1 r.2 ∧ n₀ = .threaded p ∧ p.Mirrors r ∧
      (p.status = .running ∧ p.firstError = none) ∧ ∃ pending, m₀.Orderly pending := by
  obtain ⟨pending, hp⟩ := hc.tracks
  obtain ⟨g, hheld, hmo, -⟩ := launch_eq_ok hm ⟨hc.tracks, hc.closed, hc.graph⟩ hp
  obtain ⟨-, -, hno, -⟩ := launch_eq_ok hn ⟨hc.tracks, hc.closed, hc.graph⟩ hp
  obtain ⟨b, hgraph, htotal, hlaunch⟩ := launch_of_total (O := O) (stage_of_heldGraph hheld) hs
  obtain rfl := Except.ok.inj ((hlaunch _).symm.trans hm)
  obtain rfl := Except.ok.inj ((hlaunch _).symm.trans hn)
  have hsize : b.graph.values.size ≤ Graph.maxVertices := by
    rw [hgraph]
    exact (hc.graph g hheld).values_size
  refine ⟨_, (b.note (.loopStarted .sequential), .running), rfl, rfl, ⟨⟨pending, hno⟩, ?_⟩,
    ⟨rfl, rfl⟩, pending, hmo⟩
  refine ⟨.starting, .start htotal hsize, ?_⟩
  have hplain : (b.note (.loopStarted .sequential)).plain =
      (b.note (.loopStarted .threaded)).plain :=
    (b.plain_note_engine rfl).trans (b.plain_note_engine rfl).symm
  exact congrArg (·, RunStatus.running) hplain

end Core

/-- A core whose syncs do not panic does the same with one worker as with the sequential engine, if
the worker can be started and nobody but the programs requests an abort.  A run is refused by both
or by none.  Where the loop comes, the pool comes to rest, and the loop has taken the tasks that the
pool has taken.  When both have ended, they have taken the same tasks in the same order, with the
same values, syncs and updates, and all that tells the cores after them apart is the engine: in the
options and in the report.  A run whose worker cannot be started takes no task, and ends with that
error. -/
theorem one_worker_sequential {core : Core F V E T} (hc : core.Reachable behaviour)
    (hs : core.syncs.Total) :
    (∀ e, core.onLoop.launch (O := O) = .error e ↔ core.onOneWorker.launch (O := O) = .error e) ∧
      ∀ m₀ n₀ : Machine F V E T O, core.onLoop.launch = .ok m₀ →
        core.onOneWorker.launch = .ok n₀ →
        (∀ m, m₀.WorksTo behaviour m → ∃ n, n₀.WorksTo behaviour n ∧
          n.board.plain = m.board.plain ∧ n.status = m.status) ∧
        (∀ n, n₀.WorksTo behaviour n → ∃ m, m₀.WorksTo behaviour m ∧
          m.board.tasks = n.board.tasks ∧
            (n.status ≠ .running → m.board.plain = n.board.plain ∧ m.status = n.status)) ∧
        (∀ m n c c' next next', m₀.WorksTo behaviour m → n₀.WorksTo behaviour n →
          core.onLoop.conclude? m = some (c, next) →
          core.onOneWorker.conclude? n = some (c', next') →
          n.board.tasks = m.board.tasks ∧ n.board.plain = m.board.plain ∧
            c' = c.onEngine .threaded ∧
            next' = { next with
              options := core.options.withWorkers 1
              metrics := { next.metrics with
                lastRun := next.metrics.lastRun.map fun report =>
                  { report with engine := .threaded } } }) ∧
        ∀ p reason n, n₀ = .threaded p →
          (Machine.threaded (p.spawnFailed 0 reason)).Reaches behaviour n →
          n.board.tasks = [] ∧ ∀ c next, core.onOneWorker.conclude? n = some (c, next) →
            c = .stopped (.workerSpawn reason) ∧ next.heldGraph? = core.heldGraph? ∧
              next.syncs = p.board.syncs ∧ next.lastUpdateCount = 0 := by
  refine ⟨fun e => ?_, fun m₀ n₀ hm₀ hn₀ => ?_⟩
  · cases hstage : core.stage with
    | destroyed => simp [Core.launch, Core.onLoop, Core.onOneWorker, hstage]
    | ready => simp [Core.launch, Core.onLoop, Core.onOneWorker, hstage]
    | bound g =>
      obtain ⟨b, -, -, hlaunch⟩ := Core.launch_of_total (O := O) hstage hs
      have hloop : core.onLoop.launch (O := O) = _ := hlaunch _
      have hpool : core.onOneWorker.launch (O := O) = _ := hlaunch _
      rw [hloop, hpool]
      constructor
      · intro h
        cases h
      · intro h
        cases h
  · obtain ⟨p₀, r₀, rfl, rfl, hmirrors, ⟨hrunning, hblameless⟩, pending, hmo⟩ :=
      Core.mirrors_of_launch hc.sound hs hm₀ hn₀
    have hfollow : ∀ n, (Machine.threaded p₀).WorksTo behaviour n →
        ∃ m, (Machine.sequential r₀.1 r₀.2).WorksTo behaviour m ∧ m.board.tasks = n.board.tasks ∧
          (n.status ≠ .running → m.board.plain = n.board.plain ∧ m.status = n.status) := by
      intro n hn
      obtain ⟨p, r, rfl, h, hloop⟩ := hmirrors.follow hn
      exact ⟨_, hloop, h.tasks_eq, h.of_ended⟩
    refine ⟨fun m hm => ?_, hfollow, ?_, ?_⟩
    · obtain ⟨p, r, rfl, -, hworks, hplain, hstatus, -⟩ := hmirrors.lead hm
      exact ⟨_, hworks, hplain, hstatus⟩
    · intro m n c c' next next' hm hn hconclude hconclude'
      have hended : m.status ≠ .running := (Core.concludes_of_eq_some hconclude).not_running
      have hended' : n.status ≠ .running := (Core.concludes_of_eq_some hconclude').not_running
      obtain ⟨m', hm', htasks, hsame⟩ := hfollow n hn
      obtain ⟨hplain, hstatus⟩ := hsame hended'
      obtain rfl := Machine.ended_unique hm' hm (hstatus ▸ hended') hended
      obtain ⟨p, r, rfl, h, -⟩ := hmirrors.follow hn
      obtain ⟨pending', hno⟩ := h.orderly
      have hno' : (Machine.threaded p).Orderly pending' := hno
      obtain ⟨pending'', -, hmo'⟩ := hm.reaches.moves hmo
      exact ⟨htasks.symm, hplain.symm,
        Core.conclude_onOneWorker hmo' hno' hplain hstatus hno.caught hconclude hconclude'⟩
    · rintro p reason n ⟨⟩ hn
      obtain ⟨_, htracks⟩ := hc.sound.tracks
      obtain ⟨g, hheld, -, -, hquiet, -⟩ :=
        Core.launch_eq_ok hn₀ ⟨hc.sound.tracks, hc.sound.closed, hc.sound.graph⟩ htracks
      have hheld : core.heldGraph? = some g := hheld
      have hgraph : p₀.board.graph = g := hquiet.graph
      obtain ⟨q, rfl, hunmanned⟩ :=
        (Threaded.Pool.unmanned_spawnFailed hrunning hblameless reason).reaches hn
      refine ⟨hunmanned.tasks.trans hquiet.tasks, fun c next hconclude => ?_⟩
      obtain ⟨hc, hgraph', hsyncs, hupdates⟩ := Core.conclude_of_unmanned hunmanned hconclude
      exact ⟨hc, by rw [hgraph', hheld, hgraph], hsyncs, hupdates.trans hquiet.updates⟩

theorem Machine.worksTo_advance (behaviour : Behaviour F V E T O) (m : Machine F V E T O) :
    m.WorksTo behaviour (m.advance behaviour) := by
  cases m with
  | sequential b status =>
    cases status with
    | running => exact .single (.turn b)
    | ended _ => exact .refl
    | crashed => exact .refl
  | threaded p =>
    simp only [advance, Threaded.Pool.advance]
    cases h : p.actors.findSome? (p.step behaviour) with
    | none => exact .refl
    | some p' =>
      obtain ⟨a, -, ha⟩ := List.exists_of_findSome?_eq_some h
      exact .single (.actor ha)

/-- A machine that is advanced on its own is not disturbed. -/
theorem Machine.worksTo_advanceBy (behaviour : Behaviour F V E T O) (steps : Nat)
    (m : Machine F V E T O) : m.WorksTo behaviour (m.advanceBy behaviour steps) := by
  induction steps generalizing m with
  | zero => exact .refl
  | succ steps ih =>
    rw [advanceBy]
    split
    · exact (worksTo_advance behaviour m).trans (ih _)
    · exact .refl

/-- One worker, too, executes the task that is pending and the one that it asks for. -/
theorem one_worker_sequential_oneTask : ∃ n₀ n : Machine Bool Nat Unit Nat Empty,
    oneTask.onOneWorker.launch = .ok n₀ ∧ n₀.WorksTo askOnce n ∧
      n.status = .ended (.ok ()) ∧ n.board.updates = 2 := by
  let m₀ : Machine Bool Nat Unit Nat Empty :=
    .start .plain (oneTask.boardOn ((Graph.Operation.addVertex 0).edit.run {}).2)
  let m := ((m₀.advance askOnce).advance askOnce).advance askOnce
  have hworks : m₀.WorksTo askOnce m :=
    ((Machine.worksTo_advance askOnce m₀).trans (Machine.worksTo_advance ..)).trans
      (Machine.worksTo_advance ..)
  have hloop : oneTask.onLoop.launch = .ok m₀ := rfl
  have hpool : oneTask.onOneWorker.launch (O := Empty) = .ok _ := rfl
  obtain ⟨-, hruns⟩ := one_worker_sequential reachable_oneTask (nofun : oneTask.syncs.Total)
  obtain ⟨hlead, -, -⟩ := hruns m₀ _ hloop hpool
  obtain ⟨n, hn, hplain, hstatus⟩ := hlead m hworks
  have hupdates : n.board.plain.updates = m.board.plain.updates := by rw [hplain]
  exact ⟨_, n, hpool, hn, hstatus, hupdates⟩

/-! ### Where they part -/

/-- The sum of all values after every update, which may be anything but one. -/
def notOne : SyncSpec Nat Nat where
  zero := 0
  fold total _ x := some (total + x)
  finish total := if total = 1 then none else some total
  interval := 1

/-- Adds one to the value of the vertex. -/
def countUp : Behaviour Bool Nat Unit Nat Empty := fun _ _ v => do
  let x ← Program.read v
  Program.write (x + 1)

/-- The core with a task, and with a sync that cannot bear what comes of it. -/
def spoiled : Core Bool Nat Unit Nat :=
  { oneTask with syncs := { syncs := [⟨0, notOne, 0⟩] } }

theorem reachable_spoiled : spoiled.Reachable countUp :=
  .operation (.operation (.operation (.new (rfl : Core.withOptions .plain = .ok _))
    (.setGraph _ (.operation .empty (.addVertex 0)))) (.schedule 0 true 1)) (.setSync 0 notOne)

/-- If the only worker cannot be started, then the pool ends with that error where the loop ends
well; and the options of the core tell which engine it was in any case.  If a sync panics when it is
applied to the total, then the panic leaves the loop, and the pool ends with an error. -/
theorem one_worker_parts :
    (oneTask.Reachable askOnce ∧
      ∃ (m₀ m n : Machine Bool Nat Unit Nat Empty) (p₀ : Threaded.Pool Bool Nat Unit Nat Empty)
        (report : RunReport) (next next' : Core Bool Nat Unit Nat),
        oneTask.onLoop.launch = .ok m₀ ∧ m₀.WorksTo askOnce m ∧
          oneTask.onLoop.conclude? m = some (.converged report, next) ∧ report.updates = 2 ∧
          next.options.engine = .sequential ∧
          oneTask.onOneWorker.launch = .ok (.threaded p₀) ∧
          (Machine.threaded p₀).Reaches askOnce n ∧
          oneTask.onOneWorker.conclude? n = some (.stopped (.workerSpawn "no"), next') ∧
          next'.options.engine = .threaded) ∧
      spoiled.Reachable countUp ∧ (∀ total v x, (notOne.fold total v x).isSome = true) ∧
        ∃ (m₀ m n₀ n : Machine Bool Nat Unit Nat Empty) (next next' : Core Bool Nat Unit Nat),
          spoiled.onLoop.launch = .ok m₀ ∧ m₀.WorksTo countUp m ∧
            spoiled.onLoop.conclude? m = some (.crashed, next) ∧
            spoiled.onOneWorker.launch = .ok n₀ ∧ n₀.WorksTo countUp n ∧
            spoiled.onOneWorker.conclude? n = some (.stopped .workerPanicked, next') := by
  constructor
  · let b : Board Bool Nat Unit Nat Empty :=
      oneTask.boardOn ((Graph.Operation.addVertex 0).edit.run {}).2
    let p₀ := Threaded.Pool.start (b.note (.loopStarted .threaded)) 1
    have hspawn : (Machine.threaded p₀).Step askOnce (.threaded (p₀.spawnFailed 0 "no")) :=
      .spawnFailed "no" rfl rfl (by decide) fun w hw => List.eq_of_mem_replicate hw
    exact ⟨reachable_oneTask, _, _, _, p₀, _, _, _, rfl, Machine.worksTo_advanceBy askOnce 3 _, rfl,
      rfl, rfl, rfl, .head hspawn (Machine.reaches_interleave askOnce _ [.worker 0, .pool, .pool]),
      rfl, rfl⟩
  · exact ⟨reachable_spoiled, fun _ _ _ => rfl, _, _, _, _, _, _, rfl,
      Machine.worksTo_advanceBy countUp 1 _, rfl, rfl, Machine.worksTo_advanceBy countUp 20 _, rfl⟩

end VertexEngine
