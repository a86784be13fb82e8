import VertexEngine.Application
import VertexEngine.Proofs.Graph.Reading
import VertexEngine.Proofs.ShortestPath.Undisturbed

/-!
# The answer of the program

What the program prints, from the command line to its last line.  The engine, the number of workers,
the order of the queue and the treatment of repeated tasks make no difference to it, wherever they
are chosen.

* `Yields` says what a part of the program returns and prints, with one rule for each way to build a
  part.
* `Asks` is a command line together with what it asks for, once the files that it names are read.
* `Completes` is a way in which the whole program may end, when nobody disturbs its run.
* `answer_independent` is the result.
-/

namespace VertexEngine

namespace Application

open ShortestPath

/-! ## Parts of the program -/

/-- Whatever was said before, the part of the program ends with this result and prints these
lines. -/
def Yields {α : Type} (act : Act α) (result : Except Failure α) (lines : List String) : Prop :=
  ∀ t : Transcript, ∃ logged, act.run.run t = (result, ⟨t.printed ++ lines, logged⟩)

namespace Yields

variable {α β : Type} {act : Act α} {f : α → Act β} {a : α} {failure : Failure}
  {result : Except Failure β} {lines lines' : List String}

protected theorem pure (a : α) : Yields (pure a) (.ok a) [] :=
  fun t => ⟨t.logged, by rw [List.append_nil]; rfl⟩

protected theorem throw (failure : Failure) : Yields (throw failure : Act α) (.error failure) [] :=
  fun t => ⟨t.logged, by rw [List.append_nil]; rfl⟩

protected theorem bind (h : Yields act (.ok a) lines) (hf : Yields (f a) result lines') :
    Yields (act >>= f) result (lines ++ lines') := by
  intro t
  obtain ⟨logged, hrun⟩ := h t
  obtain ⟨logged', hrun'⟩ := hf ⟨t.printed ++ lines, logged⟩
  refine ⟨logged', ?_⟩
  show (ExceptT.bindCont f (act.run.run t).1).run (act.run.run t).2 = _
  rw [hrun, ← List.append_assoc]
  exact hrun'

/-- Nothing comes after a failure. -/
theorem stop (h : Yields act (.error failure) lines) (f : α → Act β) :
    Yields (act >>= f) (.error failure) lines := by
  intro t
  obtain ⟨logged, hrun⟩ := h t
  refine ⟨logged, ?_⟩
  show (ExceptT.bindCont f (act.run.run t).1).run (act.run.run t).2 = _
  rw [hrun]
  rfl

/-- A part that prints nothing, and then another one. -/
theorem andThen (h : Yields act (.ok a) []) (hf : Yields (f a) result lines) :
    Yields (act >>= f) result lines :=
  h.bind hf

theorem print (line : String) : Yields (Application.print line) (.ok ()) [line] :=
  fun t => ⟨t.logged, rfl⟩

theorem log (lines : List Log.Line) : Yields (Application.log lines) (.ok ()) [] :=
  fun t => ⟨t.logged ++ lines, by rw [List.append_nil]; rfl⟩

theorem attempt (context : Option String) (a : α) :
    Yields (Application.attempt context (.ok a)) (.ok a) [] :=
  .pure a

theorem call {core core' : PathCore} {c : Core.Call Unit Float Float Empty α}
    (h : c.run core = (.ok a, core')) : Yields (Application.call core c) (.ok core') [] := by
  unfold Application.call
  rw [h]
  exact .pure core'

/-- What is printed is told by the transcript. -/
theorem eq {result : Except Failure α} (h : Yields act result lines) {r : Except Failure α}
    {t : Transcript} (hr : act.run.run {} = (r, t)) : r = result ∧ t.printed = lines := by
  obtain ⟨logged, hrun⟩ := h {}
  obtain ⟨rfl, rfl⟩ := Prod.mk.inj (hr.symm.trans hrun)
  exact ⟨rfl, rfl⟩

end Yields

/-! ## Before the run -/

/-- The settings of a command line. -/
def settingsOf (c : CommandLine) (s : Surroundings) : Except EngineError Settings :=
  c.config.elim (.ok {}) fun path => s.bytesOf path >>= Settings.load

/-- The options of a run: each one is the flag of the command line, if it is given, or else what the
settings say, and without settings the default. -/
def chosen (c : CommandLine) (settings : Settings) (hardwareThreads : Nat) : EngineOptions where
  engine := c.engine.getD settings.engine
  ncpus := (c.ncpus <|> settings.ncpus).getD hardwareThreads
  scheduler := c.scheduler.getD settings.scheduler
  policy := c.policy.getD settings.policy

theorem yields_resolveOptions {c : CommandLine} {s : Surroundings} {settings : Settings}
    (h : settingsOf c s = .ok settings) :
    Yields (resolveOptions c s) (.ok (chosen c settings s.hardwareThreads)) [] := by
  have hncpus : (c.ncpus <|> settings.ncpus).getD s.hardwareThreads =
      c.ncpus.getD (settings.options s.hardwareThreads).ncpus := by
    cases c.ncpus <;> rfl
  rw [chosen, hncpus]
  unfold resolveOptions
  unfold settingsOf at h
  cases hc : c.config with
  | none =>
    rw [hc] at h
    obtain rfl := Except.ok.inj h
    exact .andThen (.pure _) (.andThen (.log _) (.pure _))
  | some path =>
    rw [hc] at h
    have h : (s.bytesOf path >>= Settings.load) = .ok settings := h
    have hload : Yields (loadSettings s path) (.ok settings) [] := by
      unfold loadSettings
      rw [h]
      exact .andThen (.attempt _ _) (.andThen (.log _) (.pure _))
    exact .andThen hload (.andThen (.log _) (.pure _))

theorem yields_loadGraph {s : Surroundings} {path : String} {text : List UInt8}
    {g : Graph Float Float} (hs : s.bytesOf path = .ok text)
    (hg : EdgeList.read Distance.infinity EdgeList.defaultLimit text = .ok g) :
    Yields (loadGraph s path) (.ok g) [] := by
  have h : (s.bytesOf path >>= EdgeList.read Distance.infinity EdgeList.defaultLimit) = .ok g := by
    rw [hs]
    exact hg
  unfold loadGraph
  rw [h]
  exact .andThen (.attempt _ _) (.andThen (.log _) (.pure _))

/-- The graph with the first distances. -/
def firstDistances (root : VertexId) (g : Graph Float Float) : Graph Float Float :=
  ((initDistances root).run g).2

/-- A call of such a core. -/
abbrev PathCall (α : Type) := Core.Call Unit Float Float Empty α

/-- The core that has got its graph. -/
def boundCore (root : VertexId) (o : EngineOptions) (g : Graph Float Float) : PathCore where
  options := o
  stage := .bound (firstDistances root g)
  scheduler := (Scheduler.empty o.scheduler o.policy).reset

/-- The core that is run: a relaxation of the root is scheduled. -/
def pathCore (root : VertexId) (o : EngineOptions) (g : Graph Float Float) : PathCore :=
  { boundCore root o g with
    scheduler := ((boundCore root o g).scheduler.schedule root () Priority.default).1 }

section

variable {root : VertexId} {o : EngineOptions} {g : Graph Float Float}

theorem run_initDistances_ok (hroot : g.contains root = true) :
    (initDistances root).run g = (.ok (), firstDistances root g) := by
  rw [firstDistances, run_initDistances, if_pos hroot]

theorem contains_firstDistances (hroot : g.contains root = true) :
    (firstDistances root g).contains root = true := by
  obtain ⟨-, hsize, -⟩ := initDistances_ok (run_initDistances_ok hroot)
  rw [← hroot, Graph.contains_congr hsize]

theorem run_schedule (o : EngineOptions) (hroot : g.contains root = true) :
    (Core.schedule root () Priority.default : PathCall Unit).run (boundCore root o g) =
      (.ok (), pathCore root o g) := by
  have hcheck : (firstDistances root g).check root = .ok () :=
    if_pos (contains_firstDistances hroot)
  show ((do
    (firstDistances root g).check root
    Priority.check Priority.default
    Core.enqueue root () Priority.default) : PathCall Unit).run _ = _
  rw [hcheck]
  rfl

theorem withOptions_eq_ok (ho : 1 ≤ o.ncpus) :
    (Core.withOptions o : Except EngineError PathCore) =
      .ok { options := o, scheduler := .empty o.scheduler o.policy } := by
  rw [Core.withOptions, Core.checkOptions, if_neg (by omega)]
  rfl

theorem yields_launch (hroot : g.contains root = true) (ho : 1 ≤ o.ncpus) :
    ∃ first : PathMachine, (pathCore root o g).launch = .ok first ∧
      Yields (launch root o g) (.ok ⟨pathCore root o g, first⟩) [] := by
  have hlaunch : ∃ first : PathMachine, (pathCore root o g).launch = .ok first := ⟨_, rfl⟩
  obtain ⟨first, hfirst⟩ := hlaunch
  refine ⟨first, hfirst, ?_⟩
  unfold launch
  rw [run_initDistances_ok hroot, withOptions_eq_ok ho]
  refine .andThen (.attempt _ _) (.andThen (.attempt _ _) (.andThen (.log _) ?_))
  refine .andThen (.call rfl) (.andThen (.log _) (.andThen (.call (run_schedule o hroot)) ?_))
  refine .andThen (.log _) (.andThen (.log _) ?_)
  rw [hfirst]
  exact .andThen (.attempt _ _) (.pure _)

/-- A root that is no vertex is found before anything else. -/
theorem yields_launch_notFound (o : EngineOptions) (hroot : g.contains root = false) :
    Yields (launch root o g) (.error { error := .notFound root }) [] := by
  unfold launch
  rw [run_initDistances, if_neg (by rw [hroot]; exact Bool.false_ne_true)]
  exact .stop (.throw _) _

end

/-! ## The run -/

section

variable {root : VertexId} {o : EngineOptions} {g : Graph Float Float}

theorem reachable_pathCore (hg : g.Built) (hroot : g.contains root = true) (ho : 1 ≤ o.ncpus) :
    (pathCore root o g).Reachable behaviour := by
  have hfirst : (firstDistances root g).Built :=
    .operation (.operation hg (.fill Distance.infinity)) (.setValue root Distance.zero)
  have hnew : Core.Reachable behaviour _ := .new (withOptions_eq_ok ho)
  have hbound := hnew.operation (.setGraph (firstDistances root g) hfirst)
  have hcore : ((Core.schedule root () Priority.default : PathCall Unit).run
      (boundCore root o g)).2 = pathCore root o g :=
    congrArg Prod.snd (run_schedule o hroot)
  exact hcore ▸ hbound.operation (.schedule root () Priority.default)

/-- The root is pending. -/
theorem rooted_pathCore (root : VertexId) (o : EngineOptions) (g : Graph Float Float) :
    ∃ t ∈ (pathCore root o g).scheduler.queue.toList, t.vertex = root := by
  have htracks : (boundCore root o g).scheduler.Tracks ⟨o.scheduler, o.policy, []⟩ [] :=
    (Scheduler.Tracks.empty o.scheduler o.policy).reset
  have hlist := (htracks.schedule root () Priority.default).queue.toList_eq
  rw [pathCore, hlist]
  exact PendingList.contains_iff.mp (PendingList.contains_push.mpr (.inl rfl))

/-- A run that nobody disturbs converges, if it comes to its end, and leaves the shortest
distances. -/
theorem converges (hg : g.Built) (hw : Weighted g.toTopology) (hroot : g.contains root = true)
    (ho : 1 ≤ o.ncpus) {first m : PathMachine} (hl : (pathCore root o g).launch = .ok first)
    (hm : first.WorksTo behaviour m) {conclusion : Conclusion} {next : PathCore}
    (hc : (pathCore root o g).conclude? m = some (conclusion, next)) :
    (∃ report, conclusion = .converged report) ∧
      ∃ g', next.heldGraph? = some g' ∧ g'.contains = g.contains ∧
        ∀ v, IsShortest g.toTopology root v (distanceAt g' v) := by
  have hreachable : (pathCore root o g).Reachable behaviour := reachable_pathCore hg hroot ho
  have hinit := run_initDistances_ok hroot
  obtain ⟨htopology, hsize, -⟩ := initDistances_ok hinit
  have hheld : (pathCore root o g).heldGraph? = some (firstDistances root g) := rfl
  have hsound : ∀ p : PendingList Unit, (pathCore root o g).scheduler.queue.toList = p.tasks →
      Relaxation.Sound root ⟨firstDistances root g, p, []⟩ := by
    intro p hp
    refine sound_of_initDistances hinit (hreachable.sound.graph _ hheld) hw ?_
    exact PendingList.contains_iff.mpr (hp ▸ rooted_pathCore root o g)
  obtain ⟨hconverged, g', hg', -, hsize', hshortest⟩ :=
    Core.relaxes_undisturbed hreachable.consistent nofun rfl hheld hsound hl hm hc
  refine ⟨⟨_, hconverged⟩, g', hg', funext fun v => ?_, htopology ▸ hshortest⟩
  rw [Graph.contains, Graph.contains, hsize', hsize]

end

/-! ## After the run -/

/-- The line for a vertex at a distance from the root. -/
def answerLine (root v : VertexId) (distance : Float) : String :=
  s!"Shortest path from {root.toNat} to {v.toNat} was: " ++ Decimal.plain.text distance

/-- The lines for the targets that are vertices, in their order. -/
def answerLines (root : VertexId) (g : Graph Float Float) (targets : List VertexId)
    (distance : VertexId → Float) : List String :=
  (targets.filter g.contains).map fun v => answerLine root v (distance v)

theorem yields_reportTarget (root : VertexId) (g : Graph Float Float) (v : VertexId) :
    Yields (reportTarget root g v) (.ok ()) (answerLines root g [v] (distanceAt g)) := by
  unfold reportTarget answerLines
  cases hv : g.contains v with
  | true =>
    rw [value_eq_ok hv, List.filter_cons_of_pos hv]
    exact .print _
  | false =>
    have hnone : g.value v = .error (.notFound v) := by
      have hsize : g.values.size ≤ v.toNat := by simpa [Graph.contains] using hv
      rw [Graph.value, Array.getElem?_eq_none hsize]
    rw [hnone, List.filter_cons_of_neg (by simp [hv])]
    exact .log _

theorem yields_report (root : VertexId) (g : Graph Float Float) (targets : List VertexId) :
    Yields (targets.forM (reportTarget root g)) (.ok ())
      (answerLines root g targets (distanceAt g)) := by
  induction targets with
  | nil => exact .pure ()
  | cons v rest ih =>
    have hlines : answerLines root g (v :: rest) (distanceAt g) =
        answerLines root g [v] (distanceAt g) ++ answerLines root g rest (distanceAt g) := by
      rw [answerLines, ← List.singleton_append, List.filter_append, List.map_append]
      rfl
    rw [hlines]
    exact .bind (yields_reportTarget root g v) ih

theorem yields_finish {c : CommandLine} {core : PathCore} {g : Graph Float Float}
    (hg : core.heldGraph? = some g) :
    Yields (finish c core) (.ok ()) (answerLines c.root g c.targets (distanceAt g)) := by
  have hstage := Core.stage_of_heldGraph hg
  have hdestroy : ∃ core', (Core.destroy : PathCall _).run core =
      (.ok (some g), core') := by
    obtain ⟨options, stage, scheduler⟩ := core
    obtain rfl : stage = .bound g := hstage
    exact ⟨_, rfl⟩
  obtain ⟨core', hdestroy⟩ := hdestroy
  unfold finish
  rw [hg]
  exact .andThen (.log _) (.andThen (.attempt _ _) (.andThen (.call hdestroy) (.andThen (.log _)
    (yields_report c.root g c.targets))))

/-! ## The whole program -/

/-- How the program ends for a command line, and what it prints, when nobody disturbs the run: no
abort is requested from outside, and all workers can be started. -/
inductive Completes (c : CommandLine) (s : Surroundings) :
    Except Failure Unit → List String → Prop
  /-- It stops before the run. -/
  | failed {failure : Failure} {t : Transcript}
    (h : (prepare c s).run.run {} = (.error failure, t)) : Completes c s (.error failure) t.printed
  /-- There is nothing to be run. -/
  | dry {t : Transcript} (h : (prepare c s).run.run {} = (.ok none, t)) :
    Completes c s (.ok ()) t.printed
  /-- It has prepared a run, has carried it out, and has done what comes after it. -/
  | ran {p : Prepared} {t t' : Transcript} {m : PathMachine} {act : Act Unit}
    {result : Except Failure Unit} (hp : (prepare c s).run.run {} = (.ok (some p), t))
    (hm : p.machine.WorksTo behaviour m) (hf : finish? c p.core m = some act)
    (ha : act.run.run {} = (result, t')) : Completes c s result (t.printed ++ t'.printed)

/-- The command line asks for the distances of the targets from the root in the graph with this
text, by a run with these options. -/
structure Asks (text : List UInt8) (root : VertexId) (targets : List VertexId) (c : CommandLine)
    (s : Surroundings) (o : EngineOptions) : Prop where
  graph : s.bytesOf c.graph = .ok text
  root : c.root = root
  targets : c.targets = targets
  runs : c.dryRun = false
  /-- The options are resolved field by field. -/
  options : ∃ settings, settingsOf c s = .ok settings ∧ o = chosen c settings s.hardwareThreads
  ncpus : 1 ≤ o.ncpus

section

variable {text : List UInt8} {root : VertexId} {targets : List VertexId} {c : CommandLine}
  {s : Surroundings} {o : EngineOptions} {g : Graph Float Float}

theorem Asks.prepare (h : Asks text root targets c s o)
    (hg : EdgeList.read Distance.infinity EdgeList.defaultLimit text = .ok g)
    {result : Except Failure Prepared} (hl : Yields (launch root o g) result []) :
    Yields (prepare c s) (some <$> result) [] := by
  obtain ⟨settings, hsettings, rfl⟩ := h.options
  have hroot := h.root
  subst hroot
  unfold Application.prepare
  refine .andThen (yields_resolveOptions hsettings) (.andThen (yields_loadGraph h.graph hg) ?_)
  rw [h.runs]
  cases result with
  | ok p => exact .andThen hl (.pure _)
  | error failure => exact hl.stop _

/-- With a root that is a vertex, the run is prepared, with the options that were asked for. -/
theorem Asks.ready (h : Asks text root targets c s o)
    (hg : EdgeList.read Distance.infinity EdgeList.defaultLimit text = .ok g)
    (hroot : g.contains root = true) :
    ∃ first, (pathCore root o g).launch = .ok first ∧
      Yields (Application.prepare c s) (.ok (some ⟨pathCore root o g, first⟩)) [] := by
  obtain ⟨first, hfirst, hlaunch⟩ := yields_launch (o := o) hroot h.ncpus
  exact ⟨first, hfirst, h.prepare hg hlaunch⟩

/-- However the program comes to its end, it prints the shortest distances. -/
theorem Asks.completes (h : Asks text root targets c s o)
    (hg : EdgeList.read Distance.infinity EdgeList.defaultLimit text = .ok g)
    (hroot : g.contains root = true) {distance : VertexId → Float}
    (hd : ∀ v, IsShortest g.toTopology root v (distance v))
    {result : Except Failure Unit} {printed : List String} (hc : Completes c s result printed) :
    result = .ok () ∧ printed = answerLines root g targets distance := by
  have hw : Weighted g.toTopology := EdgeList.finite_of_read hg
  obtain ⟨first, hfirst, hprepare⟩ := h.ready hg hroot
  cases hc with
  | failed hfailed => cases (hprepare.eq hfailed).1
  | dry hdry => cases (hprepare.eq hdry).1
  | @ran p t t' m act _ hp hm hf ha =>
    obtain ⟨heq, hprinted⟩ := hprepare.eq hp
    obtain rfl := Option.some.inj (Except.ok.inj heq)
    obtain ⟨⟨conclusion, next⟩, hconclude, rfl⟩ := Option.map_eq_some_iff.mp hf
    obtain ⟨⟨report, rfl⟩, g', hheld, hcontains, hshortest⟩ :=
      converges (EdgeList.built_of_read hg) hw hroot h.ncpus hfirst hm hconclude
    obtain ⟨rfl, hlines⟩ := (yields_finish (c := c) hheld).eq ha
    have hsame : distanceAt g' = distance := funext fun v => (hshortest v).unique (hd v) hw
    rw [hprinted, hlines, h.root, h.targets, hsame, answerLines, answerLines, hcontains]
    exact ⟨rfl, rfl⟩

/-- A run that comes to its end when it is advanced step by step is one way to complete. -/
theorem Asks.exists_completes (h : Asks text root targets c s o)
    (hg : EdgeList.read Distance.infinity EdgeList.defaultLimit text = .ok g)
    (hroot : g.contains root = true) (steps : Nat)
    (hs : ((pathCore root o g).launch.toOption.bind fun first : PathMachine =>
      (pathCore root o g).conclude? (first.advanceBy behaviour steps)).isSome = true) :
    ∃ result printed, Completes c s result printed := by
  obtain ⟨first, hfirst, hprepare⟩ := h.ready hg hroot
  obtain ⟨logged, hrun⟩ := hprepare {}
  rw [hfirst] at hs
  obtain ⟨ending, hending⟩ := Option.isSome_iff_exists.mp hs
  have hf : finish? c (pathCore root o g) (first.advanceBy behaviour steps) = some _ :=
    Option.map_eq_some_iff.mpr ⟨ending, hending, rfl⟩
  exact ⟨_, _, .ran hrun (Machine.worksTo_advanceBy behaviour steps first) hf rfl⟩

/-- What the program prints depends on the graph, the root and the targets alone.  Whatever the
options, when it comes to its end it has ended well, and has printed a line for each target that is
a vertex, in their order, with the least sum of weights over the walks from the root, and nothing
else.  A root that is no vertex is an error, and nothing is printed then. -/
theorem answer_independent (text : List UInt8) {g : Graph Float Float}
    (hg : EdgeList.read Distance.infinity EdgeList.defaultLimit text = .ok g)
    (hweights : ∀ e ∈ g.edges, 0.0 ≤ e.data) (root : VertexId) (targets : List VertexId) :
    (g.contains root = true →
      let distance := bellmanFord g.toTopology root g.vertexCount
      (∀ v, IsShortest g.toTopology root v (distance v) ∧
        ((∀ es, ¬g.Walk root v es) → Decimal.plain.text (distance v) = "inf")) ∧
        ∀ c s o, Asks text root targets c s o →
          (∃ p t, (prepare c s).run.run {} = (.ok (some p), t) ∧ p.core.options = o ∧
            p.core.launch = .ok p.machine) ∧
          ∀ result printed, Completes c s result printed →
            result = .ok () ∧ printed = answerLines root g targets distance) ∧
      (g.contains root = false → ∀ c s o, Asks text root targets c s o →
        ∀ result printed, Completes c s result printed ↔
          result = .error { error := .notFound root } ∧ printed = []) := by
  have hw : Weighted g.toTopology := EdgeList.finite_of_read hg
  have hgraph := (EdgeList.built_of_read hg).wellFormed
  constructor
  · intro hroot distance
    have hlt : root.toNat < g.vertexCount := of_decide_eq_true hroot
    have hd : ∀ v, IsShortest g.toTopology root v (distance v) :=
      isShortest_bellmanFord hw (nonNegative_of_weights hw hweights) hlt hgraph.target_lt
    refine ⟨fun v => ⟨hd v, fun hnone => ?_⟩, fun c s o h => ⟨?_, fun _ _ hc => ?_⟩⟩
    · rcases (hd v).bound with hinfinity | ⟨es, hwalk, -⟩
      · rw [hinfinity]
        rfl
      · exact absurd hwalk (hnone es)
    · obtain ⟨first, hfirst, hprepare⟩ := h.ready hg hroot
      obtain ⟨logged, hrun⟩ := hprepare {}
      exact ⟨_, _, hrun, rfl, hfirst⟩
    · exact h.completes hg hroot hd hc
  · intro hroot c s o h result printed
    have hprepare := h.prepare hg (yields_launch_notFound o hroot)
    constructor
    · intro hc
      cases hc with
      | failed hfailed =>
        obtain ⟨heq, hprinted⟩ := hprepare.eq hfailed
        cases heq
        exact ⟨rfl, hprinted⟩
      | dry hdry => cases (hprepare.eq hdry).1
      | ran hp _ _ _ => cases (hprepare.eq hp).1
    · rintro ⟨rfl, rfl⟩
      obtain ⟨logged, hrun⟩ := hprepare {}
      exact .failed hrun

/-- Two edges that lead to vertex 1. -/
def forkText : List UInt8 :=
  "0 1 1.5\n2 1 1\n".toUTF8.toList

/-- Settings with two workers. -/
def pooledText : List UInt8 :=
  "[engine]\nkind = \"threaded\"\nncpus = 2\n\n[scheduler]\nkind = \"priority\"\n".toUTF8.toList

def files : Surroundings where
  bytesOf path := .ok (if path = "pooled" then pooledText else forkText)
  hardwareThreads := 1

def plainly : CommandLine := { graph := "fork", targets := [1, 2, 5] }

/-- The same with settings, of which the order of the queue is overridden. -/
def pooled : CommandLine :=
  { plainly with config := some "pooled", scheduler := some .fifo, policy := some .multiset }

theorem eq_ok_of_toOption {α ε : Type} {e : Except ε α} {a : α} (h : e.toOption = some a) :
    e = .ok a := by
  cases e with
  | ok b => exact congrArg Except.ok (Option.some.inj h)
  | error e => cases h

/-- The graph of the two edges. -/
def fork : Graph Float Float :=
  (EdgeList.read Distance.infinity EdgeList.defaultLimit forkText).toOption.get
    (by decide +kernel)

theorem read_fork : EdgeList.read Distance.infinity EdgeList.defaultLimit forkText = .ok fork :=
  eq_ok_of_toOption (Option.some_get _).symm

/-- With one worker or two, vertex 1 is 1.5 away and vertex 2 cannot be reached; vertex 5 does not
exist.  Nothing is printed if the root does not exist. -/
theorem answer_independent_fork : (∀ e ∈ fork.edges, 0.0 ≤ e.data) ∧
    (∀ c ∈ [plainly, pooled], (∃ result printed, Completes c files result printed) ∧
      ∀ result printed, Completes c files result printed → result = .ok () ∧
        printed = ["Shortest path from 0 to 1 was: 1.5", "Shortest path from 0 to 2 was: inf"]) ∧
    Completes { plainly with root := 7 } files (.error { error := .notFound 7 }) [] := by
  have hweights : ∀ e ∈ fork.edges, 0.0 ≤ e.data := by
    have hlist : ∀ e ∈ fork.edges.toList, 0.0 ≤ e.data := by decide +kernel
    exact fun e he => hlist e (Array.mem_toList_iff.mpr he)
  have hplainly : Asks forkText 0 [1, 2, 5] plainly files .plain :=
    ⟨rfl, rfl, rfl, rfl, ⟨{}, rfl, rfl⟩, Nat.le_refl 1⟩
  have hsettings : settingsOf pooled files = .ok ⟨.threaded, some 2, .priority, .coalesce⟩ :=
    eq_ok_of_toOption (by decide +kernel)
  have hpooled : Asks forkText 0 [1, 2, 5] pooled files ⟨.threaded, 2, .fifo, .multiset⟩ :=
    ⟨rfl, rfl, rfl, rfl, ⟨_, hsettings, rfl⟩, Nat.le_succ 1⟩
  have hroot : fork.contains 0 = true := by decide +kernel
  obtain ⟨hruns, -⟩ := answer_independent forkText read_fork hweights 0 [1, 2, 5]
  obtain ⟨-, hruns⟩ := hruns hroot
  have hlines : answerLines 0 fork [1, 2, 5] (bellmanFord fork.toTopology 0 fork.vertexCount) =
      ["Shortest path from 0 to 1 was: 1.5", "Shortest path from 0 to 2 was: inf"] := by
    decide +kernel
  rw [List.forall_mem_cons, List.forall_mem_singleton]
  refine ⟨hweights, ⟨⟨?_, ?_⟩, ?_, ?_⟩, ?_⟩
  · exact hplainly.exists_completes read_fork hroot 3 (by decide +kernel)
  · exact hlines ▸ (hruns _ _ _ hplainly).2
  · exact hpooled.exists_completes read_fork hroot 50 (by decide +kernel)
  · exact hlines ▸ (hruns _ _ _ hpooled).2
  · have habsent : Asks forkText 7 [1, 2, 5] { plainly with root := 7 } files .plain :=
      ⟨rfl, rfl, rfl, rfl, ⟨{}, rfl, rfl⟩, Nat.le_refl 1⟩
    obtain ⟨-, hnone⟩ := answer_independent forkText read_fork hweights 7 [1, 2, 5]
    exact (hnone (by decide +kernel) _ _ _ habsent _ _).mpr ⟨rfl, rfl⟩

end

end Application

end VertexEngine
