import VertexEngine.Proofs.Core.Numbering
import VertexEngine.Proofs.Graph.Adjacency
import VertexEngine.Proofs.Run.Prefix

/-!
# What an update sees of a sync

In a sequential run every update finds each sync as it was evaluated on the vertices that the last
due update had left: with an interval of `n`, the update after the first `k` sees the vertices as
they were after the first `n * (k / n)`.  An update that fails is not counted, and no sync is
evaluated after it.

* `SyncSpec.valueOn` is the value of a sync for a graph: its vertices folded from low to high, and
  the function of the user applied to the total.
* `Machine.Snapshots` is a run with the graphs on which its updates were counted.
* `SyncSpec.shown?` is the value that a sync is to show after so many updates, read off the graphs.
* `Sequential.Shows` is the invariant, `Turn.shows` its step and `Snapshots.shown` the run.
* `Sequential.Behind` is what a panic in an evaluation leaves.
* `Board.Asks` is a question of a running program with its answer.

An evaluation may panic, in the fold or in the function that is applied to the total.  The panic
leaves the run when the update is counted already, but that sync and those that were registered
later are not evaluated any more, so that they fall behind.
-/

namespace VertexEngine

variable {F V E T O : Type} {behaviour : Behaviour F V E T O}

/-! ## The value of a sync -/

namespace SyncSpec

variable (s : SyncSpec V T)

/-- The zero, with the values of those vertices folded into it one after the other that lie below
this number and in the range; `none` when a fold panics. -/
def totalBelow (g : Graph V E) : Nat → Option T
  | 0 => some s.zero
  | n + 1 => (totalBelow g n).bind fun total =>
    match g.values[n]? with
    | some x =>
      let v := UInt32.ofNat n
      if s.low ≤ v ∧ v ≤ s.high then s.fold total v x else some total
    | none => some total

/-- The value for the vertices of this graph; `none` when the evaluation panics. -/
def valueOn (g : Graph V E) : Option T :=
  (s.totalBelow g g.vertexCount).bind s.finish

/-- The first vertices of a graph, listed and folded as an evaluation does it. -/
theorem totalBelow_eq_foldlM (g : Graph V E) (n : Nat) :
    s.totalBelow g n =
      (((g.values.toList.take n).zipIdx.map fun x => (UInt32.ofNat x.2, x.1)).filter
        (s.covers ∘ Prod.fst)).foldlM (fun acc x => s.fold acc x.1 x.2) s.zero := by
  induction n with
  | zero => rfl
  | succ n ih =>
    rw [totalBelow, ih, List.take_add_one, List.zipIdx_append, List.map_append, List.filter_append,
      List.foldlM_append, Array.getElem?_toList]
    refine congrArg (Option.bind _) (funext fun total => ?_)
    cases hx : g.values[n]? with
    | none => rfl
    | some x =>
      have hlt : n < g.values.size := (Array.getElem?_eq_some_iff.mp hx).1
      have hlength : (g.values.toList.take n).length = n := by simp; omega
      by_cases hc : s.low ≤ UInt32.ofNat n ∧ UInt32.ofNat n ≤ s.high
      · have hcovers : s.covers (UInt32.ofNat n) = true := by simpa [covers] using hc
        simp [hlength, hc, hcovers]
      · have hcovers : s.covers (UInt32.ofNat n) = false := by simpa [covers] using hc
        simp [hlength, hc, hcovers]

/-- An evaluation folds the vertices of a graph from low to high. -/
theorem evaluate_vertices (g : Graph V E) : s.evaluate g.vertices = s.valueOn g := by
  have hall : g.values.toList.take g.vertexCount = g.values.toList :=
    List.take_of_length_le (by simp [Graph.vertexCount])
  rw [valueOn, totalBelow_eq_foldlM, hall]
  rfl

/-! ## When a sync was due -/

/-- The last of these updates after which the sync was due; zero for the start of the run. -/
def lastDue (updates : Nat) : Nat :=
  s.interval * (updates / s.interval)

theorem lastDue_le (updates : Nat) : s.lastDue updates ≤ updates :=
  Nat.mul_div_le updates s.interval

theorem lastDue_succ (updates : Nat) :
    s.lastDue (updates + 1) =
      if s.isDue (updates + 1) = true then updates + 1 else s.lastDue updates := by
  by_cases hdue : s.isDue (updates + 1) = true
  · rw [if_pos hdue]
    exact Nat.mul_div_cancel' ((s.isDue_iff _).mp hdue).2
  · rw [if_neg hdue, lastDue, div_succ, if_neg hdue]
    rfl

theorem isDue_lastDue {updates : Nat} (h : 0 < s.lastDue updates) :
    s.isDue (s.lastDue updates) = true :=
  (s.isDue_iff _).mpr ⟨Nat.pos_of_mul_pos_right h, Nat.dvd_mul_right _ _⟩

theorem le_lastDue {updates n : Nat} (hdue : s.isDue n = true) (hn : n ≤ updates) :
    n ≤ s.lastDue updates := by
  obtain ⟨hpos, k, rfl⟩ := (s.isDue_iff n).mp hdue
  have hk : k ≤ updates / s.interval := by
    rw [Nat.le_div_iff_mul_le hpos, Nat.mul_comm]
    exact hn
  exact Nat.mul_le_mul_left s.interval hk

/-- The value after these updates, given the graphs on which they were counted, the latest first and
that of the start last. -/
def shown? (graphs : List (Graph V E)) (updates : Nat) : Option T :=
  graphs.reverse[s.lastDue updates]?.bind s.valueOn

/-- Later updates do not change what was to be shown before. -/
theorem shown?_of_lt {graphs : List (Graph V E)} {updates : Nat} (h : updates < graphs.length)
    (g : Graph V E) : s.shown? (g :: graphs) updates = s.shown? graphs updates := by
  have hle := s.lastDue_le updates
  unfold shown?
  rw [List.reverse_cons, List.getElem?_append_left (by simp; omega)]

/-- One more update changes the value only if the sync is due after it. -/
theorem shown?_cons {graphs : List (Graph V E)} {updates : Nat}
    (hlength : graphs.length = updates + 1) (g : Graph V E) :
    s.shown? (g :: graphs) (updates + 1) =
      if s.isDue (updates + 1) = true then s.valueOn g
      else s.shown? graphs updates := by
  by_cases hdue : s.isDue (updates + 1) = true
  · rw [if_pos hdue, shown?, lastDue_succ, if_pos hdue, List.reverse_cons,
      List.getElem?_append_right (by simp [hlength])]
    simp [hlength]
  · have hlast : s.lastDue (updates + 1) = s.lastDue updates := by
      rw [lastDue_succ, if_neg hdue]
    have hlt : updates < graphs.length := by omega
    rw [if_neg hdue, ← s.shown?_of_lt hlt g, shown?, hlast, shown?]

end SyncSpec

namespace SyncSet

variable {s : SyncSet V T} {p : SyncSpec V T → Bool} {g : Graph V E}

/-- After the evaluation of some of the syncs, this one of the registered shows its value for the
graph if it is one of them, and what it showed before if it is not. -/
def Renewed (s : SyncSet V T) (p : SyncSpec V T → Bool) (g : Graph V E) (s' : SyncSet V T)
    (entry : SyncId × SyncSpec V T) : Prop :=
  if p entry.2 = true then
    ∃ value, entry.2.valueOn g = some value ∧ s'.value? entry.1 = some value
  else s'.value? entry.1 = s.value? entry.1

/-- An evaluation of these syncs, all from among the first of those that are registered. -/
theorem renewed_evaluate {before after : List (Sync V T)} (hs : s.syncs = before ++ after)
    (hn : (s.syncs.map (·.id)).Nodup)
    (hb : (s.evaluate g (before.filter (p ·.spec))).2.broken = false) :
    (∀ sync ∈ before,
        s.Renewed p g (s.evaluate g (before.filter (p ·.spec))).1 (sync.id, sync.spec)) ∧
      ∀ sync ∈ after, (s.evaluate g (before.filter (p ·.spec))).1.value? sync.id =
        s.value? sync.id := by
  have hmem : ∀ sync ∈ before, sync ∈ s.syncs := fun sync h => by simp [hs, h]
  have hids : ((before.filter (p ·.spec)).map (·.id)).Nodup := by
    rw [hs, List.map_append] at hn
    exact (List.nodup_append.mp hn).1.sublist (List.filter_sublist.map _)
  obtain ⟨hothers, hdue⟩ := value?_evaluate g hids s hb
  -- whoever is not among those that are evaluated shares its number with none of them
  have hkept : ∀ sync ∈ s.syncs, sync ∉ before.filter (p ·.spec) →
      (s.evaluate g (before.filter (p ·.spec))).1.value? sync.id = s.value? sync.id := by
    intro sync hsync hnot
    refine hothers sync.id fun hid => ?_
    obtain ⟨sync', hsync', hsame⟩ := List.mem_map.mp hid
    have heq : sync' = sync :=
      List.inj_on_of_nodup_map hn (hmem _ (List.mem_of_mem_filter hsync')) hsync hsame
    exact hnot (heq ▸ hsync')
  refine ⟨fun sync hsync => ?_, fun sync hsync => ?_⟩
  · unfold Renewed
    split
    · rename_i hp
      rw [← sync.spec.evaluate_vertices g]
      refine hdue sync (List.mem_filter.mpr ⟨hsync, hp⟩) ?_
      rw [map_fst_registered]
      exact List.mem_map_of_mem (hmem sync hsync)
    · rename_i hp
      exact hkept sync (hmem sync hsync) fun h => hp (List.mem_filter.mp h).2
  · refine hkept sync (by simp [hs, hsync]) fun h => ?_
    rw [hs, List.map_append] at hn
    exact (List.nodup_append.mp hn).2.2 _ (List.mem_map_of_mem (List.mem_of_mem_filter h)) _
      (List.mem_map_of_mem hsync) rfl

/-- An evaluation that breaks off is that of the syncs before the first that panics. -/
theorem evaluate_broken {due : List (Sync V T)} (hb : (s.evaluate g due).2.broken = true) :
    ∃ before sync after, due = before ++ sync :: after ∧ sync.spec.valueOn g = none ∧
      (s.evaluate g before).2.broken = false ∧ (s.evaluate g before).1 = (s.evaluate g due).1 := by
  induction due generalizing s with
  | nil => cases hb
  | cons sync rest ih =>
    cases hx : sync.spec.evaluate g.vertices with
    | none =>
      exact ⟨[], sync, rest, rfl, sync.spec.evaluate_vertices g ▸ hx, rfl,
        by simp only [evaluate, hx]⟩
    | some value =>
      simp only [evaluate, hx] at hb
      obtain ⟨before, sync', after, rfl, hpanic, hwhole, hsame⟩ := ih hb
      refine ⟨sync :: before, sync', after, rfl, hpanic, ?_, ?_⟩
      · simp only [evaluate, hx, hwhole]
      · simp only [evaluate, hx, hsame]

/-- The evaluation of some of the syncs, which does not break off. -/
theorem renewed_of_whole (hn : (s.registered.map Prod.fst).Nodup)
    (hb : (s.evaluate g (s.syncs.filter (p ·.spec))).2.broken = false) :
    ∀ entry ∈ s.registered,
      s.Renewed p g (s.evaluate g (s.syncs.filter (p ·.spec))).1 entry := by
  intro entry hentry
  obtain ⟨sync, hsync, rfl⟩ := List.mem_map.mp hentry
  rw [map_fst_registered] at hn
  exact (renewed_evaluate (List.append_nil _).symm hn hb).1 sync hsync

/-- The evaluation of some of the syncs, which breaks off: those that were registered before the one
that panics are renewed, and nothing else changes. -/
theorem renewed_of_broken (hn : (s.registered.map Prod.fst).Nodup)
    (hb : (s.evaluate g (s.syncs.filter (p ·.spec))).2.broken = true) :
    ∃ before broken after, s.registered = before ++ broken :: after ∧
      broken.2.valueOn g = none ∧
      (∀ entry ∈ before, s.Renewed p g (s.evaluate g (s.syncs.filter (p ·.spec))).1 entry) ∧
      ∀ entry ∈ broken :: after,
        (s.evaluate g (s.syncs.filter (p ·.spec))).1.value? entry.1 = s.value? entry.1 := by
  rw [map_fst_registered] at hn
  obtain ⟨evaluated, sync, left, hdue, hpanic, hwhole, hsame⟩ := evaluate_broken hb
  rw [← hsame]
  obtain ⟨front, back, hsplit, rfl, hback⟩ := List.filter_eq_append_iff.mp hdue
  obtain ⟨skipped, after, rfl, hskipped, -, -⟩ := List.filter_eq_cons_iff.mp hback
  have hfilter : front.filter (p ·.spec) = (front ++ skipped).filter (p ·.spec) := by
    rw [List.filter_append, List.filter_eq_nil_iff.mpr hskipped, List.append_nil]
  rw [hfilter] at hwhole ⊢
  have hsyncs : s.syncs = (front ++ skipped) ++ sync :: after := by
    rw [hsplit, List.append_assoc]
  obtain ⟨hbefore, hafter⟩ := renewed_evaluate hsyncs hn hwhole
  refine ⟨(front ++ skipped).map fun sync => (sync.id, sync.spec), (sync.id, sync.spec),
    after.map fun sync => (sync.id, sync.spec), ?_, hpanic, ?_, ?_⟩
  · rw [registered, hsyncs, List.map_append, List.map_cons]
  · exact List.forall_mem_map.mpr hbefore
  · rw [List.forall_mem_cons]
    exact ⟨hafter sync List.mem_cons_self, List.forall_mem_map.mpr fun sync' h =>
      hafter sync' (List.mem_cons_of_mem sync h)⟩

end SyncSet

/-! ## Questions of a program -/

/-- A program that is run as in `Completes` comes to ask this, and gets this answer. -/
inductive Board.Asks : Board F V E T O → Execution F → Program F V T O Unit →
    (action : Action F V O) → action.Answer T → Prop
  | abort {b : Board F V E T O} {x : Execution F} {p : Program F V T O Unit} {action : Action F V O}
    {answer : action.Answer T} (h : Asks { b with abort := true } x p action answer) :
    Asks b x p action answer
  | now (b : Board F V E T O) (x : Execution F) (action : Action F V O)
    (next : action.Answer T → Program F V T O Unit) :
    Asks b x (.ask action next) action (b.perform x action).1
  | later {b : Board F V E T O} {x : Execution F} {first : Action F V O}
    {next : first.Answer T → Program F V T O Unit} {action : Action F V O}
    {answer : action.Answer T}
    (h : Asks (b.perform x first).2.2 (b.perform x first).2.1 (next (b.perform x first).1) action
      answer) :
    Asks b x (.ask first next) action answer

/-- Whatever a program did before it asks, no sync was evaluated in between. -/
theorem Board.Asks.exists_perform {b : Board F V E T O} {x : Execution F}
    {p : Program F V T O Unit} {action : Action F V O} {answer : action.Answer T}
    (h : b.Asks x p action answer) :
    ∃ b' : Board F V E T O, ∃ x', b'.syncs = b.syncs ∧ answer = (b'.perform x' action).1 := by
  induction h with
  | abort _ ih => exact ih
  | now b x action next => exact ⟨b, x, rfl, rfl⟩
  | later _ ih =>
    obtain ⟨b', x', hsyncs, hanswer⟩ := ih
    exact ⟨b', x', hsyncs.trans (Board.perform_syncs ..), hanswer⟩

theorem Board.Asks.readShared {b : Board F V E T O} {x : Execution F} {p : Program F V T O Unit}
    {id : SyncId} {answer : Except EngineError T} (h : b.Asks x p (.readShared id) answer)
    {value : T} (hvalue : b.syncs.value? id = some value) : answer = .ok value := by
  obtain ⟨b', x', hsyncs, rfl⟩ := h.exists_perform
  rw [← hsyncs] at hvalue
  simp only [perform, hvalue]

/-! ## The loop -/

/-- A run of the sequential loop with the graphs on which its updates were counted, the latest first
and that of the start last. -/
inductive Machine.Snapshots (behaviour : Behaviour F V E T O) (first : Machine F V E T O) :
    List (Graph V E) → Machine F V E T O → Prop
  | start : Snapshots behaviour first [first.board.graph] first
  | turn {graphs : List (Graph V E)} {b : Board F V E T O} {r : Board F V E T O × RunStatus}
    (h : Snapshots behaviour first graphs (.sequential b .running))
    (ht : Sequential.Turn behaviour b r) :
    Snapshots behaviour first
      (if r.1.updates = b.updates then graphs else r.1.graph :: graphs) (.sequential r.1 r.2)
  | abort {graphs : List (Graph V E)} {m : Machine F V E T O}
    (h : Snapshots behaviour first graphs m) : Snapshots behaviour first graphs m.requestAbort

namespace Sequential

/-- Each of the registered syncs shows what it is to show after the updates so far. -/
structure Shows (s : SyncSet V T) (graphs : List (Graph V E)) (b : Board F V E T O) : Prop where
  registered : b.syncs.registered = s.registered
  length : graphs.length = b.updates + 1
  shown : ∀ entry ∈ s.registered, ∃ value, b.syncs.value? entry.1 = some value ∧
    entry.2.shown? graphs b.updates = some value

/-- An evaluation has panicked after the latest update.  The syncs that were registered before that
one show what they are to show; it and the later ones show what they did before the update, or
before the run if there was no update yet. -/
structure Behind (s : SyncSet V T) (graphs : List (Graph V E)) (b : Board F V E T O) : Prop where
  length : graphs.length = b.updates + 1
  split : ∃ before broken after, s.registered = before ++ broken :: after ∧
    broken.2.valueOn b.graph = none ∧
    (∀ entry ∈ before, ∃ value, b.syncs.value? entry.1 = some value ∧
      entry.2.shown? graphs b.updates = some value) ∧
    ∀ entry ∈ broken :: after, b.syncs.value? entry.1 =
      if b.updates = 0 then s.value? entry.1 else entry.2.shown? graphs (b.updates - 1)

variable {s : SyncSet V T} {graphs : List (Graph V E)} {b : Board F V E T O}

theorem Shows.congr (h : Shows s graphs b) {b' : Board F V E T O} (hs : b'.syncs = b.syncs)
    (hu : b'.updates = b.updates) : Shows s graphs b' := by
  refine ⟨?_, ?_, ?_⟩
  · rw [hs]
    exact h.registered
  · rw [hu]
    exact h.length
  · rw [hs, hu]
    exact h.shown

theorem Behind.congr (h : Behind s graphs b) {b' : Board F V E T O} (hg : b'.graph = b.graph)
    (hs : b'.syncs = b.syncs) (hu : b'.updates = b.updates) : Behind s graphs b' := by
  refine ⟨?_, ?_⟩
  · rw [hu]
    exact h.length
  · rw [hg, hs, hu]
    exact h.split

/-- A sync that was renewed shows what it is to show after one more update. -/
theorem Shows.renewed (h : Shows s graphs b) {syncs : SyncSet V T}
    {entry : SyncId × SyncSpec V T} (he : entry ∈ s.registered)
    (hr : b.syncs.Renewed (·.isDue (b.updates + 1)) b.graph syncs entry) :
    ∃ value, syncs.value? entry.1 = some value ∧
      entry.2.shown? (b.graph :: graphs) (b.updates + 1) = some value := by
  rw [entry.2.shown?_cons h.length]
  unfold SyncSet.Renewed at hr
  split at hr
  · rename_i hdue
    obtain ⟨value, hvalue, hshown⟩ := hr
    rw [if_pos hdue]
    exact ⟨value, hshown, hvalue⟩
  · rename_i hdue
    rw [if_neg hdue, hr]
    exact h.shown entry he

/-- The syncs that are due after an update are evaluated on the graph that it left. -/
theorem Shows.whole (h : Shows s graphs b) (hn : (s.registered.map Prod.fst).Nodup)
    {b' : Board F V E T O} (hu : b'.updates = b.updates + 1)
    (hs : b'.syncs = (b.syncs.evaluate b.graph (b.syncs.due (b.updates + 1))).1)
    (hw : (b.syncs.evaluate b.graph (b.syncs.due (b.updates + 1))).2.broken = false) :
    Shows s (b.graph :: graphs) b' := by
  refine ⟨?_, ?_, fun entry he => ?_⟩
  · rw [hs, SyncSet.registered_evaluate]
    exact h.registered
  · rw [hu, List.length_cons, h.length]
  · rw [hs, hu]
    exact h.renewed he
      (SyncSet.renewed_of_whole (h.registered.symm ▸ hn) hw entry (h.registered.symm ▸ he))

/-- One of the evaluations panics. -/
theorem Shows.broken (h : Shows s graphs b) (hn : (s.registered.map Prod.fst).Nodup)
    {b' : Board F V E T O} (hg : b'.graph = b.graph) (hu : b'.updates = b.updates + 1)
    (hs : b'.syncs = (b.syncs.evaluate b.graph (b.syncs.due (b.updates + 1))).1)
    (hb : (b.syncs.evaluate b.graph (b.syncs.due (b.updates + 1))).2.broken = true) :
    Behind s (b.graph :: graphs) b' := by
  obtain ⟨before, broken, after, hsplit, hpanic, hbefore, hafter⟩ :=
    SyncSet.renewed_of_broken (p := (·.isDue (b.updates + 1))) (h.registered.symm ▸ hn) hb
  rw [h.registered] at hsplit
  refine ⟨by rw [hu, List.length_cons, h.length], before, broken, after, hsplit, hg ▸ hpanic,
    fun entry he => ?_, fun entry he => ?_⟩
  · rw [hs, hu]
    exact h.renewed (by simp [hsplit, he]) (hbefore entry he)
  · have hmem : entry ∈ s.registered := hsplit ▸ List.mem_append_right before he
    obtain ⟨value, hvalue, hshown⟩ := h.shown entry hmem
    have hsame : b'.syncs.value? entry.1 = b.syncs.value? entry.1 := hs ▸ hafter entry he
    have hlt : b.updates < graphs.length := by rw [h.length]; omega
    rw [hsame, hu, if_neg (by omega), Nat.add_sub_cancel, entry.2.shown?_of_lt hlt, hvalue, hshown]

theorem Shows.evaluateDue (hn : (s.registered.map Prod.fst).Nodup) (h : Shows s graphs b)
    {r : Board F V E T O × RunStatus}
    (hr : r = b.increment.evaluateDue (b.syncs.due (b.updates + 1))) :
    r.1.graph = b.graph ∧ r.1.updates = b.updates + 1 ∧
      (r.2 ≠ .crashed → Shows s (b.graph :: graphs) r.1) ∧
      (r.2 = .crashed → Behind s (b.graph :: graphs) r.1) := by
  have hsyncs : r.1.syncs = (b.syncs.evaluate b.graph (b.syncs.due (b.updates + 1))).1 :=
    hr ▸ Board.noteRound_syncs _ _
  have hstatus : r.2 = if (b.syncs.evaluate b.graph (b.syncs.due (b.updates + 1))).2.broken = true
      then .crashed else .running := hr ▸ rfl
  have hgraph : r.1.graph = b.graph := hr ▸ (b.increment.quiet_evaluateDue _).1.graph
  have hupdates : r.1.updates = b.updates + 1 := hr ▸ (b.increment.quiet_evaluateDue _).1.updates
  cases hb : (b.syncs.evaluate b.graph (b.syncs.due (b.updates + 1))).2.broken with
  | false =>
    have hrunning : r.2 = .running := by rw [hstatus, hb]; rfl
    refine ⟨hgraph, hupdates, fun _ => h.whole hn hupdates hsyncs hb, fun hcrashed => ?_⟩
    cases hrunning.symm.trans hcrashed
  | true =>
    have hcrashed : r.2 = .crashed := by rw [hstatus, hb]; rfl
    exact ⟨hgraph, hupdates, fun hnot => absurd hcrashed hnot,
      fun _ => h.broken hn hgraph hupdates hsyncs hb⟩

/-- One turn. -/
theorem Turn.shows (hn : (s.registered.map Prod.fst).Nodup) (h : Shows s graphs b)
    {r : Board F V E T O × RunStatus} (ht : Turn behaviour b r) :
    (r.2 ≠ .crashed →
        Shows s (if r.1.updates = b.updates then graphs else r.1.graph :: graphs) r.1) ∧
      (r.2 = .crashed →
        Behind s (if r.1.updates = b.updates then graphs else r.1.graph :: graphs) r.1) := by
  obtain ⟨events, b', hpassed, ⟨hb', hnot⟩ | hr⟩ := ht.passed
  · rw [hb', if_pos hpassed.updates]
    exact ⟨fun _ => h.congr hpassed.syncs hpassed.updates, fun hcrashed => absurd hcrashed hnot⟩
  · obtain ⟨hgraph, hupdates, hshows⟩ :=
      (h.congr hpassed.syncs hpassed.updates).evaluateDue hn hr
    rw [if_neg (by rw [hupdates, hpassed.updates]; omega), hgraph]
    exact hshows

end Sequential

namespace Machine

variable {first m : Machine F V E T O} {graphs : List (Graph V E)}

theorem Snapshots.reaches (h : first.Snapshots behaviour graphs m) : first.Reaches behaviour m := by
  induction h with
  | start => exact .refl
  | turn _ ht ih => exact ih.tail (.turn ht)
  | abort _ ih => exact ih.tail (.abort _)

/-- Every run of the loop has its snapshots. -/
theorem Reaches.exists_snapshots {b : Board F V E T O} {status : RunStatus}
    (h : (sequential b status).Reaches behaviour m) :
    (∃ b' status', m = .sequential b' status') ∧
      ∃ graphs, (sequential b status).Snapshots behaviour graphs m := by
  induction h with
  | refl => exact ⟨⟨b, status, rfl⟩, _, .start⟩
  | tail _ hs ih =>
    obtain ⟨⟨b', status', rfl⟩, graphs, hsnapshots⟩ := ih
    cases hs with
    | turn ht => exact ⟨⟨_, _, rfl⟩, _, .turn hsnapshots ht⟩
    | abort => exact ⟨⟨_, _, rfl⟩, _, .abort hsnapshots⟩

/-- Each of the snapshots was taken at some time of the run. -/
theorem Snapshots.exists_reached (h : first.Snapshots behaviour graphs m) :
    ∀ g ∈ graphs, ∃ m', first.Reaches behaviour m' ∧ m'.board.graph = g := by
  induction h with
  | start =>
    intro g hg
    rw [List.mem_singleton.mp hg]
    exact ⟨first, .refl, rfl⟩
  | @turn graphs b r h ht ih =>
    intro g hg
    split at hg
    · exact ih g hg
    · rcases List.mem_cons.mp hg with rfl | hg
      · exact ⟨_, h.reaches.tail (.turn ht), rfl⟩
      · exact ih g hg
  | abort _ ih => exact ih

/-- What the syncs show in a run whose first machine shows what it is to show. -/
def Shown (s : SyncSet V T) (graphs : List (Graph V E)) (m : Machine F V E T O) : Prop :=
  (m.status ≠ .crashed → Sequential.Shows s graphs m.board) ∧
    (m.status = .crashed → Sequential.Behind s graphs m.board)

/-- A whole run. -/
theorem Snapshots.shown {s : SyncSet V T} (hn : (s.registered.map Prod.fst).Nodup)
    (hs : first.Shown s [first.board.graph]) (h : first.Snapshots behaviour graphs m) :
    m.Shown s graphs := by
  induction h with
  | start => exact hs
  | turn _ ht ih => exact ht.shows hn (ih.1 (by simp [status]))
  | @abort graphs m _ ih =>
    cases m with
    | sequential b status =>
      exact ⟨fun hnot => (ih.1 hnot).congr rfl rfl,
        fun hcrashed => (ih.2 hcrashed).congr rfl rfl rfl⟩
    | threaded p =>
      exact ⟨fun hnot => (ih.1 hnot).congr rfl rfl,
        fun hcrashed => (ih.2 hcrashed).congr rfl rfl rfl⟩

end Machine

/-! ## The runs of a core -/

/-- After no update a sync is to show its value for the graph of the start. -/
theorem SyncSpec.shown?_zero (s : SyncSpec V T) (g : Graph V E) :
    s.shown? [g] 0 = s.valueOn g := by
  simp [shown?, lastDue]

namespace Core

variable {core : Core F V E T} {first m : Machine F V E T O}

/-- A run adds no vertices to the bound graph. -/
theorem Consistent.size_throughout (hc : core.Consistent) (hl : core.launch = .ok first)
    (hm : first.Reaches behaviour m) {g : Graph V E} (hheld : core.heldGraph? = some g) :
    m.board.graph.values.size = g.values.size ∧ g.values.size ≤ Graph.maxVertices := by
  obtain ⟨p, hp⟩ := hc.tracks
  obtain ⟨g', hheld', ho, -, hquiet, -⟩ := launch_eq_ok hl hc.toSound hp
  obtain rfl := Option.some.inj (hheld.symm.trans hheld')
  obtain ⟨p', hmoves, -⟩ := hm.moves ho
  have hsize : m.board.graph.values.size = first.board.graph.values.size :=
    (Moves.topology hmoves).2
  have hgraph : first.board.graph = g := hquiet.graph
  exact ⟨hsize.trans (hgraph ▸ rfl), (hc.graph g hheld).values_size⟩

/-- The syncs when all were evaluated at the start of a run. -/
theorem shown_evaluateAll (hn : (core.syncs.syncs.map (·.id)).Nodup) {g : Graph V E}
    {b : Board F V E T O} (hg : b.graph = g) (hu : b.updates = 0)
    (hs : b.syncs = (core.syncs.evaluateAll g).1) :
    ((core.syncs.evaluateAll g).2.broken = false → Sequential.Shows core.syncs [b.graph] b) ∧
      ((core.syncs.evaluateAll g).2.broken = true → Sequential.Behind core.syncs [b.graph] b) := by
  have hall : core.syncs.evaluateAll g =
      core.syncs.evaluate g (core.syncs.syncs.filter fun _ => true) := by
    rw [List.filter_true]
    rfl
  rw [← SyncSet.map_fst_registered] at hn
  have hlength : [b.graph].length = b.updates + 1 := by rw [hu]; rfl
  have hshown : ∀ entry, core.syncs.Renewed (fun _ => true) g (core.syncs.evaluateAll g).1 entry →
      ∃ value, b.syncs.value? entry.1 = some value ∧
        entry.2.shown? [b.graph] b.updates = some value := by
    intro entry hrenewed
    obtain ⟨value, hvalue, hvalue'⟩ := hrenewed
    exact ⟨value, hs ▸ hvalue', by rw [hu, hg, SyncSpec.shown?_zero, hvalue]⟩
  refine ⟨fun hwhole => ⟨?_, hlength, fun entry he => hshown entry ?_⟩, fun hbroken => ?_⟩
  · rw [hs]
    exact SyncSet.registered_evaluate ..
  · rw [hall] at hwhole ⊢
    exact SyncSet.renewed_of_whole hn hwhole entry he
  · rw [hall] at hbroken
    obtain ⟨before, broken, after, hsplit, hpanic, hbefore, hafter⟩ :=
      SyncSet.renewed_of_broken (p := fun _ => true) hn hbroken
    rw [← hall] at hbefore hafter
    refine ⟨hlength, before, broken, after, hsplit, hg ▸ hpanic,
      fun entry he => hshown entry (hbefore entry he), fun entry he => ?_⟩
    rw [if_pos hu, hs]
    exact hafter entry he

/-- A sequential run starts with every sync evaluated on the bound graph. -/
theorem launch_sequential (he : core.options.engine = .sequential)
    (hn : (core.syncs.syncs.map (·.id)).Nodup) (hl : core.launch = .ok first) :
    ∃ g b status, core.heldGraph? = some g ∧ first = .sequential b status ∧ b.graph = g ∧
      b.updates = 0 ∧ b.tasks = [] ∧ (∀ r, status ≠ .ended r) ∧
      first.Shown core.syncs [first.board.graph] := by
  obtain ⟨g, b, hstage, hquiet, -, hsyncs, hm⟩ := launch_cases hl
  have hheld : core.heldGraph? = some g := by rw [heldGraph?, hstage]
  obtain ⟨hshows, hbehind⟩ := shown_evaluateAll hn hquiet.graph hquiet.updates hsyncs
  rcases hm with ⟨hbroken, rfl⟩ | ⟨hwhole, rfl⟩
  · refine ⟨g, b, .crashed, hheld, rfl, hquiet.graph, hquiet.updates, hquiet.tasks, ?_, ?_, ?_⟩
    · intro r hr
      cases hr
    · intro hnot
      exact absurd rfl hnot
    · intro _
      exact hbehind hbroken
  · have hstart : Machine.start core.options b =
        .sequential (b.note (.loopStarted core.options.engine)) .running := by
      unfold Machine.start
      rw [he]
    rw [hstart]
    refine ⟨g, _, _, hheld, rfl, hquiet.graph, hquiet.updates, hquiet.tasks, ?_, ?_, ?_⟩
    · intro r hr
      cases hr
    · intro _
      exact (hshows hwhole).congr rfl rfl
    · intro hcrashed
      cases hcrashed

/-- In a sequential run each update finds every sync as it was evaluated on the graph that the last
due update had left, and so does whoever asks after the run; a panic in an evaluation leaves that
sync and the later ones behind.  The graphs have no more vertices than there are identifiers, so
that the order in which an evaluation takes the vertices is the order of these. -/
theorem Reachable.shared_snapshots (hc : core.Reachable behaviour)
    (he : core.options.engine = .sequential) (hl : core.launch = .ok first)
    (hm : first.Reaches behaviour m) :
    core.heldGraph? = some first.board.graph ∧
      (∃ graphs, first.Snapshots behaviour graphs m) ∧
      ∀ graphs, first.Snapshots behaviour graphs m →
        (∀ g ∈ graphs, g.vertexCount = first.board.graph.vertexCount ∧
          ∀ n < g.vertexCount, (UInt32.ofNat n).toNat = n) ∧
        (∀ b scheduler t program, m = .sequential b .running →
          b.scheduler.next = (some t, scheduler) →
          ({ b with scheduler }.note (.dispatched t)).load behaviour t = .ok program →
          ∀ sync ∈ core.syncs.syncs, ∀ answer,
            ({ b with scheduler }.note (.dispatched t)).Asks ⟨t, 0⟩ program (.readShared sync.id)
              answer →
            ∃ value, answer = .ok value ∧
              sync.spec.shown? graphs b.tasks.length = some value) ∧
        m.Shown core.syncs graphs ∧
        ∀ conclusion next, core.conclude? m = some (conclusion, next) →
          next.syncs = m.board.syncs ∧
            (m.status ≠ .crashed → next.lastUpdateCount = m.board.updates) := by
  have hconsistent := hc.consistent
  have hn := hc.numbered.nodup
  obtain ⟨ho, hv⟩ := hconsistent.launch hl
  obtain ⟨g, b, status, hheld, rfl, hgraph, hupdates, htasks, hended, hfirst⟩ :=
    launch_sequential he hn hl
  refine ⟨hgraph ▸ hheld, hm.exists_snapshots.2, fun graphs hs => ?_⟩
  have hshown : m.Shown core.syncs graphs :=
    hs.shown (by rw [SyncSet.map_fst_registered]; exact hn) hfirst
  refine ⟨fun g' hg' => ?_, ?_, hshown, fun conclusion next hconclude => ?_⟩
  · obtain ⟨m', hm', rfl⟩ := hs.exists_reached g' hg'
    obtain ⟨hsize, hle⟩ := hconsistent.size_throughout hl hm' hheld
    refine ⟨hsize.trans (congrArg Graph.vertexCount hgraph.symm), fun n hn => ?_⟩
    have hlt : n < Graph.maxVertices := Nat.lt_of_lt_of_le (hsize ▸ hn) hle
    exact UInt32.toNat_ofNat_of_lt' (Nat.lt_trans hlt (by decide))
  · rintro b' scheduler t program rfl - - sync hsync answer hasks
    have hshows : Sequential.Shows core.syncs graphs b' := hshown.1 (by simp [Machine.status])
    have htally : Sequential.Tally behaviour (.sequential b status) b status :=
      ⟨fun _ => by rw [hupdates, htasks]; rfl, fun e he _ => absurd he (hended _)⟩
    obtain ⟨_, _, hsame, htally'⟩ := hm.tally ho hv htally
    cases hsame
    have hcounted : b'.updates = b'.tasks.length := htally'.counted rfl
    obtain ⟨value, hvalue, hvalue'⟩ := hshows.shown _
      (List.mem_map_of_mem (f := fun sync : Sync V T => (sync.id, sync.spec)) hsync)
    exact ⟨value, hasks.readShared hvalue, hcounted ▸ hvalue'⟩
  · have hcases := concludes_of_eq_some hconclude
    refine ⟨hcases.syncs_eq, fun hnot => ?_⟩
    cases hcases with
    | crashed hstatus => exact absurd hstatus hnot
    | converged _ => rfl
    | stopped _ => rfl

/-! ### A vertex that counts -/

/-- The sum of all values after every so many updates; one value can be too much for it. -/
def sumBut (interval : Nat) (tooMuch : Option Nat) : SyncSpec Nat Nat where
  zero := 0
  fold total _ x := if tooMuch = some x then none else some (total + x)
  interval := interval

/-- A vertex looks at the first sync, tells what it has seen, and adds one to its value. -/
def lookAndAdd : Behaviour Unit Nat Unit Nat Nat := fun _ _ v => do
  let seen ← Program.readShared 0
  Program.observe seen
  let x ← Program.read v
  Program.write (x + 1)

/-- A core with one vertex, on which the function is to run three times. -/
def countingCore (syncs : List (Sync Nat Nat)) : Core Unit Nat Unit Nat where
  options := { ncpus := 1, policy := .multiset }
  stage := .bound ((Graph.Operation.addVertex 0).edit.run {}).2
  scheduler := ((((Scheduler.empty .fifo .multiset).schedule 0 () 1).1.schedule 0 () 1).1.schedule
    0 () 1).1
  syncs := { syncs }

theorem reachable_countingCore : (countingCore []).Reachable lookAndAdd :=
  .operation (.operation (.operation (.operation
    (.new (rfl : Core.withOptions (countingCore []).options = .ok _))
    (.setGraph _ (.operation .empty (.addVertex 0)))) (.schedule 0 () 1))
    (.schedule 0 () 1)) (.schedule 0 () 1)

/-- The core with one sync, which is due after every second update. -/
def pairwiseCore : Core Unit Nat Unit Nat :=
  countingCore [⟨0, sumBut 2 none, 0⟩]

theorem reachable_pairwiseCore : pairwiseCore.Reachable lookAndAdd :=
  .operation reachable_countingCore (.setSync 0 (sumBut 2 none))

/-- The run of a core of this kind after this many turns. -/
def countingRun (core : Core Unit Nat Unit Nat) (turns : Nat) : Machine Unit Nat Unit Nat Nat :=
  match core.launch with
  | .ok first => first.advanceBy lookAndAdd turns
  | .error _ => .sequential (core.boardOn {}) .crashed

/-- The third update sees what the second one has left, and so does everybody after the run. -/
theorem shared_snapshots_pairwise :
    pairwiseCore.launch = .ok (countingRun pairwiseCore 0) ∧
      (countingRun pairwiseCore 0).Reaches lookAndAdd (countingRun pairwiseCore 4) ∧
      (countingRun pairwiseCore 4).board.observations = [(0, 0), (0, 0), (0, 2)] ∧
      ∃ graphs, (countingRun pairwiseCore 0).Snapshots lookAndAdd graphs
          (countingRun pairwiseCore 4) ∧ graphs.length = 4 ∧
        (sumBut 2 none).shown? graphs 3 = some 2 ∧
        (countingRun pairwiseCore 4).board.syncs.value? 0 = some 2 := by
  have hlaunch : pairwiseCore.launch = .ok (countingRun pairwiseCore 0) := rfl
  have hreach : (countingRun pairwiseCore 0).Reaches lookAndAdd (countingRun pairwiseCore 4) :=
    Machine.reaches_advanceBy lookAndAdd 4 _
  have hvalue : (countingRun pairwiseCore 4).board.syncs.value? 0 = some 2 := rfl
  obtain ⟨-, ⟨graphs, hgraphs⟩, hall⟩ :=
    reachable_pairwiseCore.shared_snapshots rfl hlaunch hreach
  obtain ⟨-, -, hshown, -⟩ := hall graphs hgraphs
  have hshows : Sequential.Shows pairwiseCore.syncs graphs (countingRun pairwiseCore 4).board :=
    hshown.1 fun hcrashed => by cases hcrashed
  obtain ⟨value, hvalue', hshown'⟩ := hshows.shown (0, sumBut 2 none) List.mem_cons_self
  obtain rfl : value = 2 := Option.some.inj (hvalue'.symm.trans hvalue)
  exact ⟨hlaunch, hreach, rfl, graphs, hgraphs, hshows.length, hshown', hvalue⟩

/-- The core with three syncs that are due after every update, of which the second one panics when
the value is one. -/
def brokenCore : Core Unit Nat Unit Nat :=
  countingCore [⟨0, sumBut 1 none, 0⟩, ⟨1, sumBut 1 (some 1), 0⟩, ⟨2, sumBut 1 none, 0⟩]

theorem reachable_brokenCore : brokenCore.Reachable lookAndAdd :=
  .operation (.operation (.operation reachable_countingCore (.setSync 0 (sumBut 1 none)))
    (.setSync 0 (sumBut 1 (some 1)))) (.setSync 0 (sumBut 1 none))

/-- Two syncs that fold alike show the values after different updates: a panic came between them. -/
theorem behind_after_panic : ∃ first next, brokenCore.Reachable lookAndAdd ∧
    brokenCore.launch = .ok first ∧ first.Reaches lookAndAdd (countingRun brokenCore 1) ∧
    brokenCore.conclude? (countingRun brokenCore 1) = some (.crashed, next) ∧
    (countingRun brokenCore 1).board.updates = 1 ∧
    (sumBut 1 none).valueOn (countingRun brokenCore 1).board.graph = some 1 ∧
    next.syncs.value? 0 = some 1 ∧ next.syncs.value? 2 = some 0 :=
  ⟨countingRun brokenCore 0, _, reachable_brokenCore, rfl, Machine.reaches_advanceBy lookAndAdd 1 _,
    rfl, rfl, rfl, rfl, rfl⟩

end Core

end VertexEngine
