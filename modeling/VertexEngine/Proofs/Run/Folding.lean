import VertexEngine.Proofs.Graph.Adjacency
import VertexEngine.Proofs.Run.Editions

/-!
# What an edition was folded from

A worker reads one vertex after another for a sync, while others go on writing.  So the values that
it folds need not have been there at one time; but each of them was there after the update that the
worker had counted, and before it counted another one.

* `SyncSpec.Yields` says that a total was folded from values that were seen.
* `Pool.Seen` is the value of a vertex at some time since an actor has counted.
* `Phase.Reads` is what holds of a worker, `Pool.Reads` of all workers and editions.
-/

namespace VertexEngine

variable {F V E T O : Type} {behaviour : Behaviour F V E T O}

/-! ## Reading one vertex after another -/

namespace SyncSpec

variable {spec : SyncSpec V T} {seen seen' : VertexId × V → Prop} {vertices : List VertexId}
  {total : T}

/-- The vertices were read in their order, and what was seen of them is folded to this total. -/
def Yields (spec : SyncSpec V T) (seen : VertexId × V → Prop) (vertices : List VertexId)
    (total : T) : Prop :=
  ∃ reads : List (VertexId × V), reads.map Prod.fst = vertices ∧
    reads.foldlM (fun acc x => spec.fold acc x.1 x.2) spec.zero = some total ∧
    ∀ read ∈ reads, seen read

theorem yields_nil (spec : SyncSpec V T) (seen : VertexId × V → Prop) :
    spec.Yields seen [] spec.zero :=
  ⟨[], rfl, rfl, by simp⟩

theorem Yields.snoc (h : spec.Yields seen vertices total) {v : VertexId} {x : V} {total' : T}
    (hx : seen (v, x)) (ht : spec.fold total v x = some total') :
    spec.Yields seen (vertices ++ [v]) total' := by
  obtain ⟨reads, rfl, hfold, hseen⟩ := h
  refine ⟨reads ++ [(v, x)], by simp, ?_, ?_⟩
  · simp [List.foldlM_append, hfold, ht]
  · exact List.forall_mem_append.mpr ⟨hseen, List.forall_mem_singleton.mpr hx⟩

theorem Yields.mono (h : spec.Yields seen vertices total) (hs : ∀ read, seen read → seen' read) :
    spec.Yields seen' vertices total := by
  obtain ⟨reads, hreads, hfold, hseen⟩ := h
  exact ⟨reads, hreads, hfold, fun read hread => hs read (hseen read hread)⟩

/-- A total of all vertices that take part is the evaluation of what was seen of them. -/
theorem Yields.evaluate {ids : List VertexId}
    (h : spec.Yields seen (ids.filter spec.covers) total) :
    ∃ reads : List (VertexId × V), reads.map Prod.fst = ids.filter spec.covers ∧
      spec.evaluate reads = spec.finish total ∧ ∀ read ∈ reads, seen read := by
  obtain ⟨reads, hreads, hfold, hseen⟩ := h
  refine ⟨reads, hreads, ?_, hseen⟩
  have hall : reads.filter (spec.covers ∘ Prod.fst) = reads := by
    refine List.filter_eq_self.mpr fun read hread => ?_
    have hmem : read.1 ∈ ids.filter spec.covers := hreads ▸ List.mem_map_of_mem hread
    exact (List.mem_filter.mp hmem).2
  show ((reads.filter (spec.covers ∘ Prod.fst)).foldlM (fun acc x => spec.fold acc x.1 x.2)
    spec.zero).bind spec.finish = spec.finish total
  rw [hall, hfold]
  rfl

end SyncSpec

/-- The value of an edition was folded by a registered sync from what was seen. -/
def Edition.FoldedFrom (s : SyncSet V T) (ids : List VertexId) (seen : VertexId × V → Prop)
    (edition : Edition T) : Prop :=
  ∃ spec total value, (edition.sync, spec) ∈ s.registered ∧ edition.value = some value ∧
    spec.finish total = some value ∧ spec.Yields seen (ids.filter spec.covers) total

theorem Edition.FoldedFrom.mono {s : SyncSet V T} {ids : List VertexId}
    {seen seen' : VertexId × V → Prop} {edition : Edition T}
    (h : edition.FoldedFrom s ids seen) (hs : ∀ read, seen read → seen' read) :
    edition.FoldedFrom s ids seen' := by
  obtain ⟨spec, total, value, hspec, hvalue, hfinish, hyields⟩ := h
  exact ⟨spec, total, value, hspec, hvalue, hfinish, hyields.mono hs⟩

namespace Threaded

/-- What a worker that is folding has read so far. -/
def Phase.Reads (ids : List VertexId) (seen : VertexId × V → Prop) : Phase F V T O → Prop
  | folding sync total unread _ =>
    ∃ read, read ++ unread = ids.filter sync.spec.covers ∧ sync.spec.Yields seen read total
  | _ => True

section

variable {index : Nat} {b b' : Board F V E T O} {old new : Phase F V T O} {e : Option EngineError}
  {ids : List VertexId} {seen seen' : VertexId × V → Prop} {events : List (Event F O)}

theorem Phase.Reads.mono {w : Phase F V T O} (h : w.Reads ids seen)
    (hs : ∀ read, seen read → seen' read) : w.Reads ids seen' := by
  cases w with
  | folding sync total unread due =>
    obtain ⟨read, hread, hyields⟩ := h
    exact ⟨read, hread, hyields.mono hs⟩
  | _ => trivial

/-- A step of a worker reads what is there at that time. -/
theorem Phase.Step.reads (h : old.Step behaviour index b new b' e) (hr : old.Reads ids seen)
    (hids : b.graph.vertexIds = ids) (hg : b.graph.values.size ≤ Graph.maxVertices)
    (hs : b'.history = b.history → (∀ read, seen read → seen' read) ∧
      ∀ read, b.graph.value read.1 = .ok read.2 → seen' read) : new.Reads ids seen' := by
  cases h with
  | evaluate sync due => exact ⟨[], by rw [hids]; rfl, sync.spec.yields_nil seen'⟩
  | @skip sync total v unread due error hmissing =>
    -- every vertex that is still to be read is there
    obtain ⟨read, hread, -⟩ := hr
    have hmem : v ∈ ids.filter sync.spec.covers := hread ▸ by simp
    have hcontains : b.graph.contains v = true :=
      Graph.contains_of_mem_vertexIds hg (hids ▸ List.mem_of_mem_filter hmem)
    obtain ⟨x, hx⟩ := Graph.contains_iff_value.mp hcontains
    rw [hmissing] at hx
    cases hx
  | @fold sync total v unread due x total' hx ht =>
    obtain ⟨read, hread, hyields⟩ := hr
    obtain ⟨hkept, hnow⟩ := hs rfl
    exact ⟨read ++ [v], by rw [← hread]; simp, (hyields.mono hkept).snoc (hnow (v, x) hx) ht⟩
  | _ => trivial

/-- A step of a worker publishes nothing, or the total of all that it has read. -/
theorem Phase.Step.published (h : old.Step behaviour index b new b' e)
    (he : b'.history = events ++ b.history) :
    events.filterMap Event.published? = [] ∨ ∃ sync total due value,
      old = .folding sync total [] due ∧ events = [.published sync.id] ∧
        sync.spec.finish total = some value ∧
        b'.syncs = b.syncs.publish sync.id value := by
  have hsame : b'.history = b.history → events.filterMap Event.published? = [] := by
    intro hh
    obtain rfl : events = [] := List.append_cancel_right (he.symm.trans hh)
    rfl
  have hnote : ∀ event : Event F O, event.isBooked = false → b'.history = event :: b.history →
      events.filterMap Event.published? = [] := by
    intro event hbooked hh
    obtain rfl : events = [event] := List.append_cancel_right (he.symm.trans hh)
    simp [Event.published?_eq_none hbooked]
  cases h with
  | ask x action next =>
    obtain ⟨events', hpassed⟩ := b.exists_passed_perform x action
    obtain rfl : events = events' := List.append_cancel_right (he.symm.trans hpassed.history)
    exact .inl (List.filterMap_eq_nil_iff.mpr fun e he =>
      Event.published?_eq_none (hpassed.unbooked e he))
  | count v =>
    obtain rfl : events = [.counted (b.updates + 1)] := List.append_cancel_right he.symm
    exact .inl rfl
  | @publish sync total due value hfinish =>
    obtain rfl : events = [.published sync.id] := List.append_cancel_right he.symm
    exact .inr ⟨sync, total, due, value, rfl, rfl, hfinish, rfl⟩
  | start | load _ _ | miss _ _ | finish x | noteFailed v e | notePanicked v | leave =>
    exact .inl (hnote _ rfl rfl)
  | _ => exact .inl (hsame rfl)

end

namespace Pool

/-- At some time of the run so far the vertex had this value, and this was the number that the actor
had counted last. -/
def Seen (behaviour : Behaviour F V E T O) (first : Pool F V E T O)
    (log : List (Option Actor × Event F O)) (p : Pool F V E T O) (who : Option Actor) (n : Nat)
    (read : VertexId × V) : Prop :=
  ∃ log' p', (Machine.threaded first).Chronicle behaviour log' (.threaded p') ∧ log' <:+ log ∧
    (Machine.threaded p').Reaches behaviour (.threaded p) ∧ countedLast who log' = n ∧
    p'.board.graph.value read.1 = .ok read.2

variable {first p p' : Pool F V E T O} {who actor : Option Actor} {events : List (Event F O)}
  {log : List (Option Actor × Event F O)} {editions : List (Edition T)} {s : SyncSet V T}
  {ids : List VertexId} {n : Nat} {read : VertexId × V}

theorem Seen.later (h : first.Seen behaviour log p who n read)
    (hs : (Machine.threaded p).Step behaviour (.threaded p'))
    (events : List (Option Actor × Event F O)) :
    first.Seen behaviour (events ++ log) p' who n read := by
  obtain ⟨log', q, hchronicle, hsuffix, hreaches, hcounted, hvalue⟩ := h
  exact ⟨log', q, hchronicle, hsuffix.trans (List.suffix_append _ _), hreaches.tail hs, hcounted,
    hvalue⟩

/-- Where the values of the syncs come from: a worker that is folding has read them, and those of an
edition were all read since its update was counted. -/
structure Reads (behaviour : Behaviour F V E T O) (first : Pool F V E T O) (s : SyncSet V T)
    (ids : List VertexId) (log : List (Option Actor × Event F O)) (editions : List (Edition T))
    (p : Pool F V E T O) : Prop where
  worker : ∀ (index : Nat) (w : Phase F V T O), p.workers[index]? = some w →
    (∀ sync ∈ w.due, (sync.id, sync.spec) ∈ s.registered) ∧
      w.Reads ids (first.Seen behaviour log p (some (.worker index))
        (countedLast (some (.worker index)) log))
  edition : ∀ edition ∈ editions,
    edition.FoldedFrom s ids (first.Seen behaviour log p edition.worker edition.due)

/-- A step that no worker takes. -/
theorem Reads.idle (h : Reads behaviour first s ids log editions p)
    (hs : Machine.StepBy behaviour who (.threaded p) (.threaded p'))
    (hu : Unbooked events)
    (hw : ∀ (index : Nat) (w : Phase F V T O), p'.workers[index]? = some w →
      p.workers[index]? = some w ∨ w = .missing) :
    Reads behaviour first s ids (events.map (who, ·) ++ log)
      (p'.issue who log events ++ editions) p' := by
  obtain ⟨hlast, -, -⟩ := hu.reading who log
  have hissue : p'.issue who log events = [] := by
    rw [issue, List.filterMap_eq_nil_iff.mpr fun e he => Event.published?_eq_none (hu e he)]
    rfl
  rw [hissue, List.nil_append]
  refine ⟨fun index w hget => ?_, fun edition hedition =>
    (h.edition edition hedition).mono fun read hseen => hseen.later hs.step _⟩
  rcases hw index w hget with hold | rfl
  · obtain ⟨hdue, hreads⟩ := h.worker index w hold
    rw [hlast]
    exact ⟨hdue, hreads.mono fun read hseen => hseen.later hs.step _⟩
  · exact ⟨by simp [Phase.due], trivial⟩

/-- A step of a worker. -/
theorem Reads.stepped (h : Reads behaviour first s ids log editions p)
    (hc : (Machine.threaded first).Chronicle behaviour log (.threaded p))
    (hr : p.board.syncs.registered = s.registered) (hids : p.board.graph.vertexIds = ids)
    (hg : p.board.graph.values.size ≤ Graph.maxVertices) {index : Nat} {old new : Phase F V T O}
    {b : Board F V E T O} {e : Option EngineError} (hw : p.workers[index]? = some old)
    (hstep : old.Step behaviour index p.board new b e)
    (hs : (Machine.threaded p).Step behaviour (.threaded (p.stepped index new b e)))
    (he : b.history = events ++ p.board.history) :
    Reads behaviour first s ids (events.map (some (.worker index), ·) ++ log)
      ((p.stepped index new b e).issue (some (.worker index)) log events ++ editions)
      (p.stepped index new b e) := by
  obtain ⟨hdue, hreads⟩ := h.worker index old hw
  have hlater : ∀ who n read, first.Seen behaviour log p who n read → first.Seen behaviour
      (events.map (some (.worker index), ·) ++ log) (p.stepped index new b e) who n read :=
    fun _ _ _ hseen => hseen.later hs _
  refine ⟨fun i w hget => ?_, ?_⟩
  · by_cases hi : i = index
    · subst hi
      have hlt : i < p.workers.length := (List.getElem?_eq_some_iff.mp hw).1
      obtain rfl : new = w := by
        have hset : (p.workers.set i new)[i]? = some w := hget
        rw [List.getElem?_set_self hlt] at hset
        exact Option.some.inj hset
      refine ⟨fun sync hsync => ?_, hstep.reads hreads hids hg fun hsame => ?_⟩
      · rcases hstep.mem_due sync hsync with hold | hregistered
        · exact hdue sync hold
        · rw [← hr]
          exact List.mem_map_of_mem (f := fun sync : Sync V T => (sync.id, sync.spec)) hregistered
      · obtain rfl : events = [] := List.append_cancel_right (he.symm.trans hsame)
        exact ⟨hlater _ _, fun read hvalue =>
          ⟨log, p, hc, List.suffix_rfl, .single hs, rfl, hvalue⟩⟩
    · have hold : p.workers[i]? = some w := by
        have hset : (p.workers.set index new)[i]? = some w := hget
        rwa [List.getElem?_set_ne (Ne.symm hi)] at hset
      obtain ⟨hdue', hreads'⟩ := h.worker i w hold
      have hne : some (Actor.worker i) ≠ some (Actor.worker index) :=
        fun h => hi (Actor.worker.inj (Option.some.inj h))
      rw [countedLast_of_ne hne]
      exact ⟨hdue', hreads'.mono (hlater _ _)⟩
  · have hold : ∀ edition ∈ editions, edition.FoldedFrom s ids (first.Seen behaviour
        (events.map (some (.worker index), ·) ++ log) (p.stepped index new b e) edition.worker
        edition.due) :=
      fun edition hedition => (h.edition edition hedition).mono (hlater _ _)
    rcases hstep.published he with hnone | ⟨sync, total, due, value, rfl, rfl, hfinish, hsyncs⟩
    · rw [issue, hnone, List.map_nil, List.nil_append]
      exact hold
    · obtain ⟨read, hread, hyields⟩ := hreads
      rw [List.append_nil] at hread
      subst hread
      have hentry := hdue sync List.mem_cons_self
      refine List.forall_mem_cons.mpr
        ⟨⟨sync.spec, total, value, hentry, ?_, hfinish, hyields.mono (hlater _ _)⟩, hold⟩
      obtain ⟨old, hvalue⟩ := Option.isSome_iff_exists.mp
        ((p.board.syncs.isSome_value? sync.id).mpr (hr ▸ List.mem_map_of_mem hentry))
      show b.syncs.value? sync.id = some value
      rw [hsyncs, SyncSet.value?_publish, if_pos rfl, hvalue]
      rfl

theorem Reads.step (h : Reads behaviour first s ids log editions p)
    (hc : (Machine.threaded first).Chronicle behaviour log (.threaded p))
    (hr : p.board.syncs.registered = s.registered) (hids : p.board.graph.vertexIds = ids)
    (hg : p.board.graph.values.size ≤ Graph.maxVertices)
    (hs : Machine.StepBy behaviour who (.threaded p) (.threaded p'))
    (he : p'.board.history = events ++ p.board.history) :
    Reads behaviour first s ids (events.map (who, ·) ++ log)
      (p'.issue who log events ++ editions) p' := by
  have hby := hs
  cases hs with
  | abort =>
    obtain rfl : events = [] := List.append_cancel_right he.symm
    exact h.idle hby unbooked_nil fun index w hget => .inl hget
  | @spawnFailed _ index reason _ _ hi _ =>
    have hpassed : p.board.Passed [.workerMissing index] (p.spawnFailed index reason).board :=
      Board.passed_note rfl
    obtain rfl : events = [.workerMissing index] :=
      List.append_cancel_right (he.symm.trans hpassed.history)
    refine h.idle hby hpassed.unbooked fun i w hget => ?_
    have hget : (p.workers.take index ++ [Phase.missing])[i]? = some w := hget
    by_cases hlt : i < index
    · rw [List.getElem?_append_left (by rw [List.length_take]; omega),
        List.getElem?_take_of_lt hlt] at hget
      exact .inl hget
    · rw [List.getElem?_append_right (by rw [List.length_take]; omega)] at hget
      exact .inr (List.mem_singleton.mp (List.mem_of_getElem? hget))
  | @actor _ _ a hstep =>
    unfold step at hstep
    split at hstep
    · cases a with
      | worker index =>
        obtain ⟨old, new, b, e, hw, hphase, rfl⟩ := stepWorker_eq_some hstep
        exact h.stepped hc hr hids hg hw hphase hby.step he
      | pool =>
        obtain ⟨hworkers, events', hpassed⟩ := stepPool_passed hstep
        obtain rfl : events = events' := List.append_cancel_right (he.symm.trans hpassed.history)
        exact h.idle hby hpassed.unbooked fun index w hget => .inl (hworkers ▸ hget)
    · cases hstep

/-- A run in which no vertex is added. -/
theorem Editions.reads (h : first.Editions behaviour log editions p) (hb : first.Balance s [])
    (hw : ∀ w ∈ first.workers, w = .starting)
    (hg : ∀ p, (Machine.threaded first).Reaches behaviour (.threaded p) →
      p.board.graph.vertexIds = ids ∧ p.board.graph.values.size ≤ Graph.maxVertices) :
    Reads behaviour first s ids log editions p := by
  induction h with
  | start =>
    refine ⟨fun index w hget => ?_, by simp⟩
    obtain rfl := hw w (List.mem_of_getElem? hget)
    exact ⟨by simp [Phase.due], trivial⟩
  | step h hs he ih =>
    obtain ⟨hids, hsize⟩ := hg _ h.chronicle.reaches
    exact ih.step h.chronicle (h.balance hb).registered hids hsize hs he

/-- The value of an edition is the evaluation of its sync on the vertices as they were read. -/
theorem Reads.evaluate (h : Reads behaviour first s ids log editions p)
    (hn : (s.syncs.map (·.id)).Nodup) {sync : Sync V T} (hsync : sync ∈ s.syncs)
    {edition : Edition T} (hmem : edition ∈ Edition.of sync.id editions) :
    ∃ reads : List (VertexId × V), reads.map Prod.fst = ids.filter sync.spec.covers ∧
      edition.value = sync.spec.evaluate reads ∧
      ∀ read ∈ reads, first.Seen behaviour log p edition.worker edition.due read := by
  obtain ⟨hedition, hid⟩ := List.mem_filter.mp hmem
  obtain ⟨spec, total, value, hspec, hvalue, hfinish, hyields⟩ := h.edition edition hedition
  rw [← SyncSet.map_fst_registered] at hn
  have hentry : (sync.id, sync.spec) ∈ s.registered :=
    List.mem_map_of_mem (f := fun sync : Sync V T => (sync.id, sync.spec)) hsync
  have hsame : (edition.sync, spec) = (sync.id, sync.spec) :=
    List.inj_on_of_nodup_map hn hspec hentry (by simpa using hid)
  obtain rfl : spec = sync.spec := (Prod.mk.inj hsame).2
  obtain ⟨reads, hreads, hevaluate, hseen⟩ := hyields.evaluate
  exact ⟨reads, hreads, hvalue.trans (hevaluate.trans hfinish).symm, hseen⟩

end Pool

end Threaded

end VertexEngine
