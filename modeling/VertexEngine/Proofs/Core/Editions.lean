import VertexEngine.Proofs.Core.History
import VertexEngine.Proofs.Run.Folding

/-!
# What a sync shows during and after a threaded run

A sync shows the edition that was published last, which need not be the one that was due last: a
worker may be late with its value, and then it overwrites a newer one.  But every edition that is
due gets published, each once; the editions of one worker keep their order; and if no edition is
late, they all do.

* `Reachable.editions_in_order` is the result.
* `older_edition_last` is a run that ends with the older one of two editions.
-/

namespace VertexEngine

variable {F V E T O : Type} {behaviour : Behaviour F V E T O}

namespace Core

open Threaded

variable {core : Core F V E T} {first p : Pool F V E T O}

/-- A threaded run starts with every sync evaluated on the bound graph, and with empty books. -/
theorem launch_threaded (hn : (core.syncs.syncs.map (·.id)).Nodup)
    (hl : core.launch = .ok (.threaded first)) :
    ∃ g, core.heldGraph? = some g ∧ first.Balance core.syncs [] ∧
      first.workers.length = workerCount core.options.ncpus ∧
      (∀ w ∈ first.workers, w = .starting) ∧
      ∀ sync ∈ core.syncs.syncs,
        first.board.syncs.value? sync.id = sync.spec.evaluate g.vertices := by
  obtain ⟨g, b, hstage, hquiet, -, hsyncs, ⟨-, hm⟩ | ⟨hwhole, hm⟩⟩ := launch_cases hl
  · cases hm
  · have hheld : core.heldGraph? = some g := by rw [heldGraph?, hstage]
    unfold Machine.start at hm
    split at hm
    · cases hm
    · obtain rfl := Machine.threaded.inj hm
      have hupdates : b.updates = 0 := hquiet.updates
      have hregistered : b.syncs.registered = core.syncs.registered := by
        rw [hsyncs]
        exact SyncSet.registered_evaluate ..
      refine ⟨g, hheld, ⟨hregistered, ?_, [], ?_⟩, List.length_replicate,
        fun w hw => List.eq_of_mem_replicate hw, fun sync hsync => ?_⟩
      · show [] = (List.range' 1 b.updates).reverse
        rw [hupdates]
        rfl
      · rw [Pool.outstanding_start]
        show List.Perm [] (core.syncs.timetable b.updates)
        rw [hupdates]
        exact .refl []
      · obtain ⟨value, hvalue, hshown⟩ :=
          (SyncSet.value?_evaluate g hn core.syncs hwhole).2 sync hsync
            ((core.syncs.map_fst_registered).symm ▸ List.mem_map_of_mem hsync)
        rw [hvalue, ← hshown]
        exact congrArg (·.value? sync.id) hsyncs

/-- A sync shows its latest edition in a threaded run; each of its editions was due after an update,
and folded from what was read since.  By the end of the run all that were due have appeared, each
once.  Those of one worker appear in the order in which they were due, and so do all of them if each
was published before the sync was due again; then the one that was due last is shown in the end. -/
theorem Reachable.editions_in_order (hc : core.Reachable behaviour)
    (hl : core.launch = .ok (.threaded first))
    (hm : (Machine.threaded first).Reaches behaviour (.threaded p)) :
    (∃ log editions, first.Editions behaviour log editions p) ∧
      ∃ g, core.heldGraph? = some g ∧ ∀ log editions, first.Editions behaviour log editions p →
        ∀ sync ∈ core.syncs.syncs, ∀ published, published = Edition.of sync.id editions →
          p.board.syncs.value? sync.id =
            Edition.shown (sync.spec.evaluate g.vertices) published ∧
          (∀ edition ∈ published, sync.spec.isDue edition.due = true ∧
            (0 < edition.due ∧ edition.due ≤ p.board.updates) ∧
            (∃ index < workerCount core.options.ncpus, edition.worker = some (.worker index)) ∧
            ∃ reads : List (VertexId × V),
              reads.map Prod.fst = g.vertexIds.filter sync.spec.covers ∧
              edition.value = sync.spec.evaluate reads ∧
              ∀ read ∈ reads, first.Seen behaviour log p edition.worker edition.due read) ∧
          published.Pairwise (fun later earlier => later.due ≠ earlier.due ∧
            (later.worker = earlier.worker → earlier.due < later.due)) ∧
          (onTime sync.spec sync.id log = true ∨ core.options.ncpus ≤ 1 →
            published.Pairwise fun later earlier => earlier.due < later.due) ∧
          ∀ conclusion next, core.conclude? (.threaded p) = some (conclusion, next) →
            next.syncs = p.board.syncs ∧
            (core.syncs.Total →
              (∀ n, 0 < n → n ≤ p.board.updates → sync.spec.isDue n = true →
                ∃ edition ∈ published, edition.due = n) ∧
              (onTime sync.spec sync.id log = true ∨ core.options.ncpus ≤ 1 →
                Edition.lastDue published = sync.spec.lastDue p.board.updates)) := by
  have hconsistent := hc.consistent
  have hn := hc.numbered.nodup
  obtain ⟨g, hheld, hfirst, hworkers, hstarting, hstart⟩ := launch_threaded hn hl
  obtain ⟨p', hp', hexists⟩ := Pool.exists_editions hm
  obtain rfl := Machine.threaded.inj hp'
  refine ⟨hexists, g, hheld, ?_⟩
  rintro log editions heditions sync hsync published rfl
  have hbalance := heditions.balance hfirst
  have hissued := heditions.issued hfirst
  have hreads : first.Reads behaviour core.syncs g.vertexIds log editions p := by
    refine heditions.reads hfirst hstarting fun q hq => ?_
    obtain ⟨hsize, hle⟩ := hconsistent.size_throughout hl hq hheld
    exact ⟨congrArg (fun n => (List.range n).map UInt32.ofNat) hsize, hsize ▸ hle⟩
  have hdue : ∀ edition ∈ Edition.of sync.id editions,
      (0 < edition.due ∧ edition.due ≤ p.board.updates) ∧ sync.spec.isDue edition.due = true :=
    fun edition hmem => hbalance.due hn hsync (hissued.mem_evaluations hmem)
  have hascending : onTime sync.spec sync.id log = true ∨ core.options.ncpus ≤ 1 →
      (Edition.of sync.id editions).Pairwise fun later earlier => earlier.due < later.due := by
    intro horder
    refine hissued.ascending hbalance hn hsync (horder.imp_right fun hone => ?_)
    rw [hworkers, workerCount]
    omega
  refine ⟨hstart sync hsync ▸ hissued.shown sync.id, fun edition hmem => ?_,
    hissued.distinct (hbalance.nodup hn) sync.id, hascending, fun conclusion next hconclude => ?_⟩
  · obtain ⟨hrange, hisDue⟩ := hdue edition hmem
    exact ⟨hisDue, hrange, hworkers ▸ hissued.worker edition (List.mem_of_mem_filter hmem),
      hreads.evaluate hn hsync hmem⟩
  · refine ⟨(concludes_of_eq_some hconclude).syncs_eq, fun htotal => ?_⟩
    let r : Run behaviour core := ⟨_, _, conclusion, next, hl, hm, hconclude⟩
    have hall := hissued.complete
      ((r.accounted hconsistent htotal).evaluated log heditions.chronicle) hn hsync
    exact ⟨hall, fun horder => Edition.lastDue_eq (hascending horder)
      (fun edition hmem => ⟨(hdue edition hmem).2, (hdue edition hmem).1.2⟩) hall⟩

/-! ### Two workers and one vertex -/

theorem reachable_summed : summed.Reachable addOne :=
  history_summed.reachable

/-- One worker does everything in time, so that the second edition is shown in the end. -/
theorem editions_in_order_summed :
    (Machine.threaded summedPool).Reaches addOne
        (.threaded (summedPool.interleave addOne summing)) ∧
      ∃ log editions,
        summedPool.Editions addOne log editions (summedPool.interleave addOne summing) ∧
        onTime (sumEvery 1) 0 log = true ∧
        (Edition.of 0 editions).map (·.due) = [2, 1] ∧
        Edition.lastDue (Edition.of 0 editions) =
          (sumEvery 1).lastDue (summedPool.interleave addOne summing).board.updates ∧
        (summedPool.interleave addOne summing).board.syncs.value? 0 =
          Edition.shown (some 0) (Edition.of 0 editions) := by
  have hlaunch : summed.launch = .ok (.threaded summedPool) := rfl
  have hreach : (Machine.threaded summedPool).Reaches addOne
      (.threaded (summedPool.interleave addOne summing)) :=
    Machine.reaches_interleave addOne summedPool summing
  have heditions := Pool.editions_interleave addOne summedPool summing
  have htime : onTime (sumEvery 1) 0 (summedPool.annals addOne [] [] summing).1 = true := by
    decide +kernel
  have hdues : (Edition.of 0 (summedPool.annals addOne [] [] summing).2).map (·.due) = [2, 1] := by
    decide +kernel
  obtain ⟨-, g, hheld, hall⟩ := reachable_summed.editions_in_order hlaunch hreach
  obtain rfl := Option.some.inj hheld
  obtain ⟨hshown, -, -, -, hend⟩ :=
    hall _ _ heditions ⟨0, sumEvery 1, 0⟩ List.mem_cons_self _ rfl
  obtain ⟨-, hend⟩ := hend _ _ summedRun.concluded
  exact ⟨hreach, _, _, heditions, htime, hdues, (hend total_summed).2 (.inl htime), hshown⟩

/-- The first worker has counted and folded, but is late with its value: the second one does its
task and evaluates the syncs in the meantime. -/
def overtaking : List Actor :=
  List.replicate 9 (.worker 0) ++ List.replicate 16 (.worker 1) ++ List.replicate 4 (.worker 0) ++
    List.replicate 3 .pool

/-- The edition that was due after the first update appears over the one that was due after the
second, and is shown when the run has ended. -/
theorem older_edition_last : ∃ log editions conclusion next,
    summed.Reachable addOne ∧ summed.launch = .ok (.threaded summedPool) ∧
      summedPool.Editions addOne log editions (summedPool.interleave addOne overtaking) ∧
      summed.conclude? (.threaded (summedPool.interleave addOne overtaking)) =
        some (conclusion, next) ∧
      conclusion.isConverged = true ∧ next.lastUpdateCount = 2 ∧ (sumEvery 1).lastDue 2 = 2 ∧
      (Edition.of 0 editions).map (fun edition => (edition.due, edition.value)) =
        [(1, some 1), (2, some 2)] ∧
      next.syncs.value? 0 = some 1 := by
  have heditions := Pool.editions_interleave addOne summedPool overtaking
  have hend : (summed.conclude? (.threaded (summedPool.interleave addOne overtaking))).map
      (fun ending => (ending.1.isConverged, ending.2.lastUpdateCount, ending.2.syncs.value? 0)) =
        some (true, 2, some 1) := by
    decide +kernel
  have hpublished : (Edition.of 0 (summedPool.annals addOne [] [] overtaking).2).map
      (fun edition => (edition.due, edition.value)) = [(1, some 1), (2, some 2)] := by
    decide +kernel
  obtain ⟨⟨conclusion, next⟩, hconclude, hending⟩ := Option.map_eq_some_iff.mp hend
  obtain ⟨hconverged, hcount⟩ := Prod.mk.inj hending
  obtain ⟨hupdates, hvalue⟩ := Prod.mk.inj hcount
  exact ⟨_, _, conclusion, next, reachable_summed, rfl, heditions, hconclude, hconverged, hupdates,
    rfl, hpublished, hvalue⟩

end Core

end VertexEngine
