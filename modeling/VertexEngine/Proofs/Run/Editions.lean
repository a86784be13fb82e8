import VertexEngine.Proofs.Run.Accounting
import VertexEngine.Proofs.Run.Snapshot

/-!
# The editions of a sync

A worker of a pool that has counted an update evaluates the syncs that are due, and publishes a
value when it has read the last vertex.  Other workers count and publish in the meantime, so that an
edition of a sync can appear after another one that was due later.

* `Edition` is one publication, and `Pool.Editions` is a run with its editions.
* `Pool.Balance` is what the books still say when syncs may panic: no edition is published that was
  not due, and none is published twice.
* `Pool.Issued` is what one can tell of the editions by themselves: the latest one is shown, and
  those of one worker appear in the order in which they were due.
* `onTime` says that each edition was published before the sync was due again, and
  `ascending_of_onTime` that then all editions appear in that order.
-/

namespace VertexEngine

variable {F V E T O : Type} {behaviour : Behaviour F V E T O}

/-! ## The timetable of one sync -/

namespace SyncSet

variable {s : SyncSet V T} {updates n : Nat}

theorem mem_timetable {id : SyncId} : (n, id) ∈ s.timetable updates ↔
    (0 < n ∧ n ≤ updates) ∧ ∃ sync ∈ s.syncs, sync.spec.isDue n = true ∧ sync.id = id := by
  simp only [timetable, List.mem_flatMap, List.mem_range'_1, List.mem_map, due, List.mem_filter,
    Prod.mk.injEq]
  constructor
  · rintro ⟨n', hn', sync, ⟨hsync, hdue⟩, rfl, hid⟩
    exact ⟨by omega, sync, hsync, hdue, hid⟩
  · rintro ⟨hn, sync, hsync, hdue, hid⟩
    exact ⟨n, by omega, sync, ⟨hsync, hdue⟩, rfl, hid⟩

theorem mem_timetable_of_mem (hn : (s.syncs.map (·.id)).Nodup) {sync : Sync V T}
    (hsync : sync ∈ s.syncs) : (n, sync.id) ∈ s.timetable updates ↔
      (0 < n ∧ n ≤ updates) ∧ sync.spec.isDue n = true := by
  rw [mem_timetable]
  refine and_congr_right fun _ => ⟨?_, fun hdue => ⟨sync, hsync, hdue, rfl⟩⟩
  rintro ⟨sync', hsync', hdue, hid⟩
  rw [← List.inj_on_of_nodup_map hn hsync' hsync hid]
  exact hdue

theorem nodup_timetable (hn : (s.syncs.map (·.id)).Nodup) (updates : Nat) :
    (s.timetable updates).Nodup := by
  induction updates with
  | zero => exact List.nodup_nil
  | succ updates ih =>
    rw [timetable_succ]
    refine List.nodup_append'.mpr ⟨ih, ?_, ?_⟩
    · have hids : ((s.due (updates + 1)).map (·.id)).Nodup :=
        hn.sublist (List.filter_sublist.map _)
      have hpairs := hids.map (f := fun id => (updates + 1, id)) fun _ _ h => (Prod.mk.inj h).2
      rw [List.map_map] at hpairs
      exact hpairs
    · rintro ⟨n, id⟩ hold hnew
      obtain ⟨⟨-, hle⟩, -⟩ := mem_timetable.mp hold
      obtain ⟨sync, -, hpair⟩ := List.mem_map.mp hnew
      have hn : updates + 1 = n := (Prod.mk.inj hpair).1
      omega

end SyncSet

/-! ## Reading a log -/

section

variable {who : Option Threaded.Actor} {id : SyncId}
  {log log' : List (Option Threaded.Actor × Event F O)}

theorem countedLast_mem (who : Option Threaded.Actor)
    (log : List (Option Threaded.Actor × Event F O)) :
    countedLast who log = 0 ∨ countedLast who log ∈ counts log := by
  induction log with
  | nil => exact .inl rfl
  | cons entry log ih =>
    obtain ⟨who', e⟩ := entry
    rw [countedLast, counts, List.filterMap_cons]
    cases hcounted : e.counted? with
    | none => exact ih
    | some n =>
      show (if who' = who then n else countedLast who log) = 0 ∨ _ ∈ n :: counts log
      split
      · exact .inr List.mem_cons_self
      · exact ih.imp_right (List.mem_cons_of_mem n)

/-- Nobody goes back in counting. -/
theorem countedLast_mono (hc : (counts (log' ++ log)).Pairwise (· > ·)) :
    countedLast who log ≤ countedLast who (log' ++ log) := by
  induction log' with
  | nil => exact le_rfl
  | cons entry log' ih =>
    obtain ⟨who', e⟩ := entry
    rw [List.cons_append] at hc ⊢
    rw [counts, List.filterMap_cons] at hc
    rw [countedLast]
    cases hcounted : e.counted? with
    | none =>
      rw [hcounted] at hc
      exact ih hc
    | some n =>
      rw [hcounted] at hc
      obtain ⟨hless, htail⟩ := List.pairwise_cons.mp hc
      show _ ≤ if who' = who then n else countedLast who (log' ++ log)
      have hle := ih htail
      split
      · rcases countedLast_mem who (log' ++ log) with hzero | hmem
        · omega
        · have := hless _ hmem
          omega
      · exact hle

/-- Whatever was evaluated follows a number that was counted before. -/
theorem counted_of_evaluated {n : Nat} (h : (n, id) ∈ evaluations log) :
    n = 0 ∨ n ∈ counts log := by
  induction log with
  | nil => cases h
  | cons entry log ih =>
    have hsub : counts log ⊆ counts (entry :: log) :=
      ((List.sublist_cons_self entry log).filterMap _).subset
    rw [evaluations] at h
    split at h
    · rcases List.mem_cons.mp h with hhead | htail
      · rw [(Prod.mk.inj hhead).1]
        exact (countedLast_mem _ log).imp_right fun hmem => hsub hmem
      · exact (ih htail).imp_right fun hmem => hsub hmem
    · exact (ih h).imp_right fun hmem => hsub hmem

/-- Where nothing is published, nothing was evaluated. -/
theorem evaluations_of_unpublished {events : List (Event F O)}
    (h : events.filterMap Event.published? = []) :
    evaluations (events.map (who, ·) ++ log) = evaluations log := by
  induction events with
  | nil => rfl
  | cons e events ih =>
    rw [List.filterMap_cons] at h
    cases hpublished : e.published? with
    | none =>
      rw [hpublished] at h
      rw [List.map_cons, List.cons_append, evaluations, hpublished]
      exact ih h
    | some id =>
      rw [hpublished] at h
      cases h

/-- Counting from one on is counting upwards. -/
theorem pairwise_counts {updates : Nat} (hc : counts log = (List.range' 1 updates).reverse) :
    (counts log).Pairwise (· > ·) := by
  rw [hc, List.pairwise_reverse]
  exact List.pairwise_lt_range'

theorem mem_counts {updates n : Nat} (hc : counts log = (List.range' 1 updates).reverse) :
    n ∈ counts log ↔ 0 < n ∧ n ≤ updates := by
  rw [hc, List.mem_reverse, List.mem_range'_1]
  omega

/-- Whoever counts from one on did so before. -/
theorem counts_tail {updates : Nat} {entry : Option Threaded.Actor × Event F O}
    (hc : counts (entry :: log) = (List.range' 1 updates).reverse) :
    ∃ before, counts log = (List.range' 1 before).reverse := by
  rw [counts, List.filterMap_cons] at hc
  cases hcounted : entry.2.counted? with
  | none =>
    rw [hcounted] at hc
    exact ⟨updates, hc⟩
  | some n =>
    rw [hcounted] at hc
    cases updates with
    | zero => cases hc
    | succ before =>
      rw [List.range'_concat, List.reverse_append] at hc
      exact ⟨before, (List.cons.inj hc).2⟩

/-! ### In time -/

/-- Each time the sync came to be due again, its evaluation before that had been published. -/
def onTime (spec : SyncSpec V T) (id : SyncId) : List (Option Threaded.Actor × Event F O) → Bool
  | [] => true
  | (_, e) :: log =>
    onTime spec id log && match e.counted? with
      | some n => !spec.isDue n || n ≤ spec.interval ||
          (evaluations log).contains (n - spec.interval, id)
      | none => true

variable {spec : SyncSpec V T}

theorem evaluated_of_onTime (h : onTime spec id log = true) {n : Nat} (hn : n ∈ counts log)
    (hdue : spec.isDue n = true) (hlt : spec.interval < n) :
    (n - spec.interval, id) ∈ evaluations log := by
  induction log with
  | nil => cases hn
  | cons entry log ih =>
    obtain ⟨who, e⟩ := entry
    have hsub : evaluations log ⊆ evaluations ((who, e) :: log) := by
      rw [evaluations]
      split
      · exact List.subset_cons_self _ _
      · exact List.Subset.refl _
    rw [onTime, Bool.and_eq_true] at h
    obtain ⟨hold, hnow⟩ := h
    rw [counts, List.filterMap_cons] at hn
    cases hcounted : e.counted? with
    | none =>
      rw [hcounted] at hn
      exact hsub (ih hold hn)
    | some m =>
      rw [hcounted] at hn hnow
      rcases List.mem_cons.mp hn with rfl | hn
      · have hnot : ¬n ≤ spec.interval := by omega
        simp only [hdue, hnot, Bool.not_true, decide_false, Bool.false_or, List.contains_iff_mem]
          at hnow
        exact hsub hnow
      · exact hsub (ih hold hn)

/-- The multiples of an interval keep a distance. -/
theorem SyncSpec.add_le_of_isDue {n m : Nat} (hn : spec.isDue n = true) (hm : spec.isDue m = true)
    (hlt : n < m) : n + spec.interval ≤ m := by
  obtain ⟨hpos, a, rfl⟩ := (spec.isDue_iff n).mp hn
  obtain ⟨-, b, rfl⟩ := (spec.isDue_iff m).mp hm
  have hab : a < b := Nat.lt_of_mul_lt_mul_left hlt
  calc spec.interval * a + spec.interval
      = spec.interval * (a + 1) := by rw [Nat.mul_add, Nat.mul_one]
    _ ≤ spec.interval * b := Nat.mul_le_mul_left _ hab

/-- Editions that are all in time appear in the order in which they were due. -/
theorem ascending_of_onTime (h : onTime spec id log = true) {updates : Nat}
    (hc : counts log = (List.range' 1 updates).reverse) (hn : (evaluations log).Nodup)
    (hdue : ∀ n, (n, id) ∈ evaluations log → 0 < n ∧ spec.isDue n = true) :
    (evaluations log).Pairwise fun later earlier =>
      later.2 = id → earlier.2 = id → earlier.1 < later.1 := by
  induction log generalizing updates with
  | nil => exact .nil
  | cons entry log ih =>
    obtain ⟨who, e⟩ := entry
    rw [onTime, Bool.and_eq_true] at h
    obtain ⟨before, hc⟩ := counts_tail hc
    cases hpublished : e.published? with
    | none =>
      rw [evaluations, hpublished] at hn hdue ⊢
      exact ih h.1 hc hn hdue
    | some id' =>
      rw [evaluations, hpublished] at hn hdue ⊢
      obtain ⟨hnew, hn⟩ := List.nodup_cons.mp hn
      refine List.pairwise_cons.mpr ⟨?_, ih h.1 hc hn fun n h => hdue n (List.mem_cons_of_mem _ h)⟩
      rintro ⟨n, id''⟩ hmem hid hid''
      obtain rfl : id' = id := hid
      obtain rfl : id'' = id' := hid''
      obtain ⟨hpos, hlast⟩ := hdue _ List.mem_cons_self
      obtain ⟨hpos', hisDue⟩ := hdue n (List.mem_cons_of_mem _ hmem)
      by_contra hnot
      have hne : countedLast who log ≠ n := fun heq => hnew (heq ▸ hmem)
      -- the sync has been due again since, and this edition was not out by then
      have hlater := SyncSpec.add_le_of_isDue hlast hisDue (by simp at hnot; omega)
      have hcounted : n ∈ counts log := (counted_of_evaluated hmem).resolve_left (by omega)
      have hagain : spec.isDue (countedLast who log + spec.interval) = true := by
        obtain ⟨hinterval, hdvd⟩ := (spec.isDue_iff _).mp hlast
        exact (spec.isDue_iff _).mpr ⟨hinterval, Nat.dvd_add_self_right.mpr hdvd⟩
      have hlog := (mem_counts hc).mp hcounted
      have hevaluated := evaluated_of_onTime h.1
        ((mem_counts hc).mpr (by omega : 0 < countedLast who log + spec.interval ∧ _)) hagain
        (by omega)
      rw [Nat.add_sub_cancel] at hevaluated
      exact hnew hevaluated

end

/-! ## The books of a pool -/

namespace Threaded.Pool

variable {first p p' : Pool F V E T O} {who : Option Actor} {events : List (Event F O)}
  {log : List (Option Actor × Event F O)} {s : SyncSet V T}

/-- The numbers were counted in their order, and each evaluation that was due after an update was
made, is still to be made by a worker, or was lost with a worker that panicked. -/
structure Balance (s : SyncSet V T) (log : List (Option Actor × Event F O))
    (p : Pool F V E T O) : Prop where
  registered : p.board.syncs.registered = s.registered
  counted : counts log = (List.range' 1 p.board.updates).reverse
  evaluated : ∃ lost,
    (evaluations log ++ (p.outstanding log ++ lost)).Perm (s.timetable p.board.updates)

theorem Balance.step (h : p.Balance s log)
    (hs : Machine.StepBy behaviour who (.threaded p) (.threaded p'))
    (he : p'.board.history = events ++ p.board.history) :
    p'.Balance s (events.map (who, ·) ++ log) := by
  obtain ⟨lost, hevaluated⟩ := h.evaluated
  obtain ⟨due, due', hserves, hduty | ⟨rfl, hboard, rfl, -⟩⟩ := serves hs he log
  · obtain ⟨before, after, hold, hnew⟩ := hserves.outstanding
    obtain ⟨hregistered, hcounted, -, hkept⟩ :=
      hduty.booked h.registered who log before (after ++ lost)
    refine ⟨hregistered, hcounted h.counted, lost, ?_⟩
    rw [hold, List.append_assoc, List.append_assoc] at hevaluated
    rw [hnew, List.append_assoc, List.append_assoc]
    exact hkept hevaluated
  · obtain ⟨before, after, hold, hnew⟩ := hserves.outstanding
    let dropped := due.map fun sync => (countedLast who log, sync.id)
    refine ⟨hboard ▸ h.registered, hboard ▸ h.counted, dropped ++ lost, ?_⟩
    rw [hboard]
    refine List.Perm.trans (List.Perm.append_left _ ?_) hevaluated
    show (p'.outstanding ([].map (who, ·) ++ log) ++ (dropped ++ lost)).Perm _
    rw [hold, hnew, List.map_nil, List.nil_append, List.append_assoc, List.append_assoc,
      List.append_assoc]
    exact (List.perm_append_comm_assoc after dropped lost).append_left before

theorem Balance.nodup (h : p.Balance s log) (hn : (s.syncs.map (·.id)).Nodup) :
    (evaluations log).Nodup := by
  obtain ⟨lost, hevaluated⟩ := h.evaluated
  exact (List.nodup_append'.mp (hevaluated.nodup_iff.mpr (SyncSet.nodup_timetable hn _))).1

theorem Balance.due (h : p.Balance s log) (hn : (s.syncs.map (·.id)).Nodup) {sync : Sync V T}
    (hsync : sync ∈ s.syncs) {n : Nat} (hmem : (n, sync.id) ∈ evaluations log) :
    (0 < n ∧ n ≤ p.board.updates) ∧ sync.spec.isDue n = true := by
  obtain ⟨lost, hevaluated⟩ := h.evaluated
  exact (SyncSet.mem_timetable_of_mem hn hsync).mp
    (hevaluated.subset (List.mem_append_left _ hmem))

end Threaded.Pool

/-! ## Editions -/

/-- A publication of a sync. -/
structure Edition (T : Type) where
  worker : Option Threaded.Actor
  /-- The number of the update after which it was due: the one that the worker had counted last. -/
  due : Nat
  sync : SyncId
  /-- What the sync showed then. -/
  value : Option T

namespace Edition

/-- The editions of one sync. -/
def of (id : SyncId) (editions : List (Edition T)) : List (Edition T) :=
  editions.filter (·.sync == id)

/-- What is shown after these editions of one sync, the latest first. -/
def shown (start : Option T) : List (Edition T) → Option T
  | [] => start
  | edition :: _ => edition.value

/-- The number of the update after which the latest edition was due; zero for the start. -/
def lastDue : List (Edition T) → Nat
  | [] => 0
  | edition :: _ => edition.due

/-- If all that was due is published, in the order in which it was due, then the latest edition is
the one that was due last. -/
theorem lastDue_eq {editions : List (Edition T)} {spec : SyncSpec V T} {updates : Nat}
    (ha : editions.Pairwise fun later earlier => earlier.due < later.due)
    (hdue : ∀ edition ∈ editions, spec.isDue edition.due = true ∧ edition.due ≤ updates)
    (hall : ∀ n, 0 < n → n ≤ updates → spec.isDue n = true →
      ∃ edition ∈ editions, edition.due = n) :
    lastDue editions = spec.lastDue updates := by
  have hmem : 0 < spec.lastDue updates →
      ∃ edition ∈ editions, edition.due = spec.lastDue updates :=
    fun hpos => hall _ hpos (spec.lastDue_le updates) (spec.isDue_lastDue hpos)
  cases editions with
  | nil =>
    by_contra hne
    obtain ⟨edition, hnot, -⟩ := hmem (Nat.pos_of_ne_zero fun hzero => hne hzero.symm)
    cases hnot
  | cons latest rest =>
    show latest.due = spec.lastDue updates
    obtain ⟨hisDue, hle⟩ := hdue latest List.mem_cons_self
    have hupper := spec.le_lastDue hisDue hle
    by_contra hne
    obtain ⟨edition, hedition, hlast⟩ := hmem (by omega)
    rcases List.mem_cons.mp hedition with rfl | hrest
    · exact hne hlast
    · have := (List.pairwise_cons.mp ha).1 edition hrest
      omega

end Edition

namespace Threaded.Pool

/-- The editions that appear in a step with these events. -/
def issue (p : Pool F V E T O) (who : Option Actor) (log : List (Option Actor × Event F O))
    (events : List (Event F O)) : List (Edition T) :=
  (events.filterMap Event.published?).map fun id =>
    ⟨who, countedLast who log, id, p.board.syncs.value? id⟩

/-- A run of a pool with its chronicle and its editions, the latest first. -/
inductive Editions (behaviour : Behaviour F V E T O) (first : Pool F V E T O) :
    List (Option Actor × Event F O) → List (Edition T) → Pool F V E T O → Prop
  | start : Editions behaviour first [] [] first
  | step {log : List (Option Actor × Event F O)} {editions : List (Edition T)}
    {p p' : Pool F V E T O} {who : Option Actor} {events : List (Event F O)}
    (h : Editions behaviour first log editions p)
    (hs : Machine.StepBy behaviour who (.threaded p) (.threaded p'))
    (he : p'.board.history = events ++ p.board.history) :
    Editions behaviour first (events.map (who, ·) ++ log) (p'.issue who log events ++ editions) p'

variable {first p p' : Pool F V E T O} {who : Option Actor} {events : List (Event F O)}
  {log : List (Option Actor × Event F O)} {editions : List (Edition T)} {s : SyncSet V T}

theorem Editions.chronicle (h : first.Editions behaviour log editions p) :
    (Machine.threaded first).Chronicle behaviour log (.threaded p) := by
  induction h with
  | start => exact .start
  | step _ hs he ih => exact ih.step hs he

/-- Every run of a pool has its editions. -/
theorem exists_editions {m : Machine F V E T O}
    (h : (Machine.threaded first).Reaches behaviour m) :
    ∃ p, m = .threaded p ∧ ∃ log editions, first.Editions behaviour log editions p := by
  induction h with
  | refl => exact ⟨first, rfl, [], [], .start⟩
  | @tail m m' _ hs ih =>
    obtain ⟨p, rfl, log, editions, heditions⟩ := ih
    obtain ⟨who, hby⟩ := hs.exists_by
    obtain ⟨events, he⟩ := hs.exists_events
    obtain ⟨p', rfl⟩ : ∃ p', m' = .threaded p' := by
      cases hs with
      | abort => exact ⟨_, rfl⟩
      | spawnFailed => exact ⟨_, rfl⟩
      | actor => exact ⟨_, rfl⟩
    exact ⟨p', rfl, _, _, heditions.step hby he⟩

theorem Editions.balance (h : first.Editions behaviour log editions p) (hs : first.Balance s []) :
    p.Balance s log := by
  induction h with
  | start => exact hs
  | step _ hstep he ih => exact ih.step hstep he

/-- What can be told of the editions of a run by themselves. -/
structure Issued (first : Pool F V E T O) (log : List (Option Actor × Event F O))
    (editions : List (Edition T)) (p : Pool F V E T O) : Prop where
  listed : editions.map (fun edition => (edition.due, edition.sync)) = evaluations log
  shown : ∀ id, p.board.syncs.value? id =
    Edition.shown (first.board.syncs.value? id) (Edition.of id editions)
  workers : p.workers.length ≤ first.workers.length
  worker : ∀ edition ∈ editions,
    ∃ index < first.workers.length, edition.worker = some (.worker index)
  counted : ∀ edition ∈ editions, edition.due ≤ countedLast edition.worker log
  ordered : editions.Pairwise fun later earlier =>
    later.worker = earlier.worker → earlier.due ≤ later.due

/-- A step in which no edition appears. -/
theorem Issued.silent (h : Issued first log editions p)
    (hc : (counts (events.map (who, ·) ++ log)).Pairwise (· > ·))
    (hnone : events.filterMap Event.published? = []) (hsyncs : p'.board.syncs = p.board.syncs)
    (hw : p'.workers.length ≤ p.workers.length) :
    Issued first (events.map (who, ·) ++ log) (p'.issue who log events ++ editions) p' := by
  have hissue : p'.issue who log events = [] := by rw [issue, hnone, List.map_nil]
  rw [hissue, List.nil_append]
  refine ⟨?_, fun id => hsyncs ▸ h.shown id, hw.trans h.workers, h.worker,
    fun edition hmem => (h.counted edition hmem).trans (countedLast_mono hc), h.ordered⟩
  rw [evaluations_of_unpublished hnone]
  exact h.listed

/-- A step in which a worker publishes a value. -/
theorem Issued.publish (h : Issued first log editions p) {index : Nat}
    (hindex : index < p.workers.length) (id : SyncId) (value : T)
    (hsyncs : p'.board.syncs = p.board.syncs.publish id value)
    (hw : p'.workers.length ≤ p.workers.length) :
    Issued first ([.published id].map (some (.worker index), ·) ++ log)
      (p'.issue (some (.worker index)) log [.published id] ++ editions) p' := by
  let edition : Edition T :=
    ⟨some (.worker index), countedLast (some (.worker index)) log, id, p'.board.syncs.value? id⟩
  show Issued first ((some (.worker index), .published id) :: log) (edition :: editions) p'
  refine ⟨congrArg (_ :: ·) h.listed, fun id' => ?_, hw.trans h.workers, ?_, ?_, ?_⟩
  · by_cases hid : id' = id
    · subst hid
      rw [Edition.of, List.filter_cons_of_pos (by simp [edition])]
      rfl
    · rw [Edition.of, List.filter_cons_of_neg (by simp [edition, Ne.symm hid]), hsyncs,
        SyncSet.value?_publish, if_neg hid]
      exact h.shown id'
  · rw [List.forall_mem_cons]
    exact ⟨⟨index, hindex.trans_le h.workers, rfl⟩, h.worker⟩
  · rw [List.forall_mem_cons]
    exact ⟨le_rfl, h.counted⟩
  · refine List.pairwise_cons.mpr ⟨fun earlier hearlier hsame => ?_, h.ordered⟩
    have hle := h.counted earlier hearlier
    rw [← hsame] at hle
    exact hle

theorem Issued.step (h : Issued first log editions p)
    (hl : p'.Balance s (events.map (who, ·) ++ log))
    (hs : Machine.StepBy behaviour who (.threaded p) (.threaded p'))
    (he : p'.board.history = events ++ p.board.history) :
    Issued first (events.map (who, ·) ++ log) (p'.issue who log events ++ editions) p' := by
  have hc := pairwise_counts hl.counted
  obtain ⟨due, due', hserves, hduty | ⟨rfl, hboard, rfl, -⟩⟩ := serves hs he log
  · have hown := hserves.own
    generalize hboard : p'.board = b at hduty
    cases hduty with
    | other _ hpassed =>
      refine h.silent hc ?_ (hboard ▸ hpassed.syncs) hserves.workers
      exact List.filterMap_eq_nil_iff.mpr fun e he =>
        Event.published?_eq_none (hpassed.unbooked e he)
    | count =>
      have hsyncs : p'.board.syncs = p.board.increment.syncs := congrArg Board.syncs hboard
      exact h.silent hc rfl hsyncs hserves.workers
    | publish sync value _ =>
      obtain ⟨index, hindex, rfl⟩ := hown (List.cons_ne_nil _ _)
      exact h.publish hindex sync.id value (congrArg Board.syncs hboard) hserves.workers
  · exact h.silent hc rfl (congrArg Board.syncs hboard) hserves.workers

theorem Editions.issued (h : first.Editions behaviour log editions p) (hs : first.Balance s []) :
    Issued first log editions p := by
  induction h with
  | start => exact ⟨rfl, fun _ => rfl, le_rfl, by simp, by simp, .nil⟩
  | step h hstep he ih => exact ih.step ((h.balance hs).step hstep he) hstep he

/-- The log and the editions after these actors have moved, one after the other. -/
def annals (behaviour : Behaviour F V E T O) (p : Pool F V E T O)
    (log : List (Option Actor × Event F O)) (editions : List (Edition T)) :
    List Actor → List (Option Actor × Event F O) × List (Edition T)
  | [] => (log, editions)
  | a :: rest =>
    match p.step behaviour a with
    | none => p.annals behaviour log editions rest
    | some p' =>
      let events := p'.board.history.take (p'.board.history.length - p.board.history.length)
      p'.annals behaviour (events.map (some a, ·) ++ log)
        (p'.issue (some a) log events ++ editions) rest

theorem Editions.annals (h : first.Editions behaviour log editions p) (actors : List Actor) :
    first.Editions behaviour (p.annals behaviour log editions actors).1
      (p.annals behaviour log editions actors).2 (p.interleave behaviour actors) := by
  induction actors generalizing p log editions with
  | nil => exact h
  | cons a rest ih =>
    rw [Pool.annals, interleave]
    cases hstep : p.step behaviour a with
    | none => exact ih h
    | some p' =>
      have hby : Machine.StepBy behaviour (some a) (.threaded p) (.threaded p') := .actor hstep
      obtain ⟨events, he⟩ := hby.step.exists_events
      have he : p'.board.history = events ++ p.board.history := he
      have htake : p'.board.history.take
          (p'.board.history.length - p.board.history.length) = events := by
        rw [he, List.length_append, Nat.add_sub_cancel, List.take_left]
      simp only [htake]
      exact ih (h.step hby he)

theorem editions_interleave (behaviour : Behaviour F V E T O) (first : Pool F V E T O)
    (actors : List Actor) :
    first.Editions behaviour (first.annals behaviour [] [] actors).1
      (first.annals behaviour [] [] actors).2 (first.interleave behaviour actors) :=
  Editions.start.annals actors

/-! ### The editions of one sync -/

variable {sync : Sync V T}

theorem Issued.mem_evaluations (h : Issued first log editions p) {edition : Edition T} {id : SyncId}
    (hmem : edition ∈ Edition.of id editions) : (edition.due, id) ∈ evaluations log := by
  obtain ⟨hedition, hid⟩ := List.mem_filter.mp hmem
  obtain rfl : edition.sync = id := by simpa using hid
  exact h.listed ▸ List.mem_map_of_mem hedition

/-- What holds for all pairs of evaluations of a sync holds for its editions. -/
theorem Issued.pairwise_of (h : Issued first log editions p) {R : Nat → Nat → Prop} {id : SyncId}
    (hr : (evaluations log).Pairwise fun later earlier =>
      later.2 = id → earlier.2 = id → R later.1 earlier.1) :
    (Edition.of id editions).Pairwise fun later earlier => R later.due earlier.due := by
  rw [← h.listed, List.pairwise_map] at hr
  refine (hr.sublist List.filter_sublist).imp_of_mem fun {later earlier} hlater hearlier hpair => ?_
  exact hpair (by simpa using (List.mem_filter.mp hlater).2)
    (by simpa using (List.mem_filter.mp hearlier).2)

/-- No edition appears twice, and a worker publishes what was due earlier before what was due
later. -/
theorem Issued.distinct (h : Issued first log editions p) (hn : (evaluations log).Nodup)
    (id : SyncId) : (Edition.of id editions).Pairwise fun later earlier =>
      later.due ≠ earlier.due ∧ (later.worker = earlier.worker → earlier.due < later.due) := by
  have hne : (Edition.of id editions).Pairwise fun later earlier => later.due ≠ earlier.due :=
    h.pairwise_of (hn.imp fun {later earlier} hpair hlater hearlier hsame =>
      hpair (Prod.ext hsame (hlater.trans hearlier.symm)))
  refine List.Pairwise.imp₂ (fun later earlier hne hle => ⟨hne, fun hsame => ?_⟩) hne
    (h.ordered.sublist List.filter_sublist)
  have := hle hsame
  omega

/-- Editions that are in time, and all editions of a single worker, appear in the order in which
they were due. -/
theorem Issued.ascending (h : Issued first log editions p) (hl : p.Balance s log)
    (hn : (s.syncs.map (·.id)).Nodup) (hsync : sync ∈ s.syncs)
    (ho : onTime sync.spec sync.id log = true ∨ first.workers.length = 1) :
    (Edition.of sync.id editions).Pairwise fun later earlier => earlier.due < later.due := by
  rcases ho with htime | hsingle
  · have hdue : ∀ n, (n, sync.id) ∈ evaluations log → 0 < n ∧ sync.spec.isDue n = true :=
      fun n hmem => ⟨(hl.due hn hsync hmem).1.1, (hl.due hn hsync hmem).2⟩
    exact h.pairwise_of (R := fun later earlier => earlier < later)
      (ascending_of_onTime htime hl.counted (hl.nodup hn) hdue)
  · have hworker : ∀ edition ∈ Edition.of sync.id editions,
        edition.worker = some (.worker 0) := by
      intro edition hmem
      obtain ⟨index, hindex, hworker⟩ := h.worker edition (List.mem_of_mem_filter hmem)
      obtain rfl : index = 0 := by omega
      exact hworker
    refine (h.distinct (hl.nodup hn) sync.id).imp_of_mem
      fun {later earlier} hlater hearlier hpair =>
      hpair.2 ?_
    rw [hworker later hlater, hworker earlier hearlier]

/-- When all that was due was evaluated, all editions are there. -/
theorem Issued.complete (h : Issued first log editions p) {updates : Nat}
    (hall : (evaluations log).Perm (s.timetable updates)) (hn : (s.syncs.map (·.id)).Nodup)
    (hsync : sync ∈ s.syncs) : ∀ n, 0 < n → n ≤ updates → sync.spec.isDue n = true →
      ∃ edition ∈ Edition.of sync.id editions, edition.due = n := by
  intro n hpos hle hdue
  have hmem : (n, sync.id) ∈ evaluations log :=
    hall.symm.subset ((SyncSet.mem_timetable_of_mem hn hsync).mpr ⟨⟨hpos, hle⟩, hdue⟩)
  rw [← h.listed] at hmem
  obtain ⟨edition, hedition, hpair⟩ := List.mem_map.mp hmem
  obtain ⟨rfl, hid⟩ := Prod.mk.inj hpair
  exact ⟨edition, List.mem_filter.mpr ⟨hedition, by simp [hid]⟩, rfl⟩

end Threaded.Pool

end VertexEngine
